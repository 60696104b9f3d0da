import LadderDiagram.Proofs.Snapshot.Form
import LadderDiagram.Proofs.Success
import Mathlib.Tactic.Tauto

/-!
# Tokens of what was written

Every lexeme of a written document is read as one token, whatever follows it: a string as its
characters with the control characters among them given by number, a natural number as its digits.
Only a numeral looks at what comes next, and ends where no digit, point or exponent does
(`Stops`).
-/

namespace LadderDiagram.Json

theorem tokens_of_space {c : Char} (h : isSpace c) (s : List Char) :
    tokens (c :: s) = tokens s := by
  rw [tokens, if_pos h]

theorem tokens_cons {c : Char} (h : isSpace c = false) (s : List Char) :
    tokens (c :: s) = (firstToken c s).1 :: tokens (firstToken c s).2 := by
  rw [tokens, if_neg (by simp [h])]

theorem tokens_append_of_spaces {w : List Char} (h : ∀ c ∈ w, isSpace c) (s : List Char) :
    tokens (w ++ s) = tokens s := by
  induction w with
  | nil => rfl
  | cons c w ih =>
    rw [List.cons_append, tokens_of_space (h c List.mem_cons_self),
      ih fun d hd => h d (List.mem_cons_of_mem c hd)]

/-! ## Strings -/

namespace Quoted

def piece (c : Char) : Piece :=
  if c < ' ' ∧ c ∉ ['\x08', '\x0c', '\n', '\r', '\t'] then .unit c.toNat else .char c

def ofText (s : String) : Quoted := ⟨s.toList.map piece, .closed⟩

theorem hexUnit?_hexChar {n : Nat} (h : n < 32) :
    hexUnit? '0' '0' (hexChar (n / 16)) (hexChar (n % 16)) = some n := by
  have hall : ∀ n < 32, hexUnit? '0' '0' (hexChar (n / 16)) (hexChar (n % 16)) = some n := by
    decide
  exact hall n h

theorem toNat_lt_of_lt_space {c : Char} (h : c < ' ') : c.toNat < 32 := h

theorem scan_escapeChar (c : Char) (rest : List Char) :
    scan (escapeChar c ++ rest) = cons (piece c) (scan rest) := by
  unfold escapeChar
  split
  case h_8 hquote hslash hb hf hn hr ht =>
    by_cases hc : c < ' '
    · have hunit : piece c = .unit c.toNat := by
        simp only [piece, List.mem_cons, List.not_mem_nil, or_false]
        rw [if_pos ⟨hc, by tauto⟩]
      rw [if_pos hc, hunit]
      simp only [List.cons_append, List.nil_append, scan]
      rw [hexUnit?_hexChar (toNat_lt_of_lt_space hc)]
    · have hchar : piece c = .char c := if_neg fun h => hc h.1
      rw [if_neg hc, hchar, List.singleton_append, scan]
      · rw [if_neg hc]
      · exact hquote
      all_goals
        intros
        exact hslash ‹_›
  all_goals rfl

theorem scan_ofText (s : String) (rest : List Char) :
    scan (s.toList.flatMap escapeChar ++ '"' :: rest) = (ofText s, rest) := by
  rw [ofText]
  induction s.toList with
  | nil => rfl
  | cons c cs ih => rw [List.flatMap_cons, List.append_assoc, scan_escapeChar, ih]; rfl

theorem join_map_piece (cs : List Char) : join .closed (cs.map piece) = .ok cs := by
  induction cs with
  | nil => rfl
  | cons c cs ih =>
    rw [List.map_cons, piece]
    split
    · rename_i h
      have hn := toNat_lt_of_lt_space h.1
      have htrail : isTrail c.toNat = false := by simp [isTrail]; omega
      have hlead : isLead c.toNat = false := by simp [isLead]; omega
      rw [join.eq_def]
      simp [htrail, hlead, ih, Except.map]
    · rw [join.eq_def]
      simp [ih, Except.map]

theorem decode_ofText (s : String) : (ofText s).decode = .ok s := by
  simp [decode, ofText, join_map_piece, check, bind, Except.bind, pure, Except.pure]

end Quoted

theorem toList_writeText (s : String) :
    (writeText s).toList = '"' :: (s.toList.flatMap escapeChar ++ ['"']) := by
  simp [writeText]

/-- A written string is read as one token. -/
theorem tokens_writeText (s : String) (rest : List Char) :
    tokens ((writeText s).toList ++ rest) = .scalar (.text (.ofText s)) :: tokens rest := by
  have hscan : Quoted.scan (s.toList.flatMap escapeChar ++ ['"'] ++ rest) =
      (.ofText s, rest) := by
    rw [List.append_assoc]
    exact Quoted.scan_ofText s rest
  rw [toList_writeText, List.cons_append, tokens_cons rfl]
  simp only [firstToken, hscan]
  rfl

/-! ## Numerals -/

/-- Digits end before this text. -/
def EndsDigits (s : List Char) : Prop := ∀ c ∈ s.head?, c.isDigit = false

/-- A numeral ends before this text. -/
def Stops (s : List Char) : Prop :=
  ∀ c ∈ s.head?, c.isDigit = false ∧ c ≠ '.' ∧ c ≠ 'e' ∧ c ≠ 'E'

theorem stops_nil : Stops [] := by simp [Stops]

theorem Stops.endsDigits {s : List Char} (h : Stops s) : EndsDigits s := fun c hc => (h c hc).1

theorem leadingDigits_append {s tail : List Char} (h : EndsDigits tail) :
    leadingDigits (s ++ tail) = leadingDigits s := by
  rw [leadingDigits, leadingDigits]
  induction s with
  | nil =>
    cases tail with
    | nil => rfl
    | cons c _ => rw [List.nil_append, List.takeWhile_cons_of_neg (by simp [h c rfl])]; rfl
  | cons c s ih =>
    simp only [List.cons_append, List.takeWhile_cons]
    split
    · exact congrArg (_ :: ·) ih
    · rfl

theorem afterDigits_append {s tail : List Char} (h : EndsDigits tail) :
    afterDigits (s ++ tail) = afterDigits s ++ tail := by
  induction s with
  | nil =>
    cases tail with
    | nil => rfl
    | cons c _ => exact List.dropWhile_cons_of_neg (by simp [h c rfl])
  | cons c s ih =>
    simp only [afterDigits, List.cons_append, List.dropWhile_cons] at ih ⊢
    split
    · exact ih
    · rfl

namespace Numeral

theorem someDigits_append {s tail : List Char} {digits : List Nat} (h : EndsDigits tail)
    (hs : someDigits s = .ok digits) : someDigits (s ++ tail) = .ok digits := by
  rw [someDigits] at hs ⊢
  rw [leadingDigits_append h]
  cases hd : leadingDigits s with
  | nil => rw [hd] at hs; cases hs
  | cons d ds => rwa [hd] at hs

theorem scanWhole_append {s tail : List Char} {digits : List Nat} (h : EndsDigits tail)
    (hs : scanWhole s = .ok digits) : scanWhole (s ++ tail) = .ok digits := by
  rw [scanWhole] at hs ⊢
  cases hd : someDigits s with
  | error e => rw [hd] at hs; cases hs
  | ok ds => rw [someDigits_append h hd]; rwa [hd] at hs

theorem scanFraction_append {s tail rest : List Char} {digits : List Nat} (h : Stops tail)
    (hs : scanFraction s = .ok (digits, rest)) :
    scanFraction (s ++ tail) = .ok (digits, rest ++ tail) := by
  unfold scanFraction at hs
  split at hs
  · rename_i t
    obtain ⟨ds, hd, he⟩ := bind_eq_ok.1 hs
    cases he
    show (someDigits (t ++ tail) >>= fun ds => pure (ds, afterDigits (t ++ tail))) = _
    rw [someDigits_append h.endsDigits hd, afterDigits_append h.endsDigits]
    rfl
  · rename_i hne
    cases hs
    rw [scanFraction]
    rintro t ht
    cases s with
    | nil =>
      rw [List.nil_append] at ht
      exact (h '.' (by rw [ht]; rfl)).2.1 rfl
    | cons c s =>
      obtain ⟨rfl, -⟩ := List.cons.inj ht
      exact hne s rfl

theorem scanSign_append {s tail : List Char} (hs : s ≠ []) :
    scanSign (s ++ tail) = ((scanSign s).1, (scanSign s).2 ++ tail) := by
  cases s with
  | nil => exact (hs rfl).elim
  | cons c s =>
    by_cases hplus : c = '+'
    · subst hplus
      rfl
    · by_cases hminus : c = '-'
      · subst hminus
        rfl
      · simp [scanSign, hplus, hminus]

theorem scanExponent_append {s tail rest : List Char} {e : Option (Bool × List Nat)}
    (h : Stops tail) (hs : scanExponent s = .ok (e, rest)) :
    scanExponent (s ++ tail) = .ok (e, rest ++ tail) := by
  cases s with
  | nil =>
    cases hs
    cases tail with
    | nil => rfl
    | cons c tail => exact if_neg (by simp [(h c rfl).2.2])
  | cons c s =>
    rw [List.cons_append]
    unfold scanExponent at hs ⊢
    simp only at hs ⊢
    split at hs
    · rename_i hc
      rw [if_pos hc]
      obtain ⟨ds, hd, he⟩ := bind_eq_ok.1 hs
      cases he
      have hne : s ≠ [] := by
        rintro rfl
        cases hd
      rw [scanSign_append hne]
      simp only
      rw [someDigits_append h.endsDigits hd, afterDigits_append h.endsDigits]
      rfl
    · rename_i hc
      rw [if_neg hc]
      cases hs
      rfl

/-- What is scanned as a numeral is scanned as the same numeral in front of any text that does
not go on with it. -/
theorem scan_append {negative : Bool} {s tail rest : List Char} {n : Numeral} (h : Stops tail)
    (hs : scan negative s = .ok (n, rest)) :
    scan negative (s ++ tail) = .ok (n, rest ++ tail) := by
  obtain ⟨whole, hw, hs⟩ := bind_eq_ok.1 hs
  obtain ⟨⟨fraction, s'⟩, hf, hs⟩ := bind_eq_ok.1 hs
  obtain ⟨⟨exponent, s''⟩, he, hs⟩ := bind_eq_ok.1 hs
  cases hs
  rw [scan, scanWhole_append h.endsDigits hw, afterDigits_append h.endsDigits]
  show (scanFraction _ >>= _) = _
  rw [scanFraction_append h hf]
  show (scanExponent _ >>= _) = _
  rw [scanExponent_append h he]
  rfl

def digitsOf (n : Nat) : List Nat := (Nat.toDigits 10 n).map fun c => c.toNat - '0'.toNat

def ofNat (n : Nat) : Numeral := ⟨false, digitsOf n, [], none⟩

theorem isDigit_of_mem_toDigits {n : Nat} {c : Char} (h : c ∈ Nat.toDigits 10 n) : c.isDigit :=
  Nat.isDigit_of_mem_toDigits (by decide) (by decide) h

theorem leadingDigits_toDigits (n : Nat) : leadingDigits (Nat.toDigits 10 n) = digitsOf n := by
  rw [leadingDigits, ← List.append_nil (Nat.toDigits 10 n),
    List.takeWhile_append_of_pos fun c hc => isDigit_of_mem_toDigits hc]
  simp [digitsOf]

theorem afterDigits_toDigits (n : Nat) : afterDigits (Nat.toDigits 10 n) = [] := by
  rw [afterDigits, ← List.append_nil (Nat.toDigits 10 n),
    List.dropWhile_append_of_pos fun c hc => isDigit_of_mem_toDigits hc]
  rfl

theorem digitsValue_digitsOf (n : Nat) : digitsValue (digitsOf n) = n := by
  have h := Nat.ofDigitChars_ten_toDigits (n := n)
  rw [Nat.ofDigitChars] at h
  rw [digitsValue, digitsOf, List.foldl_map]
  simpa only [Nat.mul_comm _ 10] using h

/-- Only zero begins with a zero. -/
theorem exists_digitsOf {n : Nat} (h : n ≠ 0) : ∃ d ds, digitsOf n = d :: ds ∧ d ≠ 0 := by
  induction n using Nat.strongRecOn with
  | ind n ih =>
    by_cases hn : n < 10
    · refine ⟨n, [], ?_, h⟩
      rw [digitsOf, Nat.toDigits_of_lt_base hn]
      exact congrArg (fun d => [d]) (Nat.toNat_digitChar_sub_48_of_lt_ten hn)
    · obtain ⟨d, ds, hd, h0⟩ := ih (n / 10) (by omega) (by omega)
      refine ⟨d, ds ++ [(Nat.digitChar (n % 10)).toNat - '0'.toNat], ?_, h0⟩
      rw [digitsOf] at hd
      rw [digitsOf, Nat.toDigits_of_base_le (by decide) (by omega), List.map_append, hd]
      rfl

theorem scanWhole_toDigits (n : Nat) : scanWhole (Nat.toDigits 10 n) = .ok (digitsOf n) := by
  rw [scanWhole, someDigits, leadingDigits_toDigits]
  by_cases h : n = 0
  · subst h
    rfl
  · obtain ⟨d, ds, hd, h0⟩ := exists_digitsOf h
    rw [hd]
    simp only [bind, Except.bind]
    split
    · rename_i heq
      exact (h0 (List.cons.inj heq).1).elim
    · rfl

theorem scan_toDigits (negative : Bool) (n : Nat) :
    scan negative (Nat.toDigits 10 n) = .ok (⟨negative, digitsOf n, [], none⟩, []) := by
  rw [scan, scanWhole_toDigits, afterDigits_toDigits]
  rfl

theorem value_ofNat {n : Nat} (h : n < UInt64.size) : (ofNat n).value = .ok (.integer n) := by
  simp [value, isInteger, ofNat, digitsValue_digitsOf, h]

end Numeral

def signed (negative : Bool) (s : List Char) : List Char := if negative then '-' :: s else s

theorem firstToken_of_isDigit {c : Char} (h : c.isDigit) (s : List Char) :
    firstToken c s = firstToken.number false (c :: s) := by
  unfold firstToken
  split
  case h_12 => rw [if_pos h]
  all_goals exact absurd h (by decide)

theorem isSpace_of_isDigit {c : Char} (h : c.isDigit) : isSpace c = false := by
  rw [Bool.eq_false_iff]
  intro hs
  simp only [isSpace, Bool.or_eq_true, beq_iff_eq] at hs
  rcases hs with ((rfl | rfl) | rfl) | rfl <;> exact absurd h (by decide)

theorem tokens_signed (negative : Bool) {c : Char} (h : c.isDigit) (s : List Char) :
    tokens (signed negative (c :: s)) =
      (firstToken.number negative (c :: s)).1 ::
        tokens (firstToken.number negative (c :: s)).2 := by
  cases negative with
  | true => exact tokens_cons rfl (c :: s)
  | false =>
    rw [signed, if_neg Bool.false_ne_true, tokens_cons (isSpace_of_isDigit h),
      firstToken_of_isDigit h]

/-- A numeral is read as one token in front of any text that does not go on with it. -/
theorem tokens_signed_append {negative : Bool} {c : Char} {s rest tail : List Char} {n : Numeral}
    (hc : c.isDigit) (hs : Numeral.scan negative (c :: s) = .ok (n, rest)) (h : Stops tail) :
    tokens (signed negative (c :: s) ++ tail) = .scalar (.number n) :: tokens (rest ++ tail) := by
  have happend : signed negative (c :: s) ++ tail = signed negative (c :: (s ++ tail)) := by
    cases negative <;> rfl
  have hnumber : firstToken.number negative (c :: (s ++ tail)) =
      (.scalar (.number n), rest ++ tail) := by
    rw [firstToken.number, ← List.cons_append, Numeral.scan_append h hs]
  rw [happend, tokens_signed negative hc, hnumber]

theorem tokens_toString (n : Nat) {rest : List Char} (h : Stops rest) :
    tokens ((toString n).toList ++ rest) = .scalar (.number (.ofNat n)) :: tokens rest := by
  have hscan := Numeral.scan_toDigits false n
  rw [Nat.toString_eq_repr, Nat.toList_repr]
  cases hd : Nat.toDigits 10 n with
  | nil => exact (Nat.toDigits_ne_nil hd).elim
  | cons c s =>
    have hc : c.isDigit := Numeral.isDigit_of_mem_toDigits (n := n) (by simp [hd])
    rw [hd] at hscan
    exact tokens_signed_append hc hscan h

/-! ## Words -/

theorem tokens_null (rest : List Char) :
    tokens (Value.null.compact.toList ++ rest) = .scalar .null :: tokens rest :=
  tokens_cons rfl _

theorem tokens_boolean (b : Bool) (rest : List Char) :
    tokens ((Value.boolean b).compact.toList ++ rest) = .scalar (.boolean b) :: tokens rest := by
  cases b <;> exact tokens_cons rfl _

/-! ## Documents of one token -/

theorem foldl_step_stopped (d : Document) (ts : List Token) :
    ts.foldl State.step (.stopped d) = .stopped d := by
  induction ts with
  | nil => rfl
  | cons t ts ih => exact ih

theorem ofTokens_scalar (s : Scalar) (ts : List Token) :
    Document.ofTokens (.scalar s :: ts) = ⟨.scalar s, !ts.isEmpty⟩ := by
  cases ts with
  | nil => rfl
  | cons t ts =>
    show (ts.foldl State.step (.stopped ⟨.scalar s, true⟩)).finish = _
    rw [foldl_step_stopped]
    rfl

theorem real_eq_ok {scope : Scope} {s : Scalar} {x : Float}
    (h : Reader.real scope (.scalar s) = .ok x) :
    ∃ n : Numeral, s = .number n ∧ n.value.map Number.toFloat = .ok x := by
  cases s with
  | number n => exact ⟨n, rfl, h⟩
  | _ =>
    obtain ⟨f, -, hf⟩ := bind_eq_ok.1 h
    cases hf

end LadderDiagram.Json
