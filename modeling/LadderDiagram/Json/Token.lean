import LadderDiagram.Json.Quoted
import LadderDiagram.Json.Numeral

/-!
# Tokens of a document

`tokens` cuts a text into punctuation and scalars and drops the white space
between them. A scalar that is not well formed, and a character that begins no
token, end the list: what stands behind them is never looked at.
-/

namespace LadderDiagram.Json

/-- A value without parts, as it is written. -/
inductive Scalar where
  | null
  | boolean (b : Bool)
  /-- The beginning of a word, which the text then does not spell. -/
  | badWord (broken : Broken)
  | number (n : Numeral)
  | badNumber (broken : Broken)
  | text (q : Quoted)
  deriving DecidableEq, Repr

inductive Token where
  | listOpen
  | listClose
  | objectOpen
  | objectClose
  | comma
  | colon
  | scalar (s : Scalar)
  /-- A character that begins no token. -/
  | stray
  deriving DecidableEq, Repr

def isSpace (c : Char) : Bool := c == ' ' || c == '\n' || c == '\t' || c == '\r'

/-- Drops the letters of `word` from the front of a text that spells it. -/
def afterWord : (word : List Char) → List Char → Except Broken (List Char)
  | [], s => .ok s
  | _ :: _, [] => .error ⟨true⟩
  | w :: word, c :: s => if w = c then afterWord word s else .error ⟨false⟩

theorem length_afterWord {word s rest : List Char} (h : afterWord word s = .ok rest) :
    rest.length ≤ s.length := by
  induction word generalizing s with
  | nil => cases h; exact Nat.le_refl _
  | cons w word ih =>
    cases s with
    | nil => cases h
    | cons c s =>
      simp only [afterWord] at h
      split at h
      · exact Nat.le_succ_of_le (ih h)
      · cases h

theorem Quoted.length_scan (s : List Char) : (Quoted.scan s).2.length ≤ s.length := by
  fun_induction Quoted.scan s <;> simp_all [Quoted.cons] <;> omega

theorem Numeral.length_afterDigits {s : List Char} {digits : List Nat}
    (h : Numeral.someDigits s = .ok digits) : (afterDigits s).length < s.length := by
  have split : (s.takeWhile Char.isDigit).length + (afterDigits s).length = s.length := by
    rw [← List.length_append, afterDigits, List.takeWhile_append_dropWhile]
  have pos : s.takeWhile Char.isDigit ≠ [] := by
    intro e
    simp [Numeral.someDigits, leadingDigits, e] at h
  have := List.length_pos_iff.2 pos
  omega

theorem Numeral.length_scanFraction {s rest : List Char} {digits : List Nat}
    (h : Numeral.scanFraction s = .ok (digits, rest)) : rest.length ≤ s.length := by
  unfold Numeral.scanFraction at h
  split at h
  · rename_i t
    cases ht : Numeral.someDigits t with
    | error e => simp [ht, bind, Except.bind] at h
    | ok ds =>
      simp only [ht, bind, Except.bind, pure, Except.pure, Except.ok.injEq, Prod.mk.injEq] at h
      have := Numeral.length_afterDigits ht
      rw [← h.2]
      exact Nat.le_succ_of_le (Nat.le_of_lt this)
  · cases h; exact Nat.le_refl _

theorem Numeral.length_scanSign (s : List Char) : (Numeral.scanSign s).2.length ≤ s.length := by
  unfold Numeral.scanSign
  split <;> simp

theorem Numeral.length_scanExponent {s rest : List Char} {e : Option (Bool × List Nat)}
    (h : Numeral.scanExponent s = .ok (e, rest)) : rest.length ≤ s.length := by
  unfold Numeral.scanExponent at h
  split at h
  · rename_i c t
    split at h
    · have sign := Numeral.length_scanSign t
      cases ht : Numeral.someDigits (Numeral.scanSign t).2 with
      | error e => simp [ht, bind, Except.bind] at h
      | ok ds =>
        simp only [ht, bind, Except.bind, pure, Except.pure, Except.ok.injEq, Prod.mk.injEq] at h
        have := Numeral.length_afterDigits ht
        rw [← h.2, List.length_cons]
        omega
    · cases h; exact Nat.le_refl _
  · cases h; exact Nat.le_refl _

theorem Numeral.length_scan {negative : Bool} {s rest : List Char} {n : Numeral}
    (h : Numeral.scan negative s = .ok (n, rest)) : rest.length < s.length := by
  simp only [Numeral.scan, bind, Except.bind, pure, Except.pure] at h
  cases hw : Numeral.scanWhole s with
  | error e => simp [hw] at h
  | ok whole =>
    rw [hw] at h
    simp only at h
    have first : (afterDigits s).length < s.length := by
      cases hd : Numeral.someDigits s with
      | error e => simp [Numeral.scanWhole, hd, bind, Except.bind] at hw
      | ok ds => exact Numeral.length_afterDigits hd
    cases hf : Numeral.scanFraction (afterDigits s) with
    | error e => simp [hf] at h
    | ok f =>
      rw [hf] at h
      simp only at h
      have second : f.2.length ≤ (afterDigits s).length := Numeral.length_scanFraction hf
      cases he : Numeral.scanExponent f.2 with
      | error e => simp [he] at h
      | ok e =>
        rw [he] at h
        simp only [Except.ok.injEq, Prod.mk.injEq] at h
        have third : e.2.length ≤ f.2.length := Numeral.length_scanExponent he
        rw [← h.2]
        omega

/-- What ends the list of tokens after a string that is not closed. -/
def Quoted.rest (scanned : Quoted × List Char) : List Char :=
  if scanned.1.ending = .closed then scanned.2 else []

/-- The first token of a text that begins with no white space, and what follows it. -/
def firstToken (c : Char) (s : List Char) : Token × List Char :=
  match c with
  | '[' => (.listOpen, s)
  | ']' => (.listClose, s)
  | '\x7b' => (.objectOpen, s)
  | '\x7d' => (.objectClose, s)
  | ',' => (.comma, s)
  | ':' => (.colon, s)
  | '"' => (.scalar (.text (Quoted.scan s).1), Quoted.rest (Quoted.scan s))
  | 'n' => word .null "ull"
  | 't' => word (.boolean true) "rue"
  | 'f' => word (.boolean false) "alse"
  | '-' => number true s
  | c => if c.isDigit then number false (c :: s) else (.stray, [])
where
  word (meaning : Scalar) (rest : String) : Token × List Char :=
    match afterWord rest.toList s with
    | .ok s => (.scalar meaning, s)
    | .error broken => (.scalar (.badWord broken), [])
  number (negative : Bool) (s : List Char) : Token × List Char :=
    match Numeral.scan negative s with
    | .ok (n, s) => (.scalar (.number n), s)
    | .error broken => (.scalar (.badNumber broken), [])

theorem length_firstToken (c : Char) (s : List Char) : (firstToken c s).2.length ≤ s.length := by
  have word (meaning : Scalar) (rest : String) :
      (firstToken.word s meaning rest).2.length ≤ s.length := by
    unfold firstToken.word
    split
    · rename_i h; exact length_afterWord h
    · exact Nat.zero_le _
  have number (negative : Bool) (t : List Char) (ht : t.length ≤ s.length + 1) :
      (firstToken.number negative t).2.length ≤ s.length := by
    unfold firstToken.number
    split
    · rename_i h
      exact Nat.le_of_lt_succ (Nat.lt_of_lt_of_le (Numeral.length_scan h) ht)
    · exact Nat.zero_le _
  unfold firstToken
  split
  case h_7 =>
    have := Quoted.length_scan s
    unfold Quoted.rest
    split
    · exact this
    · exact Nat.zero_le _
  case h_12 =>
    split
    · exact number _ _ (by simp)
    · exact Nat.zero_le _
  all_goals first | exact Nat.le_refl _ | exact word _ _ | exact number _ _ (by omega)

def tokens : List Char → List Token
  | [] => []
  | c :: s =>
    if isSpace c then tokens s
    else (firstToken c s).1 :: tokens (firstToken c s).2
termination_by s => s.length
decreasing_by
  · simp
  · have := length_firstToken c s; simp; omega

end LadderDiagram.Json
