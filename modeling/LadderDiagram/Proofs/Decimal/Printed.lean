import LadderDiagram.Proofs.Decimal.Rounding
import LadderDiagram.Proofs.Snapshot.Lexing

/-!
# Printed numbers are numerals

The digits of a decimal, laid out around a point or with an exponent, are scanned as one numeral
that stands for the decimal (`scans_layOut`). So every number is printed as one token, and a reader
that takes the number nearest to a numeral finds every finite number again (`exists_numeral`).
-/

namespace LadderDiagram.Json

open Decimal

theorem digitsValue_foldl (digits : List Nat) (acc : Nat) :
    digits.foldl (fun acc d => acc * 10 + d) acc =
      acc * 10 ^ digits.length + digitsValue digits := by
  induction digits generalizing acc with
  | nil => simp [digitsValue]
  | cons d digits ih =>
    rw [digitsValue, List.foldl_cons, List.foldl_cons, ih, ih, List.length_cons, pow_succ']
    ring

theorem digitsValue_append (ds ds' : List Nat) :
    digitsValue (ds ++ ds') = digitsValue ds * 10 ^ ds'.length + digitsValue ds' := by
  rw [← digitsValue_foldl, digitsValue, List.foldl_append]
  rfl

theorem digitsValue_replicate_zero (k : Nat) : digitsValue (List.replicate k 0) = 0 := by
  induction k with
  | zero => rfl
  | succ k ih => exact ih

theorem digitsValue_zero_cons (ds : List Nat) : digitsValue (0 :: ds) = digitsValue ds := rfl

namespace Numeral

/-! ## Scanning -/

def digitValues (cs : List Char) : List Nat := cs.map fun c => c.toNat - '0'.toNat

def spellFraction (cs : List Char) : List Char := if cs = [] then [] else '.' :: cs

/-- The digits of an exponent with their sign, if there is an exponent. -/
def spellExponent : Option (Bool × List Char) → List Char
  | none => []
  | some (negative, cs) => 'e' :: (if negative then '-' else '+') :: cs

/-- The text of a numeral with these digits. -/
def spell (whole fraction : List Char) (exponent : Option (Bool × List Char)) : List Char :=
  whole ++ (spellFraction fraction ++ spellExponent exponent)

section
variable {cs tail : List Char} (hcs : ∀ c ∈ cs, c.isDigit)
include hcs

theorem leadingDigits_of_digits (ht : EndsDigits tail) :
    leadingDigits (cs ++ tail) = digitValues cs := by
  rw [leadingDigits_append ht, leadingDigits, digitValues,
    List.takeWhile_eq_self_iff.2 hcs]

theorem afterDigits_of_digits (ht : EndsDigits tail) : afterDigits (cs ++ tail) = tail := by
  rw [afterDigits_append ht, afterDigits, List.dropWhile_eq_nil_iff.2 hcs, List.nil_append]

theorem someDigits_of_digits (hne : cs ≠ []) (ht : EndsDigits tail) :
    someDigits (cs ++ tail) = .ok (digitValues cs) := by
  rw [someDigits, leadingDigits_of_digits hcs ht]
  cases cs with
  | nil => exact (hne rfl).elim
  | cons c cs => rfl

end

theorem endsDigits_nil : EndsDigits [] := nofun

theorem scanExponent_spell {exponent : Option (Bool × List Char)}
    (he : ∀ e ∈ exponent, e.2 ≠ [] ∧ ∀ c ∈ e.2, c.isDigit) :
    scanExponent (spellExponent exponent) =
      .ok (exponent.map fun e => (e.1, digitValues e.2), []) := by
  cases exponent with
  | none => rfl
  | some e =>
    obtain ⟨negative, cs⟩ := e
    obtain ⟨hne, hcs⟩ := he _ rfl
    have hsome := someDigits_of_digits hcs hne endsDigits_nil
    have hafter := afterDigits_of_digits hcs endsDigits_nil
    rw [List.append_nil] at hsome hafter
    have hsign : scanSign ((if negative then '-' else '+') :: cs) = (negative, cs) := by
      cases negative <;> rfl
    rw [spellExponent, scanExponent, if_pos (.inl rfl), hsign]
    simp only [hsome, hafter]
    rfl

theorem head?_spellExponent (exponent : Option (Bool × List Char)) :
    ∀ c ∈ (spellExponent exponent).head?, c = 'e' := by
  cases exponent with
  | none => exact fun _ hc => (Option.not_mem_none _ hc).elim
  | some e => exact fun c hc => (Option.some.inj hc).symm

theorem endsDigits_spellExponent (exponent : Option (Bool × List Char)) :
    EndsDigits (spellExponent exponent) := by
  intro c hc
  rw [head?_spellExponent exponent c hc]
  rfl

theorem endsDigits_spellFraction (fraction : List Char) {rest : List Char} (h : EndsDigits rest) :
    EndsDigits (spellFraction fraction ++ rest) := by
  rw [spellFraction]
  split
  · exact h
  · rintro c ⟨⟩
    rfl

theorem scanFraction_spell {fraction : List Char} (hf : ∀ c ∈ fraction, c.isDigit)
    (exponent : Option (Bool × List Char)) :
    scanFraction (spellFraction fraction ++ spellExponent exponent) =
      .ok (digitValues fraction, spellExponent exponent) := by
  have hends := endsDigits_spellExponent exponent
  rw [spellFraction]
  split
  · rename_i hnil
    subst hnil
    rw [List.nil_append, scanFraction]
    · rfl
    · intro rest hrest
      have hdot := head?_spellExponent exponent '.' (by rw [hrest]; rfl)
      exact absurd hdot (by decide)
  · rename_i hne
    rw [List.cons_append, scanFraction, someDigits_of_digits hf hne hends,
      afterDigits_of_digits hf hends]
    rfl

theorem scan_spell (negative : Bool) {whole fraction : List Char}
    {exponent : Option (Bool × List Char)} (hwhole : scanWhole whole = .ok (digitValues whole))
    (hw : ∀ c ∈ whole, c.isDigit) (hf : ∀ c ∈ fraction, c.isDigit)
    (he : ∀ e ∈ exponent, e.2 ≠ [] ∧ ∀ c ∈ e.2, c.isDigit) :
    scan negative (spell whole fraction exponent) =
      .ok (⟨negative, digitValues whole, digitValues fraction,
        exponent.map fun e => (e.1, digitValues e.2)⟩, []) := by
  have hends := endsDigits_spellFraction fraction (endsDigits_spellExponent exponent)
  rw [scan, spell, scanWhole_append hends hwhole, afterDigits_of_digits hw hends]
  simp only [bind, Except.bind, scanFraction_spell hf, scanExponent_spell he]
  rfl

theorem exists_cons_of_scan {negative : Bool} {s rest : List Char} {n : Numeral}
    (h : scan negative s = .ok (n, rest)) : ∃ c t, s = c :: t ∧ c.isDigit := by
  obtain ⟨whole, hwhole, -⟩ := bind_eq_ok.1 h
  obtain ⟨digits, hdigits, -⟩ := bind_eq_ok.1 hwhole
  cases s with
  | nil => cases hdigits
  | cons c t =>
    refine ⟨c, t, rfl, ?_⟩
    by_contra hc
    rw [someDigits, leadingDigits, List.takeWhile_cons_of_neg hc] at hdigits
    cases hdigits

/-! ## What numerals stand for -/

def exponentValue : Option (Bool × List Nat) → ℤ
  | none => 0
  | some (negative, digits) => if negative then -digitsValue digits else digitsValue digits

def power (n : Numeral) : ℤ := exponentValue n.exponent - n.fraction.length

/-- The rational that the digits and the exponent spell. The sign is left out. -/
def rational (n : Numeral) : ℚ := digitsValue (n.whole ++ n.fraction) * 10 ^ n.power

end Numeral

/-- The text is scanned as a numeral that stands for the rational, with either sign. -/
def Scans (s : List Char) (v : ℚ) : Prop :=
  ∀ negative, ∃ n : Numeral, Numeral.scan negative s = .ok (n, []) ∧ n.negative = negative ∧
    n.rational = v

/-! ## Digits laid out -/

open Numeral

theorem scanWhole_cons {c : Char} {cs : List Char} (hcs : ∀ d ∈ c :: cs, d.isDigit)
    (hc : c.toNat - '0'.toNat ≠ 0) : scanWhole (c :: cs) = .ok (digitValues (c :: cs)) := by
  have hsome := someDigits_of_digits hcs (List.cons_ne_nil c cs) endsDigits_nil
  rw [List.append_nil] at hsome
  rw [scanWhole, hsome]
  simp only [bind, Except.bind, digitValues, List.map_cons]
  split
  · rename_i heq
    exact (hc (List.cons.inj heq).1).elim
  · rfl

/-- A spelled numeral stands for a decimal that its digits make, with zeros behind them or
without. -/
theorem scans_spell {whole fraction : List Char} {exponent : Option (Bool × List Char)}
    {d : Scientific} (hwhole : scanWhole whole = .ok (digitValues whole))
    (hall : ∀ c ∈ whole ++ fraction, c.isDigit)
    (he : ∀ e ∈ exponent, e.2 ≠ [] ∧ ∀ c ∈ e.2, c.isDigit) (zeros : Nat)
    (hdigits : digitsValue (digitValues (whole ++ fraction)) = d.digits * 10 ^ zeros)
    (hpower : exponentValue (exponent.map fun e => (e.1, digitValues e.2)) - fraction.length +
      zeros = d.exponent) : Scans (spell whole fraction exponent) d.value := by
  obtain ⟨hw, hf⟩ := List.forall_mem_append.1 hall
  refine fun negative => ⟨_, scan_spell negative hwhole hw hf he, rfl, ?_⟩
  have hlast : (power ⟨negative, digitValues whole, digitValues fraction,
      exponent.map fun e => (e.1, digitValues e.2)⟩) + zeros = d.exponent := by
    rw [← hpower]
    simp [power, digitValues]
  have hjoin : digitValues whole ++ digitValues fraction = digitValues (whole ++ fraction) :=
    List.map_append.symm
  rw [rational, hjoin, hdigits, Scientific.value, ← hlast, zpow_add₀ (by norm_num), zpow_natCast]
  push_cast
  ring

theorem exists_toDigits {n : Nat} (h : n ≠ 0) :
    ∃ c cs, Nat.toDigits 10 n = c :: cs ∧ c.toNat - '0'.toNat ≠ 0 := by
  obtain ⟨d, ds, hd, h0⟩ := exists_digitsOf h
  cases hn : Nat.toDigits 10 n with
  | nil => exact (Nat.toDigits_ne_nil hn).elim
  | cons c cs =>
    rw [digitsOf, hn] at hd
    exact ⟨c, cs, rfl, fun h0' => h0 ((List.cons.inj hd).1.symm.trans h0')⟩

theorem isDigit_of_mem_replicate {c : Char} {k : Nat} (h : c ∈ List.replicate k '0') :
    c.isDigit := by
  rw [List.eq_of_mem_replicate h]
  rfl

theorem digitValues_append (cs cs' : List Char) :
    digitValues (cs ++ cs') = digitValues cs ++ digitValues cs' := List.map_append

theorem digitValues_zeros (k : Nat) : digitValues (List.replicate k '0') = List.replicate k 0 :=
  List.map_replicate

theorem spell_point {whole fraction : List Char} (h : fraction ≠ []) :
    spell whole fraction none = whole ++ '.' :: fraction := by
  simp [spell, spellFraction, spellExponent, h]

section
variable {c : Char} {cs : List Char} {d : Scientific} (hall : ∀ a ∈ c :: cs, a.isDigit)
  (hvalue : digitsValue (digitValues (c :: cs)) = d.digits)
include hall hvalue

/-- Zeros stand between the point and the digits. -/
theorem scans_small {zeros : Nat} (h : d.exponent + (cs.length + 1) = -zeros) :
    Scans ('0' :: '.' :: List.replicate zeros '0' ++ c :: cs) d.value := by
  rw [List.cons_append, List.cons_append, ← List.singleton_append, ← spell_point (by simp)]
  refine scans_spell rfl ?_ nofun 0 ?_ ?_
  · simp only [List.forall_mem_append, List.forall_mem_singleton]
    exact ⟨rfl, fun _ => isDigit_of_mem_replicate, hall⟩
  · rw [← hvalue, digitValues_append, digitValues_append, digitValues_zeros, ← List.append_assoc,
      digitsValue_append]
    simp [digitValues, digitsValue_zero_cons, digitsValue_replicate_zero]
  · simp [exponentValue]
    omega

variable (hc : c.toNat - '0'.toNat ≠ 0)
include hc

/-- Zeros stand between the digits and the point, and one behind it. -/
theorem scans_whole {zeros : Nat} (h : d.exponent = zeros) :
    Scans (c :: cs ++ List.replicate zeros '0' ++ ['.', '0']) d.value := by
  have hwhole : ∀ a ∈ c :: (cs ++ List.replicate zeros '0'), a.isDigit := by
    rw [← List.cons_append]
    exact List.forall_mem_append.2 ⟨hall, fun _ => isDigit_of_mem_replicate⟩
  rw [← spell_point (by simp), List.cons_append]
  refine scans_spell (scanWhole_cons hwhole hc) ?_ nofun (zeros + 1) ?_ ?_
  · exact List.forall_mem_append.2 ⟨hwhole, by simp⟩
  · rw [← hvalue, ← List.cons_append, digitValues_append, digitValues_append, digitValues_zeros,
      digitsValue_append, digitsValue_append, digitsValue_replicate_zero, pow_succ]
    simp [digitValues, digitsValue, mul_assoc]
  · simp [exponentValue]
    omega

/-- The point stands between digits. -/
theorem scans_point {k : Nat} (hk : k < cs.length) (h : d.exponent + cs.length = k) :
    Scans (c :: cs.take k ++ '.' :: cs.drop k) d.value := by
  have hsplit : c :: cs.take k ++ cs.drop k = c :: cs := by
    rw [List.cons_append, List.take_append_drop]
  rw [← spell_point (by simpa using hk)]
  refine scans_spell (scanWhole_cons ?_ hc) ?_ nofun 0 ?_ ?_
  · exact fun a ha => hall a (hsplit ▸ List.mem_append_left _ ha)
  · rwa [hsplit]
  · rw [hsplit, hvalue, pow_zero, mul_one]
  · rw [List.length_drop]
    simp [exponentValue]
    omega

/-- One digit stands before the point, and the place of that digit in the exponent. -/
theorem scans_exponent {lead : ℤ} (h : d.exponent + cs.length = lead) :
    Scans (spell [c] cs (some (decide (lead < 0), Nat.toDigits 10 lead.natAbs))) d.value := by
  have habs : digitsValue (digitValues (Nat.toDigits 10 lead.natAbs)) = lead.natAbs :=
    digitsValue_digitsOf _
  refine scans_spell (scanWhole_cons ?_ hc) ?_ ?_ 0 ?_ ?_
  · exact List.forall_mem_singleton.2 (hall c List.mem_cons_self)
  · exact hall
  · rintro e ⟨⟩
    exact ⟨Nat.toDigits_ne_nil, fun _ => isDigit_of_mem_toDigits⟩
  · rw [List.singleton_append, hvalue, pow_zero, mul_one]
  · simp only [Option.map_some, exponentValue, habs, decide_eq_true_eq]
    split <;> omega

end

/-- A decimal is laid out as a numeral that stands for it. -/
theorem scans_layOut {d : Scientific} (hd : d.digits ≠ 0) :
    Scans (Format.data.layOut d) d.value := by
  obtain ⟨c, cs, hdigits, hc⟩ := exists_toDigits hd
  have hall : ∀ a ∈ c :: cs, a.isDigit := by
    rw [← hdigits]
    exact fun a ha => isDigit_of_mem_toDigits ha
  have hvalue : digitsValue (digitValues (c :: cs)) = d.digits := by
    rw [← hdigits]
    exact digitsValue_digitsOf d.digits
  rw [Format.layOut, hdigits]
  generalize hlead : d.exponent + ((c :: cs).length : ℤ) - 1 = lead
  rw [List.length_cons] at hlead
  push_cast at hlead
  dsimp only
  split
  · split
    · exact scans_small hall hvalue (by omega)
    · split
      · rename_i hdrop
        rw [List.drop_eq_nil_iff] at hdrop
        rw [List.take_of_length_le hdrop]
        rw [List.length_cons] at hdrop ⊢
        exact scans_whole hall hvalue hc (by omega)
      · rename_i hdrop
        replace hdrop : lead.toNat < cs.length := by simpa using hdrop
        have hnone : lead.toNat + 1 - (c :: cs).length = 0 := by
          rw [List.length_cons]
          omega
        rw [hnone, List.replicate_zero, List.append_nil, List.take_succ_cons, List.drop_succ_cons]
        exact scans_point hall hvalue hc hdrop (by omega)
  · have hlast : d.exponent + cs.length = lead := by omega
    have h := scans_exponent hall hvalue hc hlast
    cases cs <;> simpa [spell, spellFraction, spellExponent] using h

/-! ## Numerals read to the nearest number -/

section
open Float.Model.UnpackedFloat

/-- Only numbers that are not finite have an exponent field that is full. -/
theorem toNat_toBits_lt {x : Float} (h : x.isFinite) :
    x.toBits.toNat % 2 ^ 63 < Binary.infinity := by
  rw [Binary.infinity]
  by_contra hge
  have hlt := x.toBits.toNat_lt
  have hfield : @unpackExponent .binary64 x.toBits.toBitVec = -1#11 := by
    apply BitVec.eq_of_toNat_eq
    show (BitVec.extractLsb 62 52 x.toBits.toBitVec).toNat = 2047
    rw [BitVec.extractLsb_toNat]
    show x.toBits.toNat >>> 52 % 2 ^ 11 = 2047
    rw [Nat.shiftRight_eq_div_pow]
    omega
  have hunpack : (unpack .binary64 x.toBits.toBitVec).isFinite = true := h
  rw [unpack] at hunpack
  simp only at hunpack
  rw [if_pos hfield] at hunpack
  split at hunpack <;> cases hunpack

end

/-- The number that is nearest to what a numeral stands for. -/
def Numeral.nearest (n : Numeral) : Float :=
  .ofBits (.ofNat ((if n.negative then 2 ^ 63 else 0) + Binary.nearest n.rational))

theorem nearest_eq_of_rounds {n : Numeral} {x : Float} (h : x.isFinite)
    (hsign : n.negative = decide (x.toBits >>> 63 = 1))
    (hrounds : (Binary.ofBits x.toBits).Rounds n.rational) : n.nearest = x := by
  rw [Binary.ofBits_eq] at hrounds
  have hlt := x.toBits.toNat_lt
  have hshift : x.toBits >>> 63 = 1 ↔ x.toBits.toNat / 2 ^ 63 = 1 := by
    rw [← UInt64.toNat_inj, UInt64.toNat_shiftRight]
    show x.toBits.toNat >>> 63 = 1 ↔ _
    rw [Nat.shiftRight_eq_div_pow]
  have hbits : (if n.negative then 2 ^ 63 else 0) + x.toBits.toNat % 2 ^ 63 = x.toBits.toNat := by
    rw [hsign]
    by_cases hneg : x.toBits >>> 63 = 1
    · rw [decide_eq_true hneg, if_pos rfl]
      have := hshift.1 hneg
      omega
    · rw [decide_eq_false hneg, if_neg Bool.false_ne_true]
      have := mt hshift.2 hneg
      omega
  rw [Numeral.nearest, Binary.nearest_eq (toNat_toBits_lt h).le hrounds, hbits, UInt64.ofNat_toNat,
    Float.ofBits_toBits]

/-! ## Written numbers -/

/-- The magnitude of a number is written as a numeral, which stands for a rational that rounds to
it. -/
theorem exists_scans_magnitude (bits : UInt64) :
    ∃ v, Scans (Format.data.magnitude bits) v ∧ (Binary.ofBits bits).Rounds v := by
  unfold Format.magnitude
  dsimp only
  split
  · rename_i hzero
    have hrounds := (Binary.ofBits bits).rounds_exact
    rw [Binary.value_exact, hzero, Nat.cast_zero, zero_mul] at hrounds
    refine ⟨0, fun negative => ⟨_, rfl, rfl, ?_⟩, hrounds⟩
    exact (congrArg (· * _) Nat.cast_zero).trans (zero_mul _)
  · rename_i hne
    exact ⟨_, scans_layOut (Binary.digits_shortest_ne_zero _ hne), Binary.rounds_shortest _ hne⟩

theorem isNaN_eq_false_of_isFinite {u : Float.Model.UnpackedFloat} (h : u.isFinite) :
    u.isNaN = false ∧ u.isInf = false := by
  cases u <;> first | exact ⟨rfl, rfl⟩ | cases h

theorem toList_writeReal_of_isFinite {x : Float} (h : x.isFinite) :
    (writeReal x).toList =
      signed (decide (x.toBits >>> 63 = 1)) (Format.data.magnitude x.toBits) := by
  obtain ⟨hnan, hinf⟩ := isNaN_eq_false_of_isFinite (u := x.toModel.unpack) h
  have hnan : ¬ x.isNaN := ne_true_of_eq_false hnan
  have hinf : ¬ x.isInf := ne_true_of_eq_false hinf
  rw [writeReal, if_pos h, Format.render, if_neg hnan]
  simp only
  rw [if_neg hinf]
  by_cases hsign : x.toBits >>> 63 = 1 <;> simp [hsign, signed]

/-- A finite number is written as a numeral to which it is the nearest number. -/
theorem exists_numeral {x : Float} (h : x.isFinite) :
    ∃ n : Numeral, n.nearest = x ∧ ∀ tail, Stops tail →
      tokens ((writeReal x).toList ++ tail) = .scalar (.number n) :: tokens tail := by
  obtain ⟨v, hscans, hrounds⟩ := exists_scans_magnitude x.toBits
  obtain ⟨n, hscan, hsign, hvalue⟩ := hscans (decide (x.toBits >>> 63 = 1))
  obtain ⟨c, s, hcons, hc⟩ := exists_cons_of_scan hscan
  refine ⟨n, nearest_eq_of_rounds h hsign (hvalue ▸ hrounds), fun tail ht => ?_⟩
  rw [hcons] at hscan
  rw [toList_writeReal_of_isFinite h, hcons, tokens_signed_append hc hscan ht, List.nil_append]

theorem exists_scalar (x : Float) :
    ∃ s : Scalar, ∀ tail, Stops tail →
      tokens ((writeReal x).toList ++ tail) = .scalar s :: tokens tail := by
  by_cases h : x.isFinite
  · obtain ⟨n, -, htokens⟩ := exists_numeral h
    exact ⟨_, htokens⟩
  · refine ⟨.null, fun tail _ => ?_⟩
    rw [writeReal, if_neg h]
    exact tokens_null tail

end LadderDiagram.Json
