import LadderDiagram.Proofs.Decimal.Printed
import LadderDiagram.Proofs.Snapshot.Binary64

/-!
# Whole numbers are read back

A whole number is written as its decimal digits and `.0` (`toList_writeReal`): of the decimals that
round to it, those without a fraction are the number itself, so the shortest digits are its own,
less zeros at the end, which are filled in again. The text is read as ten times the
number divided by ten. Both are whole if there is room for one more digit, and then the quotient is
exact (`readsBack_ofInt`).
-/

namespace LadderDiagram

open Float.Model.UnpackedFloat (Sign)

namespace Decimal

/-! ## Shortest digits -/

namespace Binary

/-- Multiples of a unit of four or more are further apart than that. -/
theorem eq_of_near {a n unit : Nat} (hunit : 4 ≤ unit) (hlow : n * unit ≤ a * unit + 2)
    (hhigh : a * unit ≤ n * unit + 2) : a = n := by
  rcases Nat.lt_trichotomy a n with h | h | h
  · have hstep := Nat.mul_le_mul_right unit h
    rw [Nat.succ_mul] at hstep
    omega
  · exact h
  · have hstep := Nat.mul_le_mul_right unit h
    rw [Nat.succ_mul] at hstep
    omega

theorem tenTo_neg_natCast (k : Nat) : tenTo (-(k : Int)).toNat = 1 := by
  rw [show (-(k : Int)).toNat = 0 by omega]
  rfl

/-- The unit in which a whole number is compared with its halfway points. -/
def unit (n : Nat) : Nat := 4 * 2 ^ (52 - n.log2)

theorem four_le_unit (n : Nat) : 4 ≤ unit n := Nat.le_mul_of_pos_right 4 (Nat.two_pow_pos _)

theorem four_mul_significand (n : Nat) : 4 * significand n = n * unit n := by
  rw [significand, unit]
  ac_rfl

section
variable {n : Nat} (h : 0 < n) (hn : n < 2 ^ 53) (narrow : Bool)
include h hn

theorem scale_whole : scale ⟨significand n, Decimal.exponent n, narrow⟩ = (1, unit n) := by
  have hlog := log2_lt h hn
  have hlow : (Decimal.exponent n - 2).toNat = 0 := by
    rw [Decimal.exponent]
    omega
  have hhigh : (2 - Decimal.exponent n).toNat = 2 + (52 - n.log2) := by
    rw [Decimal.exponent]
    omega
  rw [scale, hlow, hhigh, Nat.one_shiftLeft, Nat.one_shiftLeft, Nat.pow_add]
  rfl

/-- Only the number itself, of all whole numbers, rounds to it. -/
theorem readsBack_iff (c k : Nat) :
    readsBack ⟨significand n, Decimal.exponent n, narrow⟩ c k = true ↔ c * 10 ^ k = n := by
  have hunit := four_le_unit n
  have hlarge := Nat.mul_le_mul_left n hunit
  have hgrid : c * (unit n * tenTo k) = c * 10 ^ k * unit n := by
    show c * (_ * 10 ^ k) = _
    ac_rfl
  rw [readsBack, scale_whole h hn narrow]
  simp only [tenTo_neg_natCast, Int.toNat_natCast, four_mul_significand, hgrid, Nat.mul_one]
  generalize hlow : (if narrow = true then n * unit n - 1 else n * unit n - 2) = low
  have hbounds : n * unit n - 2 ≤ low ∧ low < n * unit n := by
    rw [← hlow]
    split <;> omega
  -- The end points of the interval are no whole numbers: it does not matter if they belong to it.
  split
  · simp only [Bool.and_eq_true, decide_eq_true_eq]
    refine ⟨fun hnear => eq_of_near hunit (by omega) (by omega), fun heq => ?_⟩
    rw [heq]
    omega
  · simp only [Bool.and_eq_true, decide_eq_true_eq]
    refine ⟨fun hnear => eq_of_near hunit (by omega) (by omega), fun heq => ?_⟩
    rw [heq]
    omega

/-- On a grid of whole numbers there is the number itself or nothing. -/
theorem onGrid_whole (tie : Tie) (k : Nat) :
    onGrid tie ⟨significand n, Decimal.exponent n, narrow⟩ k =
      if n / 10 ^ k * 10 ^ k = n then some (n / 10 ^ k) else none := by
  have hbelow : n * unit n / (unit n * tenTo k) = n / 10 ^ k := by
    rw [Nat.mul_comm]
    exact Nat.mul_div_mul_left _ _ (Nat.lt_of_lt_of_le (by decide) (four_le_unit n))
  have hnext : (n / 10 ^ k + 1) * 10 ^ k ≠ n := by
    have hlt := Nat.lt_div_mul_add (a := n) (b := 10 ^ k) (Nat.pow_pos (by decide))
    rw [Nat.succ_mul]
    omega
  have habove :
      readsBack ⟨significand n, Decimal.exponent n, narrow⟩ (n / 10 ^ k + 1) k = false := by
    rw [Bool.eq_false_iff, Ne, readsBack_iff h hn narrow]
    exact hnext
  unfold onGrid
  rw [scale_whole h hn narrow]
  simp only [tenTo_neg_natCast, Int.toNat_natCast, four_mul_significand, Nat.mul_one, hbelow]
  rw [habove]
  by_cases hself : n / 10 ^ k * 10 ^ k = n
  · rw [(readsBack_iff h hn narrow _ _).2 hself, if_pos hself]
  · rw [Bool.eq_false_iff.2 (mt (readsBack_iff h hn narrow _ _).1 hself), if_neg hself]

theorem leading_whole :
    leading ⟨significand n, Decimal.exponent n, narrow⟩ = (digitCount n : Int) - 1 := by
  have hunit : 0 < unit n := Nat.lt_of_lt_of_le (by decide) (four_le_unit n)
  rw [leading, scale_whole h hn narrow]
  simp only [four_mul_significand, Nat.mul_one]
  rw [if_pos (Nat.le_mul_of_pos_left _ h), Nat.mul_div_cancel _ hunit]

end

end Binary

namespace Scientific

/-- Digits and an exponent that make the whole number `n`. -/
def Makes (d : Scientific) (n : Nat) : Prop := ∃ k : Nat, d.exponent = k ∧ d.digits * 10 ^ k = n

theorem Makes.stripZeros {n : Nat} (fuel : Nat) {d : Scientific} (h : d.Makes n) :
    (stripZeros fuel d).Makes n := by
  induction fuel generalizing d with
  | zero => exact h
  | succ fuel ih =>
    obtain ⟨k, hk, hn⟩ := h
    rw [Scientific.stripZeros]
    split
    · rename_i hzero
      refine ih ⟨k + 1, by rw [hk]; rfl, ?_⟩
      have hdigits : d.digits / 10 * 10 = d.digits :=
        Nat.div_mul_cancel (Nat.dvd_of_mod_eq_zero hzero)
      rw [← hn, Nat.pow_succ, Nat.mul_comm (10 ^ k), ← Nat.mul_assoc, hdigits]
    · exact ⟨k, hk, hn⟩

end Scientific

/-- The shortest digits of a whole number make the number: the search comes to the grid of whole
numbers before it comes to finer ones. -/
theorem makes_shortest {n : Nat} (h : 0 < n) (hn : n < 2 ^ 53) (narrow : Bool) (tie : Tie) :
    (Binary.shortest tie ⟨significand n, exponent n, narrow⟩).Makes n := by
  have hcount : digitCount n ≤ 16 :=
    (Nat.length_toDigits_le_iff (by decide) (by decide)).2 (Nat.lt_trans hn (by decide))
  have hpositive : 0 < digitCount n := Nat.length_toDigits_pos
  rw [Binary.shortest, Binary.leading_whole h hn narrow]
  simp only
  refine Scientific.Makes.stripZeros _ ?_
  generalize hfind : (fun i : Nat => Option.map (fun c => Scientific.mk c (digitCount n - 1 - i))
    (Binary.onGrid tie ⟨significand n, exponent n, narrow⟩ (digitCount n - 1 - i))) = find
  have hgrid (k i : Nat) (hi : i + k + 1 = digitCount n) :
      find i = if n / 10 ^ k * 10 ^ k = n then some ⟨n / 10 ^ k, k⟩ else none := by
    have hk : (digitCount n : Int) - 1 - i = k := by omega
    rw [← hfind]
    simp only [hk, Binary.onGrid_whole h hn narrow]
    split <;> rfl
  have hlast : find (digitCount n - 1) = some ⟨n, 0⟩ := by
    rw [hgrid 0 _ (by omega)]
    simp
  have hsome : ((List.range (digitCount n)).findSome? find).isSome := by
    rw [List.findSome?_isSome_iff]
    exact ⟨digitCount n - 1, List.mem_range.2 (by omega), by rw [hlast]; rfl⟩
  obtain ⟨d, hd⟩ := Option.isSome_iff_exists.1 hsome
  obtain ⟨i, hi, hfound⟩ := List.exists_of_findSome?_eq_some hd
  have hmakes : d.Makes n := by
    have hk := List.mem_range.1 hi
    rw [hgrid (digitCount n - 1 - i) i (by omega)] at hfound
    split at hfound
    · rename_i hself
      cases hfound
      exact ⟨_, rfl, hself⟩
    · cases hfound
  rw [show 17 = digitCount n + (17 - digitCount n) by omega, List.range_add,
    List.findSome?_append, hd]
  exact hmakes

/-! ## Digits laid out -/

theorem toDigits_mul_ten_pow {n : Nat} (h : 0 < n) (k : Nat) :
    Nat.toDigits 10 (n * 10 ^ k) = Nat.toDigits 10 n ++ List.replicate k '0' := by
  induction k with
  | zero => simp
  | succ k ih =>
    have happend := Nat.toDigits_append_toDigits (b := 10) (d := 0) (by decide)
      (Nat.mul_pos h (Nat.pow_pos (n := k) (by decide : 0 < 10))) (by decide)
    have hsucc : n * 10 ^ (k + 1) = 10 * (n * 10 ^ k) + 0 := by
      rw [Nat.pow_succ]
      ac_rfl
    rw [hsucc, ← happend, ih, List.append_assoc, List.replicate_succ']
    rfl

/-- Digits that make a whole number are filled up with zeros and end in `.0`. -/
theorem layOut_makes {n : Nat} (h : 0 < n) (hn : n < 2 ^ 53) {d : Scientific} (hd : d.Makes n) :
    Format.data.layOut d = Nat.toDigits 10 n ++ ['.', '0'] := by
  obtain ⟨digits, e⟩ := d
  obtain ⟨k, hk : e = k, hdigits : digits * 10 ^ k = n⟩ := hd
  subst hk hdigits
  have hdigits : 0 < digits := Nat.pos_of_mul_pos_right h
  have hall := toDigits_mul_ten_pow hdigits k
  have hlength : (Nat.toDigits 10 digits).length + k ≤ 16 := by
    have hcount := (Nat.length_toDigits_le_iff (b := 10) (k := 16) (by decide) (by decide)).2
      (Nat.lt_trans hn (by decide))
    rwa [hall, List.length_append, List.length_replicate] at hcount
  have hpositive : 0 < (Nat.toDigits 10 digits).length := Nat.length_toDigits_pos
  have hlead : ((k : Int) + (Nat.toDigits 10 digits).length - 1).toNat + 1 =
      (Nat.toDigits 10 digits).length + k := by omega
  rw [Format.layOut]
  simp only [hlead]
  rw [if_pos, if_neg (by omega)]
  · rw [List.drop_eq_nil_of_le (by omega), List.take_of_length_le (by omega), hall,
      Nat.add_sub_cancel_left]
    rfl
  · simp only [Format.data, Bool.and_eq_true, decide_eq_true_eq]
    omega

end Decimal

/-! ## Writing -/

namespace Json

open Decimal

def isNegative : Sign → Bool
  | .positive => false
  | .negative => true

theorem toList_writeReal {s : Sign} {n : Nat} {x : Float} (h : IsWhole s n x) :
    (writeReal x).toList =
      signed (isNegative s) (Nat.toDigits 10 n ++ ['.', '0']) := by
  obtain ⟨narrow, hbits⟩ := h.ofBits_eq
  have hmagnitude : Format.data.magnitude x.toBits = Nat.toDigits 10 n ++ ['.', '0'] := by
    rw [Format.magnitude, hbits]
    simp only
    rw [if_neg (Nat.pos_iff_ne_zero.1 (significand_pos h.pos)),
      layOut_makes h.pos h.lt (makes_shortest h.pos h.lt narrow _)]
  have hfinite : x.isFinite = true := by
    show x.toModel.unpack.isFinite = true
    rw [h.unpack_eq]
    rfl
  rw [toList_writeReal_of_isFinite hfinite, hmagnitude]
  cases s with
  | positive => rw [decide_eq_false (mt h.shift_toBits_eq_one.1 nofun), isNegative]
  | negative => rw [decide_eq_true (h.shift_toBits_eq_one.2 rfl), isNegative]

/-! ## Reading -/

namespace Numeral

theorem le_foldl_digits (digits : List Nat) (acc : Nat) :
    acc ≤ digits.foldl (fun acc d => acc * 10 + d) acc := by
  rw [digitsValue_foldl]
  exact Nat.le_add_right_of_le (Nat.le_mul_of_pos_right acc (Nat.pow_pos (by decide)))

theorem gather_eq {digits : List Nat} {acc : Nat}
    (h : digits.foldl (fun acc d => acc * 10 + d) acc < UInt64.size) :
    gather acc digits = (digits.foldl (fun acc d => acc * 10 + d) acc, []) := by
  induction digits generalizing acc with
  | nil => rfl
  | cons d digits ih =>
    rw [gather, if_pos (Nat.lt_of_le_of_lt (le_foldl_digits digits _) h)]
    exact ih h

/-- The numeral of a whole number, with `.0` in place of a fraction. -/
def ofWhole (negative : Bool) (n : Nat) : Numeral := ⟨negative, digitsOf n, [0], none⟩

theorem scan_ofWhole (negative : Bool) (n : Nat) :
    scan negative (Nat.toDigits 10 n ++ ['.', '0']) = .ok (ofWhole negative n, []) := by
  have hends : EndsDigits ['.', '0'] := by
    rintro c ⟨⟩
    rfl
  rw [scan, scanWhole_append hends (scanWhole_toDigits n), afterDigits_append hends,
    afterDigits_toDigits]
  rfl

theorem isWhole_powerOfTen : IsWhole .positive 10 (powerOfTen 1) := by
  rw [show powerOfTen 1 = Float.ofNat 10 by decide +kernel]
  exact isWhole_ofNat (by decide) (by decide)

/-- The digits are read as ten times the number, which is then divided by ten. -/
theorem magnitude_ofWhole (negative : Bool) {n : Nat} (hn : n * 10 < 2 ^ 53) :
    (ofWhole negative n).magnitude = .ok (Float.ofNat (n * 10) / powerOfTen 1) := by
  have hvalue : (digitsOf n).foldl (fun acc d => acc * 10 + d) 0 = n := digitsValue_digitsOf n
  have hlt : n < UInt64.size := Nat.lt_trans (by omega : n < 2 ^ 53) (by decide)
  have hwhole : gather 0 (digitsOf n) = (n, []) := by
    rw [gather_eq (by rwa [hvalue]), hvalue]
  have hfraction : gather n [0] = (n * 10, []) := gather_eq (Nat.lt_trans hn (by decide))
  rw [magnitude, ofWhole]
  simp only [hwhole, hfraction]
  rw [scaled]
  simp only
  rw [if_pos (by decide)]
  show Except.ok (scaleDown _ 1) = _
  rw [scaleDown, if_pos (by decide)]

theorem value_ofWhole (s : Sign) {n : Nat} (h : 0 < n) (hn : n * 10 < 2 ^ 53) :
    ∃ x, (ofWhole (isNegative s) n).value = .ok (.real x) ∧ IsWhole s n x := by
  have hx := (isWhole_ofNat (by omega) hn).div h isWhole_powerOfTen
  have hreal : (ofWhole (isNegative s) n).isInteger = false := rfl
  rw [value, hreal, magnitude_ofWhole _ hn]
  cases s with
  | positive => exact ⟨_, rfl, hx⟩
  | negative => exact ⟨_, rfl, hx.neg⟩

end Numeral

theorem readsBack_of_isWhole {s : Sign} {n : Nat} {x : Float} (h : IsWhole s n x)
    (hn : n * 10 < 2 ^ 53) : ReadsBack x := by
  obtain ⟨y, hvalue, hy⟩ := Numeral.value_ofWhole s h.pos hn
  have htokens : tokens (writeReal x).toList =
      [.scalar (.number (.ofWhole (isNegative s) n))] := by
    have hscan := Numeral.scan_ofWhole (isNegative s) n
    rw [toList_writeReal h]
    cases hd : Nat.toDigits 10 n with
    | nil => exact (Nat.toDigits_ne_nil hd).elim
    | cons c digits =>
      have hc : c.isDigit := Numeral.isDigit_of_mem_toDigits (n := n) (by simp [hd])
      rw [hd] at hscan
      simpa [tokens] using tokens_signed_append hc hscan stops_nil
  rw [ReadsBack, read, Document.ofText, htokens, ofTokens_scalar]
  show ((Numeral.ofWhole (isNegative s) n).value.map Number.toFloat >>= _) = _
  rw [hvalue, ← hy.eq_of_eq h]
  rfl

/-- **Integers are read back** up to `10 ^ 14`. -/
theorem readsBack_ofInt {k : Int} (hk : k.natAbs ≤ 10 ^ 14) : ReadsBack (Float.ofInt k) := by
  cases k with
  | ofNat n =>
    have hn : n ≤ 10 ^ 14 := hk
    by_cases h : n = 0
    · subst h
      unfold ReadsBack
      decide +kernel
    · exact readsBack_of_isWhole (isWhole_ofNat (Nat.pos_of_ne_zero h) (by omega)) (by omega)
  | negSucc n =>
    have hn : n + 1 ≤ 10 ^ 14 := hk
    exact readsBack_of_isWhole (isWhole_ofNat n.succ_pos (by omega)).neg (by omega)

end Json

end LadderDiagram
