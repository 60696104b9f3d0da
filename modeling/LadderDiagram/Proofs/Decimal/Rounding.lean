import LadderDiagram.Decimal.Shortest
import Mathlib

/-!
# Numbers that round to a binary number

The rationals that round to a binary number fill the interval from `Binary.lower` to `Binary.upper`,
with the ends if the mantissa is even (`Binary.Rounds`). The shortest decimal lies in it
(`Binary.rounds_shortest`).

Taken in the order of their encodings, each number's interval ends where that of the next begins
(`upper_encoded`), and of two neighbours just one is even. So every rational rounds to one number at
most, and `nearest` finds it: the last encoding that the rational reaches (`nearest_eq`).
-/

namespace LadderDiagram.Decimal

theorem zpow_eq_div {b : ℚ} (hb : b ≠ 0) (z : ℤ) : b ^ z = b ^ z.toNat / b ^ (-z).toNat := by
  rw [← zpow_natCast, ← zpow_natCast, ← zpow_sub₀ hb]
  congr 1
  omega

namespace Scientific

def value (d : Scientific) : ℚ := d.digits * 10 ^ d.exponent

theorem value_stripZeros (fuel : Nat) (d : Scientific) : (stripZeros fuel d).value = d.value := by
  induction fuel generalizing d with
  | zero => rfl
  | succ fuel ih =>
    rw [stripZeros]
    split
    · rename_i h
      have hdigits : (d.digits : ℚ) = (d.digits / 10 : ℕ) * 10 := by
        exact_mod_cast (Nat.div_mul_cancel (Nat.dvd_of_mod_eq_zero h)).symm
      rw [ih, value, value, hdigits, zpow_add_one₀ (by norm_num)]
      ring
    · rfl

end Scientific

namespace Binary

def lower (x : Binary) : ℚ :=
  (4 * x.mantissa - if x.narrowBelow then 1 else 2) * 2 ^ (x.exponent - 2)

def upper (x : Binary) : ℚ := (4 * x.mantissa + 2) * 2 ^ (x.exponent - 2)

/-- The rational is among those that round to the number. -/
def Rounds (x : Binary) (v : ℚ) : Prop :=
  if x.mantissa % 2 = 0 then x.lower ≤ v ∧ v ≤ x.upper else x.lower < v ∧ v < x.upper

theorem lower_lt_upper (x : Binary) : x.lower < x.upper := by
  have hpower : (0 : ℚ) < 2 ^ (x.exponent - 2) := by positivity
  refine mul_lt_mul_of_pos_right ?_ hpower
  split <;> linarith

theorem Rounds.between {x : Binary} {v : ℚ} (h : x.Rounds v) : x.lower ≤ v ∧ v ≤ x.upper := by
  unfold Rounds at h
  split at h
  · exact h
  · exact ⟨h.1.le, h.2.le⟩

/-! ### Shortest decimals -/

section
variable (x : Binary) (a c : Nat) (k : Int)

theorem exists_scaled : ∃ r : ℚ, 0 < r ∧
    ((a * (x.scale.1 * tenTo (-k).toNat) : ℕ) : ℚ) = a * 2 ^ (x.exponent - 2) * r ∧
      ((c * (x.scale.2 * tenTo k.toNat) : ℕ) : ℚ) = c * 10 ^ k * r := by
  refine ⟨2 ^ (2 - x.exponent).toNat * 10 ^ (-k).toNat, by positivity, ?_, ?_⟩
  · rw [zpow_eq_div (by norm_num), neg_sub]
    simp only [scale, Nat.one_shiftLeft, tenTo, Nat.pow_eq, Nat.cast_mul, Nat.cast_pow]
    push_cast
    field_simp
  · rw [zpow_eq_div (by norm_num)]
    simp only [scale, Nat.one_shiftLeft, tenTo, Nat.pow_eq, Nat.cast_mul, Nat.cast_pow]
    push_cast
    field_simp

theorem scaled_le_iff : a * (x.scale.1 * tenTo (-k).toNat) ≤ c * (x.scale.2 * tenTo k.toNat) ↔
    (a : ℚ) * 2 ^ (x.exponent - 2) ≤ c * 10 ^ k := by
  obtain ⟨r, hr, ha, hc⟩ := exists_scaled x a c k
  rw [← Nat.cast_le (α := ℚ), ha, hc, mul_le_mul_iff_of_pos_right hr]

theorem scaled_lt_iff : a * (x.scale.1 * tenTo (-k).toNat) < c * (x.scale.2 * tenTo k.toNat) ↔
    (a : ℚ) * 2 ^ (x.exponent - 2) < c * 10 ^ k := by
  obtain ⟨r, hr, ha, hc⟩ := exists_scaled x a c k
  rw [← Nat.cast_lt (α := ℚ), ha, hc, mul_lt_mul_iff_of_pos_right hr]

end

variable {x : Binary}

/-- The comparison in whole numbers says which decimals round to the number. -/
theorem readsBack_iff_rounds (hx : x.mantissa ≠ 0) (c : Nat) (k : Int) :
    x.readsBack c k = true ↔ x.Rounds (c * 10 ^ k) := by
  have hlow : (((if x.narrowBelow then 4 * x.mantissa - 1 else 4 * x.mantissa - 2 : ℕ) : ℕ) : ℚ) =
      4 * x.mantissa - if x.narrowBelow then 1 else 2 := by
    split
    · rw [Nat.cast_sub (by omega)]
      push_cast
      rfl
    · rw [Nat.cast_sub (by omega)]
      push_cast
      rfl
  have hhigh : ((4 * x.mantissa + 2 : ℕ) : ℚ) = 4 * x.mantissa + 2 := by push_cast; rfl
  rw [readsBack, Rounds, lower, upper, ← hlow, ← hhigh]
  split
  · simp only [Bool.and_eq_true, decide_eq_true_eq]
    rw [scaled_le_iff, ← not_lt (b := c * _), scaled_lt_iff, not_lt]
  · simp only [Bool.and_eq_true, decide_eq_true_eq]
    rw [scaled_lt_iff, ← not_le (b := c * _), scaled_le_iff, not_le]

theorem readsBack_of_onGrid {tie : Tie} {k : Int} {c : Nat} (h : x.onGrid tie k = some c) :
    x.readsBack c k = true := by
  unfold onGrid at h
  dsimp only at h
  split at h
  · cases h
  · cases h
    assumption
  · cases h
    assumption
  · split at h <;> cases h
    · assumption
    · assumption
    · assumption
    · split <;> assumption

theorem value_exact (x : Binary) : x.exact.value = x.mantissa * 2 ^ x.exponent := by
  obtain ⟨m, e, narrow⟩ := x
  simp only [exact, Scientific.value, Nat.shiftLeft_eq, Nat.pow_eq]
  push_cast
  rcases le_total 0 e with he | he
  · rw [min_eq_right he, zpow_zero, show (-e).toNat = 0 by omega, pow_zero, mul_one, mul_one,
      ← zpow_natCast, Int.toNat_of_nonneg he]
  · rw [min_eq_left he, show e.toNat = 0 by omega, pow_zero, mul_one, ← zpow_natCast,
      Int.toNat_of_nonneg (by omega), mul_assoc, zpow_neg, ← inv_zpow, ← mul_zpow]
    norm_num

theorem rounds_exact (x : Binary) : x.Rounds x.exact.value := by
  have hpower : (0 : ℚ) < 2 ^ (x.exponent - 2) := by positivity
  have hvalue : x.exact.value = 4 * x.mantissa * 2 ^ (x.exponent - 2) := by
    rw [value_exact, zpow_sub₀ (by norm_num)]
    ring
  have hlower : x.lower < x.exact.value := by
    rw [hvalue]
    refine mul_lt_mul_of_pos_right ?_ hpower
    split <;> linarith
  have hupper : x.exact.value < x.upper := by
    rw [hvalue]
    exact mul_lt_mul_of_pos_right (by linarith) hpower
  unfold Rounds
  split
  · exact ⟨hlower.le, hupper.le⟩
  · exact ⟨hlower, hupper⟩

theorem rounds_shortest (tie : Tie) (hx : x.mantissa ≠ 0) :
    x.Rounds (x.shortest tie).value := by
  rw [shortest]
  simp only [Scientific.value_stripZeros]
  cases hfound : (List.range 17).findSome? fun (n : Nat) =>
      (x.onGrid tie (x.leading - n)).map fun c => Scientific.mk c (x.leading - n) with
  | none => exact x.rounds_exact
  | some d =>
    obtain ⟨n, -, hn⟩ := List.exists_of_findSome?_eq_some hfound
    obtain ⟨c, hc, rfl⟩ := Option.map_eq_some_iff.1 hn
    exact (readsBack_iff_rounds hx _ _).1 (readsBack_of_onGrid hc)

theorem lower_pos (hx : x.mantissa ≠ 0) : 0 < x.lower := by
  have hm : (1 : ℚ) ≤ x.mantissa := by exact_mod_cast Nat.one_le_iff_ne_zero.2 hx
  refine mul_pos ?_ (by positivity)
  split <;> linarith

theorem digits_shortest_ne_zero (tie : Tie) (hx : x.mantissa ≠ 0) :
    (x.shortest tie).digits ≠ 0 := by
  intro h
  have hpos := (lower_pos hx).trans_le (rounds_shortest tie hx).between.1
  rw [Scientific.value, h] at hpos
  simp at hpos

/-! ### Encodings in order -/

/-- The number with the given encoding, its sign left out. -/
def encoded (n : Nat) : Binary :=
  if n / 2 ^ 52 = 0 then ⟨n % 2 ^ 52, -1074, false⟩
  else ⟨2 ^ 52 + n % 2 ^ 52, (n / 2 ^ 52 : ℕ) - 1075,
    n % 2 ^ 52 == 0 && decide (1 < n / 2 ^ 52)⟩

theorem ofBits_eq (bits : UInt64) : ofBits bits = encoded (bits.toNat % 2 ^ 63) := by
  have hfield : ((bits >>> 52) &&& 0x7FF).toNat = bits.toNat % 2 ^ 63 / 2 ^ 52 := by
    rw [UInt64.toNat_and, UInt64.toNat_shiftRight]
    show bits.toNat >>> 52 &&& 2 ^ 11 - 1 = _
    rw [Nat.and_two_pow_sub_one_eq_mod, Nat.shiftRight_eq_div_pow]
    omega
  have hfraction : (bits &&& 0xFFFFFFFFFFFFF).toNat = bits.toNat % 2 ^ 63 % 2 ^ 52 := by
    rw [UInt64.toNat_and]
    show bits.toNat &&& 2 ^ 52 - 1 = _
    rw [Nat.and_two_pow_sub_one_eq_mod]
    omega
  rw [ofBits, encoded, hfield, hfraction]
  rfl

theorem mantissa_encoded_mod_two (n : Nat) : (encoded n).mantissa % 2 = n % 2 := by
  rw [encoded]
  split
  · show n % 2 ^ 52 % 2 = n % 2
    omega
  · show (2 ^ 52 + n % 2 ^ 52) % 2 = n % 2
    omega

/-- Each interval ends where the next begins. -/
theorem upper_encoded (n : Nat) : (encoded n).upper = (encoded (n + 1)).lower := by
  by_cases hr : n % 2 ^ 52 + 1 < 2 ^ 52
  · have hfield : (n + 1) / 2 ^ 52 = n / 2 ^ 52 := by omega
    have hfraction : (n + 1) % 2 ^ 52 = n % 2 ^ 52 + 1 := by omega
    rw [encoded, encoded, hfield, hfraction]
    split
    · refine congrArg (· * (2 : ℚ) ^ ((-1074 : ℤ) - 2)) ?_
      push_cast
      ring
    · have hnarrow : (n % 2 ^ 52 + 1 == 0) = false := by simp
      simp only [upper, lower, hnarrow, Bool.false_and]
      refine congrArg (· * (2 : ℚ) ^ (_ : ℤ)) ?_
      push_cast
      ring
  · have hfield : (n + 1) / 2 ^ 52 = n / 2 ^ 52 + 1 := by omega
    have hfraction : (n + 1) % 2 ^ 52 = 0 := by omega
    have hlast : n % 2 ^ 52 = 2 ^ 52 - 1 := by omega
    rw [encoded, encoded, hfield, hfraction, hlast, if_neg (Nat.succ_ne_zero _)]
    split
    · rename_i h
      simp only [upper, lower, h]
      norm_num
    · rename_i h
      have hwide : decide (1 < n / 2 ^ 52 + 1) = true := by simp; omega
      have hpower : (2 : ℚ) ^ ((n / 2 ^ 52 + 1 : ℕ) - 1075 - 2 : ℤ) =
          2 ^ ((n / 2 ^ 52 : ℕ) - 1075 - 2 : ℤ) * 2 := by
        rw [← zpow_add_one₀ (by norm_num)]
        congr 1
        push_cast
        ring
      simp only [upper, lower, hwide, hpower]
      norm_num
      ring

theorem lower_encoded_strictMono : StrictMono fun n => (encoded n).lower :=
  strictMono_nat_of_lt_succ fun n => (lower_lt_upper _).trans_eq (upper_encoded n)

/-! ### Rounding -/

/-- The rational is not below the numbers that round to the one with the given encoding. -/
def Reaches (v : ℚ) (n : Nat) : Prop :=
  if n % 2 = 0 then (encoded n).lower ≤ v else (encoded n).lower < v

instance (v : ℚ) (n : Nat) : Decidable (Reaches v n) := by
  unfold Reaches
  infer_instance

/-- The encoding that comes after all finite numbers. -/
def infinity : Nat := 0x7FF * 2 ^ 52

/-- The encoding of the number that a rational rounds to. -/
def nearest (v : ℚ) : Nat := Nat.findGreatest (Reaches v) infinity

theorem Rounds.reaches {n : Nat} {v : ℚ} (h : (encoded n).Rounds v) : Reaches v n := by
  unfold Rounds at h
  rw [mantissa_encoded_mod_two] at h
  unfold Reaches
  split at h
  · rw [if_pos ‹_›]
    exact h.1
  · rw [if_neg ‹_›]
    exact h.1

/-- No later encoding is reached: the next one shares an end, which is not on both sides. -/
theorem Rounds.not_reaches {n k : Nat} {v : ℚ} (h : (encoded n).Rounds v) (hk : n < k) :
    ¬ Reaches v k := by
  intro hreach
  have hle : (encoded k).lower ≤ v := by
    unfold Reaches at hreach
    split at hreach
    · exact hreach
    · exact hreach.le
  have hnext : (encoded (n + 1)).lower ≤ (encoded k).lower :=
    lower_encoded_strictMono.monotone hk
  have hv : v ≤ (encoded (n + 1)).lower := h.between.2.trans_eq (upper_encoded n)
  have heq : (encoded (n + 1)).lower = (encoded k).lower := le_antisymm hnext (hle.trans hv)
  obtain rfl := lower_encoded_strictMono.injective heq
  unfold Rounds at h
  rw [mantissa_encoded_mod_two, upper_encoded] at h
  unfold Reaches at hreach
  split at h
  · rw [if_neg (by omega)] at hreach
    exact absurd h.2 (not_le.2 hreach)
  · exact absurd h.2 (not_lt.2 hle)

/-- A rational rounds to one number at most, and `nearest` finds it. -/
theorem nearest_eq {n : Nat} (hn : n ≤ infinity) {v : ℚ} (h : (encoded n).Rounds v) :
    nearest v = n :=
  Nat.findGreatest_eq_iff.2 ⟨hn, fun _ => h.reaches, fun _ hk _ => h.not_reaches hk⟩

end Binary

end LadderDiagram.Decimal
