import LadderDiagram.Decimal.Shortest
import Mathlib

/-!
# Whole numbers in binary64

A whole number below `2 ^ 53` is kept without rounding: its significand is shifted until it fills
the 53 places (`significand`), and the exponent makes up for that (`exponent`). `IsWhole s n x` says
that `x` is `n` with the sign `s`. Converting a natural number makes it whole, the negative of a
whole number is whole, and so is a quotient that comes out even.
-/

namespace LadderDiagram.Decimal

open Float.Model Float.Model.UnpackedFloat

/-! ## Numbers that fill their places -/

theorem finite_congr {s s' : Sign} {m m' : Nat} {e e' : Int} {h : 0 < m} {h' : 0 < m'}
    (hs : s = s') (hm : m = m') (he : e = e') :
    UnpackedFloat.finite s m e h = .finite s' m' e' h' := by
  subst hs hm he
  rfl

/-- The leading place of a significand is not written; put back, it gives the significand. -/
theorem toNat_one_append {m : Nat} (hm : m.log2 = 52) :
    (1#1 ++ BitVec.ofNat 52 m).toNat = m := by
  have hpos : m ≠ 0 := by
    rintro rfl
    simp at hm
  obtain ⟨hlow, hhigh⟩ := (Nat.log2_eq_iff hpos).1 hm
  rw [BitVec.toNat_append, ← Nat.shiftLeft_add_eq_or_of_lt (BitVec.isLt _), BitVec.toNat_ofNat]
  simp only [BitVec.toNat_ofNat, Nat.shiftLeft_eq]
  omega

theorem pack_normal (s : Sign) {m : Nat} {e : Int} (hp : 0 < m) (hm : m.log2 = 52)
    (he : e ≤ 971) :
    UnpackedFloat.pack Format.binary64 (.finite s m e hp) =
      packComponents Format.binary64 s (BitVec.ofNat 11 (e + 1075).toNat) (BitVec.ofNat 52 m) := by
  have hbiased : (e + (1023 : Nat) + (52 : Nat)).toNat = (e + 1075).toNat := by omega
  have hplaces : m.log2 + 1 = Format.binary64.mantissaBits := by
    rw [hm]
    rfl
  simp only [UnpackedFloat.pack]
  rw [show Format.exponentBias Format.binary64 = 1023 from rfl, hbiased,
    if_neg (show ¬ 2 ^ 11 ≤ (e + 1075).toNat + 1 by omega), if_pos hplaces]

theorem unpack_pack_normal (s : Sign) {m : Nat} {e : Int} (hp : 0 < m) (hm : m.log2 = 52)
    (hlow : -1074 ≤ e) (hhigh : e ≤ 971) :
    (Float.Model.pack (.finite s m e hp)).unpack = .finite s m e hp := by
  have hexponent : (BitVec.ofNat 11 (e + 1075).toNat).toNat = (e + 1075).toNat := by
    rw [BitVec.toNat_ofNat]
    omega
  have hfinite : BitVec.ofNat 11 (e + 1075).toNat ≠ -1#11 := by
    intro h
    rw [h] at hexponent
    simp at hexponent
    omega
  have hnormal : BitVec.ofNat 11 (e + 1075).toNat ≠ 0#11 := by
    intro h
    rw [h] at hexponent
    simp at hexponent
    omega
  show UnpackedFloat.unpack _ (UnpackedFloat.pack _ _) = _
  rw [pack_normal s hp hm hhigh]
  simp only [UnpackedFloat.unpack, unpackExponent_packComponents, unpackMantissa_packComponents,
    unpackSign_packComponents, Sign.ofBitVec_toBitVec]
  rw [if_neg hfinite, if_neg hnormal]
  refine finite_congr rfl (toNat_one_append hm) ?_
  rw [hexponent]
  show ((e + 1075).toNat : Int) - (1023 + 52) = e
  omega

/-! ## Rounding that changes nothing -/

theorem log2_mul_two_pow {m : Nat} (hm : 0 < m) (k : Nat) : (m * 2 ^ k).log2 = m.log2 + k := by
  induction k with
  | zero => simp
  | succ k ih =>
    have h : m * 2 ^ (k + 1) = 2 * (m * 2 ^ k) := by
      rw [Nat.pow_succ]
      ac_rfl
    rw [h, Nat.log2_two_mul (Nat.pos_iff_ne_zero.1 (Nat.mul_pos hm (Nat.two_pow_pos k))), ih]
    rfl

/-- Places that are all zero are dropped without loss. -/
theorem shift_exact (m k : Nat) :
    ExtendedMantissa.mk (m * 2 ^ k) false false >>> k = ⟨m, false, false⟩ := by
  show Nat.repeat ExtendedMantissa.shiftRightOne k _ = _
  induction k generalizing m with
  | zero =>
    rw [Nat.pow_zero, Nat.mul_one]
    rfl
  | succ k ih =>
    have h : m * 2 ^ (k + 1) = 2 * m * 2 ^ k := by
      rw [Nat.pow_succ]
      ac_rfl
    rw [Nat.repeat, h, ih]
    simp [ExtendedMantissa.shiftRightOne]

theorem shiftToTarget_exact {m k : Nat} {e : Int} (hm : m.log2 = 52) (he : -1074 ≤ e + k) :
    shiftToTargetExponent Format.binary64 (m * 2 ^ k) e .exact = (⟨m, false, false⟩, e + k) := by
  have hpos : 0 < m := Nat.pos_of_ne_zero (by rintro rfl; simp at hm)
  have htarget : Format.binary64.targetExponent (totalExponent (m * 2 ^ k) e) = e + k := by
    simp only [totalExponent, log2_mul_two_pow hpos, hm]
    show max (((52 + k : Nat) : Int) + 1 + e - (53 : Nat)) (-1074) = e + k
    omega
  have hshift : (e + k - e).toNat = k := by omega
  rw [shiftToTargetExponent, htarget]
  show (ExtendedMantissa.mk (m * 2 ^ k) false false >>> (e + k - e).toNat,
    e + ((e + k - e).toNat : Int)) = _
  rw [hshift, shift_exact]

theorem round_exact (s : Sign) {m k : Nat} {e : Int} (hp : 0 < m) (hm : m.log2 = 52)
    (he : -1074 ≤ e + k) :
    roundWithAccuracy Format.binary64 s (m * 2 ^ k) e .exact = .finite s m (e + k) hp := by
  have hagain : shiftToTargetExponent Format.binary64 m (e + k) .exact =
      (⟨m, false, false⟩, e + k) := by
    simpa using shiftToTarget_exact (k := 0) hm (show -1074 ≤ e + k + (0 : Nat) by omega)
  have hrounded : (ExtendedMantissa.mk m false false).roundedMantissa = m := rfl
  simp only [roundWithAccuracy, shiftToTarget_exact hm he, hrounded, hagain]
  exact dif_neg (Nat.pos_iff_ne_zero.1 hp)

/-! ## Whole numbers -/

/-- The significand of a whole number, shifted until it fills 53 places. -/
def significand (n : Nat) : Nat := n * 2 ^ (52 - n.log2)

def exponent (n : Nat) : Int := n.log2 - 52

theorem significand_pos {n : Nat} (h : 0 < n) : 0 < significand n :=
  Nat.mul_pos h (Nat.two_pow_pos _)

theorem log2_lt {n : Nat} (h : 0 < n) (hn : n < 2 ^ 53) : n.log2 < 53 :=
  (Nat.log2_lt (Nat.pos_iff_ne_zero.1 h)).2 hn

theorem log2_significand {n : Nat} (h : 0 < n) (hn : n < 2 ^ 53) : (significand n).log2 = 52 := by
  have hlog := log2_lt h hn
  rw [significand, log2_mul_two_pow h]
  omega

/-- The number is whole: it is `n` with the given sign. -/
structure IsWhole (s : Sign) (n : Nat) (x : Float) : Prop where
  pos : 0 < n
  lt : n < 2 ^ 53
  unpack_eq : x.toModel.unpack = .finite s (significand n) (exponent n) (significand_pos pos)

theorem isWhole_pack (s : Sign) {n : Nat} (h : 0 < n) (hn : n < 2 ^ 53) :
    IsWhole s n ⟨.pack (.finite s (significand n) (exponent n) (significand_pos h))⟩ := by
  have hlog := log2_lt h hn
  refine ⟨h, hn, unpack_pack_normal s _ (log2_significand h hn) ?_ ?_⟩
  · rw [exponent]
    omega
  · rw [exponent]
    omega

theorem round_whole {n : Nat} (h : 0 < n) (hn : n < 2 ^ 53) :
    UnpackedFloat.round Format.binary64 .positive n 0 =
      .finite .positive (significand n) (exponent n) (significand_pos h) := by
  have hlog := log2_lt h hn
  have htarget : Format.binary64.targetExponent (totalExponent n 0) = exponent n := by
    show max ((n.log2 : Int) + 1 + 0 - (53 : Nat)) (-1074) = (n.log2 : Int) - 52
    omega
  have hshift : (0 - exponent n).toNat = 52 - n.log2 := by
    rw [exponent]
    omega
  have hexponent : (0 : Int) - (52 - n.log2 : Nat) = exponent n := by
    rw [exponent]
    omega
  have hround := round_exact .positive (k := 0) (e := exponent n) (significand_pos h)
    (log2_significand h hn) (by rw [exponent]; omega)
  rw [UnpackedFloat.round, htarget, decreaseExponent, hshift]
  simp only [hexponent]
  rw [Nat.shiftLeft_eq]
  simpa [significand] using hround

theorem isWhole_one : IsWhole .positive 1 1 := by
  have heq : (1 : Float) = ⟨.pack (.finite .positive (significand 1) (exponent 1)
    (significand_pos (by decide)))⟩ := by decide +kernel
  rw [heq]
  exact isWhole_pack .positive (by decide) (by decide)

namespace IsWhole

variable {s : Sign} {n : Nat} {x y : Float}

theorem eq_of_eq (hx : IsWhole s n x) (hy : IsWhole s n y) : x = y := by
  obtain ⟨⟨⟨x⟩, hvx⟩⟩ := x
  obtain ⟨⟨⟨y⟩, hvy⟩⟩ := y
  have h : (Float.ofModel ⟨⟨x⟩, hvx⟩).toModel.unpack = (Float.ofModel ⟨⟨y⟩, hvy⟩).toModel.unpack :=
    hx.unpack_eq.trans hy.unpack_eq.symm
  cases (unpack_inj_of_valid hvx hvy).1 h
  rfl

theorem neg (h : IsWhole s n x) : IsWhole (-s) n (-x) := by
  show IsWhole (-s) n ⟨.pack x.toModel.unpack.neg⟩
  rw [h.unpack_eq]
  exact isWhole_pack (-s) h.pos h.lt

theorem mul_one (h : IsWhole s n x) : IsWhole s n (x * 1) := by
  have hround := round_exact s (k := 52) (e := exponent n + exponent 1) (significand_pos h.pos)
    (log2_significand h.pos h.lt) (by simp only [exponent]; omega)
  have hexponent : exponent n + exponent 1 + (52 : Nat) = exponent n := by
    simp only [exponent, show Nat.log2 1 = 0 by decide]
    omega
  have hmul : UnpackedFloat.mul Format.binary64 x.toModel.unpack (1 : Float).toModel.unpack =
      .finite s (significand n) (exponent n) (significand_pos h.pos) := by
    rw [h.unpack_eq, isWhole_one.unpack_eq]
    show roundWithAccuracy Format.binary64 (s * .positive) (significand n * significand 1) _ _ = _
    rw [show s * .positive = s by cases s <;> rfl, show significand 1 = 2 ^ 52 by decide, hround]
    exact finite_congr rfl rfl hexponent
  show IsWhole s n ⟨.pack (.mul Format.binary64 x.toModel.unpack (1 : Float).toModel.unpack)⟩
  rw [hmul]
  exact isWhole_pack s h.pos h.lt

end IsWhole

theorem isWhole_ofNat {n : Nat} (h : 0 < n) (hn : n < 2 ^ 53) :
    IsWhole .positive n (Float.ofNat n) := by
  have hword : n.toUInt64.toNat = n := by
    show n % UInt64.size = n
    exact Nat.mod_eq_of_lt (Nat.lt_trans hn (by decide))
  have hfloat : IsWhole .positive n n.toUInt64.toFloat := by
    show IsWhole .positive n
      ⟨.pack (UnpackedFloat.normalize Format.binary64 n.toUInt64.toNat 0 .positive)⟩
    rw [hword, UnpackedFloat.normalize, Int.compare_eq_gt.2 (by omega)]
    simp only [Int.toNat_natCast, round_whole h hn]
    exact isWhole_pack .positive h hn
  show IsWhole .positive n (Float.ofScientific n false 0)
  rw [Float.ofScientific, dif_pos ⟨hn, by decide⟩]
  exact hfloat.mul_one

/-! ## Division that comes out even -/

theorem log2_mul_le {n d : Nat} (hn : 0 < n) (hd : 0 < d) :
    (n * d).log2 ≤ 1 + n.log2 + d.log2 := by
  have hproduct : n * d < 2 ^ (2 + n.log2 + d.log2) := by
    rw [show 2 + n.log2 + d.log2 = (n.log2 + 1) + (d.log2 + 1) by omega, Nat.pow_add]
    exact Nat.mul_lt_mul'' Nat.lt_log2_self Nat.lt_log2_self
  have hlog := (Nat.log2_lt (Nat.pos_iff_ne_zero.1 (Nat.mul_pos hn hd))).2 hproduct
  omega

section
variable {n d : Nat} (hn : 0 < n) (hx : n * d < 2 ^ 53) (hd : 0 < d)
include hn hx hd

/-- The dividend with as many places as the division keeps, divided. -/
theorem significand_mul_shift :
    significand (n * d) <<< 53 =
      significand n * 2 ^ (1 + n.log2 + d.log2 - (n * d).log2) * significand d := by
  have hlog := log2_lt hn (Nat.lt_of_le_of_lt (Nat.le_mul_of_pos_right n hd) hx)
  have hdlog := log2_lt hd (Nat.lt_of_le_of_lt (Nat.le_mul_of_pos_left d hn) hx)
  have hxlog := log2_lt (Nat.mul_pos hn hd) hx
  have hproduct := log2_mul_le hn hd
  have hpowers : (52 - (n * d).log2) + 53 = (52 - n.log2) +
      (1 + n.log2 + d.log2 - (n * d).log2) + (52 - d.log2) := by omega
  rw [Nat.shiftLeft_eq, significand, significand, significand, Nat.mul_assoc, ← Nat.pow_add,
    hpowers, Nat.pow_add, Nat.pow_add]
  ac_rfl

theorem divCore_exact :
    divCore Format.binary64 (significand (n * d)) (exponent (n * d)) (significand d) (exponent d) =
      (significand n * 2 ^ (1 + n.log2 + d.log2 - (n * d).log2),
        exponent (n * d) - exponent d - 53, .exact) := by
  have hdlt := Nat.lt_of_le_of_lt (Nat.le_mul_of_pos_left d hn) hx
  have hdlog := log2_lt hd hdlt
  have hxlog := log2_lt (Nat.mul_pos hn hd) hx
  have htarget : Format.binary64.targetExponent
      (totalExponent (significand (n * d)) (exponent (n * d)) -
        totalExponent (significand d) (exponent d)) =
      exponent (n * d) - exponent d - 53 := by
    simp only [totalExponent, log2_significand (Nat.mul_pos hn hd) hx, log2_significand hd hdlt]
    show max (((52 : Nat) : Int) + 1 + exponent (n * d) - ((52 : Nat) + 1 + exponent d) -
      (53 : Nat)) (-1074) = _
    simp only [exponent]
    omega
  have hmin : min (exponent (n * d) - exponent d) (exponent (n * d) - exponent d - 53) =
      exponent (n * d) - exponent d - 53 := by omega
  have hshift : (exponent (n * d) - exponent d - (exponent (n * d) - exponent d - 53)).toNat =
      53 := by omega
  simp only [divCore, htarget, hmin, hshift, significand_mul_shift hn hx hd]
  rw [Nat.mul_div_cancel _ (significand_pos hd), Nat.mul_mod_left]
  rfl

end

theorem IsWhole.div {s : Sign} {n d : Nat} {x y : Float} (hn : 0 < n)
    (hx : IsWhole s (n * d) x) (hy : IsWhole .positive d y) : IsWhole s n (x / y) := by
  have hlt : n < 2 ^ 53 := Nat.lt_of_le_of_lt (Nat.le_mul_of_pos_right n hy.pos) hx.lt
  have hlog := log2_lt hn hlt
  have hdlog := log2_lt hy.pos hy.lt
  have hproduct := log2_mul_le hn hy.pos
  have hround := round_exact s (k := 1 + n.log2 + d.log2 - (n * d).log2)
    (e := exponent (n * d) - exponent d - 53) (significand_pos hn) (log2_significand hn hlt) (by
      simp only [exponent]
      omega)
  have hdiv : UnpackedFloat.div Format.binary64 x.toModel.unpack y.toModel.unpack =
      .finite s (significand n) (exponent n) (significand_pos hn) := by
    rw [hx.unpack_eq, hy.unpack_eq]
    simp only [UnpackedFloat.div, divCore_exact hn hx.lt hy.pos]
    rw [show s / .positive = s by cases s <;> rfl, hround]
    refine finite_congr rfl rfl ?_
    simp only [exponent]
    omega
  show IsWhole s n ⟨.pack (.div Format.binary64 x.toModel.unpack y.toModel.unpack)⟩
  rw [hdiv]
  exact isWhole_pack s hn hlt

/-! ## Bits -/

namespace IsWhole

variable {s : Sign} {n : Nat} {x : Float} (h : IsWhole s n x)
include h

theorem significand_bounds : 2 ^ 52 ≤ significand n ∧ significand n < 2 ^ 53 :=
  (Nat.log2_eq_iff (Nat.pos_iff_ne_zero.1 (significand_pos h.pos))).1 (log2_significand h.pos h.lt)

/-- The bits of a whole number: its sign, its exponent, and its significand without the leading
place. -/
theorem toNat_toBits :
    x.toBits.toNat = s.toBitVec.toNat * 2 ^ 63 + (n.log2 + 1023) * 2 ^ 52 +
      (significand n - 2 ^ 52) := by
  have hlog := log2_lt h.pos h.lt
  obtain ⟨hlow, hhigh⟩ := h.significand_bounds
  have hbits : x.toBits.toBitVec = packComponents Format.binary64 s
      (BitVec.ofNat 11 (exponent n + 1075).toNat) (BitVec.ofNat 52 (significand n)) := by
    rw [← pack_normal s (significand_pos h.pos) (log2_significand h.pos h.lt)
      (by simp only [exponent]; omega), ← h.unpack_eq]
    exact (pack_unpack_of_valid x.toModel.valid).symm
  have hexponent : (exponent n + 1075).toNat = n.log2 + 1023 := by
    simp only [exponent]
    omega
  show x.toBits.toBitVec.toNat = _
  rw [hbits, hexponent]
  show (s.toBitVec ++ BitVec.ofNat 11 (n.log2 + 1023) ++ BitVec.ofNat 52 (significand n)).toNat = _
  rw [BitVec.toNat_append, ← Nat.shiftLeft_add_eq_or_of_lt (BitVec.isLt _), BitVec.toNat_append,
    ← Nat.shiftLeft_add_eq_or_of_lt (BitVec.isLt _), BitVec.toNat_ofNat, BitVec.toNat_ofNat,
    Nat.shiftLeft_eq, Nat.shiftLeft_eq, Nat.mod_eq_of_lt (by omega : n.log2 + 1023 < 2 ^ 11)]
  omega

/-- The magnitude of a whole number, as it is taken apart to be written. -/
theorem ofBits_eq : ∃ narrow, Binary.ofBits x.toBits = ⟨significand n, exponent n, narrow⟩ := by
  have hlog := log2_lt h.pos h.lt
  obtain ⟨hlow, hhigh⟩ := h.significand_bounds
  have hfield : ((x.toBits >>> 52) &&& 0x7FF).toNat = n.log2 + 1023 := by
    rw [UInt64.toNat_and, UInt64.toNat_shiftRight, h.toNat_toBits]
    show _ >>> 52 &&& 2 ^ 11 - 1 = _
    rw [Nat.and_two_pow_sub_one_eq_mod, Nat.shiftRight_eq_div_pow]
    omega
  have hfraction : (x.toBits &&& 0xFFFFFFFFFFFFF).toNat = significand n - 2 ^ 52 := by
    rw [UInt64.toNat_and, h.toNat_toBits]
    show _ &&& 2 ^ 52 - 1 = _
    rw [Nat.and_two_pow_sub_one_eq_mod]
    omega
  have hsignificand : 0x10000000000000 + (significand n - 2 ^ 52) = significand n := by omega
  have hexponent : ((n.log2 + 1023 : Nat) : Int) - 1075 = exponent n := by
    simp only [exponent]
    omega
  rw [Binary.ofBits, hfield, hfraction, if_neg (by omega), hsignificand, hexponent]
  exact ⟨_, rfl⟩

theorem shift_toBits_eq_one : x.toBits >>> 63 = 1 ↔ s = .negative := by
  have hlog := log2_lt h.pos h.lt
  obtain ⟨hlow, hhigh⟩ := h.significand_bounds
  have hshift : (x.toBits >>> 63).toNat = s.toBitVec.toNat := by
    have hlt := s.toBitVec.isLt
    rw [UInt64.toNat_shiftRight, h.toNat_toBits]
    show _ >>> 63 = _
    rw [Nat.shiftRight_eq_div_pow]
    omega
  rw [← UInt64.toNat_inj, hshift]
  cases s with
  | positive => exact iff_of_false (by decide) nofun
  | negative => exact iff_of_true rfl rfl

end IsWhole

end LadderDiagram.Decimal
