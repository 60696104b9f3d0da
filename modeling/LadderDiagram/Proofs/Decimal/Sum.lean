import LadderDiagram.Proofs.Snapshot.Binary64

/-!
# Sums in binary64

Of two numbers that are not negative the greater has the greater exponent, or the same exponent and
the greater significand, because a significand is shifted up as far as it goes (`IsCanonical`). So
the order is that of a `rank`, and it is transitive. To add a finite number that is not negative to
such a number gives no smaller one (`le_add`): the sum is rounded to an exponent no smaller than
that of the first, and if to the same, then to a significand no smaller.
-/

namespace LadderDiagram.Decimal

open Float.Model Float.Model.UnpackedFloat

/-! ## Order -/

/-- Where a number stands among the others: below or above zero, finite or not, then its exponent
and its significand. -/
def rank : UnpackedFloat → ℤ ×ₗ ℤ ×ₗ ℤ
  | .infinity .negative => toLex (-2, toLex (0, 0))
  | .finite .negative m e _ => toLex (-1, toLex (-e, -m))
  | .zero _ | .notANumber => toLex (0, toLex (0, 0))
  | .finite .positive m e _ => toLex (1, toLex (e, m))
  | .infinity .positive => toLex (2, toLex (0, 0))

theorem isLE_lex (e e' : Int) (m m' : Nat) :
    ((compare e e').then (compare m m')).isLE = true ↔ e < e' ∨ e = e' ∧ m ≤ m' := by
  rw [Ordering.isLE_then_iff_or, Int.compare_eq_lt, Int.compare_eq_eq, Std.isLE_compare]

theorem isGE_lex (e e' : Int) (m m' : Nat) :
    ((compare e e').then (compare m m')).isGE = true ↔ e' < e ∨ e = e' ∧ m' ≤ m := by
  rw [← Ordering.isLE_swap, Ordering.swap_then, Int.compare_swap, Nat.compare_swap, isLE_lex,
    eq_comm]

/-- Numbers are compared as their ranks. -/
theorem le_iff_rank {a b : UnpackedFloat} :
    a.le b = true ↔ a ≠ .notANumber ∧ b ≠ .notANumber ∧ rank a ≤ rank b := by
  rcases a with ⟨_ | _⟩ | _ | _ | ⟨_ | _, m, e, _⟩ <;>
    rcases b with ⟨_ | _⟩ | _ | _ | ⟨_ | _, m', e', _⟩ <;>
    simp [UnpackedFloat.le, UnpackedFloat.compare, rank, Prod.Lex.toLex_le_toLex, isLE_lex,
      isGE_lex]
  all_goals decide

/-! ## Canonical form -/

/-- The exponent to which a number is rounded: its significand then has 53 places, or fewer if there
is no smaller exponent. -/
def place (m : Nat) (e : Int) : Int := max (m.log2 + e - 52) (-1074)

/-- The exponent is the one to which the number is rounded. -/
def IsCanonical (m : Nat) (e : Int) : Prop := place m e = e

theorem targetExponent_eq (m : Nat) (e : Int) :
    Format.binary64.targetExponent (totalExponent m e) = place m e := by
  show max ((m.log2 : Int) + 1 + e - (53 : Nat)) (-1074) = max (m.log2 + e - 52) (-1074)
  omega

/-- A significand with its leading place put back has 53 places. -/
theorem log2_one_append (v : BitVec 52) : (1#1 ++ v).toNat.log2 = 52 := by
  have hv := v.isLt
  have heq : (1#1 ++ v).toNat = 2 ^ 52 + v.toNat := by
    rw [BitVec.toNat_append, ← Nat.shiftLeft_add_eq_or_of_lt hv]
    rfl
  rw [heq, Nat.log2_eq_iff (by omega)]
  omega

/-- A word stands for a number in canonical form. -/
theorem isCanonical_of_unpack {b : BitVec Format.binary64.numBits} {s : Sign} {m : Nat} {e : Int}
    {hp : 0 < m} (h : UnpackedFloat.unpack Format.binary64 b = .finite s m e hp) :
    IsCanonical m e := by
  have hbias : (Format.binary64.exponentBias : Int) = 1023 := rfl
  have hplaces : (Format.binary64.mantissaBitsWithoutImplicit : Int) = 52 := rfl
  simp only [UnpackedFloat.unpack] at h
  unfold IsCanonical place
  split at h
  · split at h <;> cases h
  split at h
  · rename_i hexponent
    split at h
    · cases h
    · injection h with _ hm he
      have hlt := (unpackMantissa b).isLt
      have hlog : m.log2 < 52 := (Nat.log2_lt hp.ne').2 (hm ▸ hlt)
      have hzero : (unpackExponent b).toNat = 0 := by
        rw [hexponent]
        rfl
      omega
  · rename_i hexponent
    injection h with _ hm he
    have hlog : m.log2 = 52 := hm ▸ log2_one_append _
    have hpos : (unpackExponent b).toNat ≠ 0 := fun h =>
      hexponent (BitVec.eq_of_toNat_eq h)
    omega

theorem unpack_pack_subnormal (s : Sign) {m : Nat} (hp : 0 < m) (hm : m.log2 < 52) :
    (Float.Model.pack (.finite s m (-1074) hp)).unpack = .finite s m (-1074) hp := by
  have hlt : m < 2 ^ 52 := (Nat.log2_lt hp.ne').1 hm
  have hkept : (BitVec.ofNat 52 m).toNat = m := Nat.mod_eq_of_lt hlt
  have hzero : BitVec.ofNat 52 m ≠ 0#52 := by
    intro h
    rw [h] at hkept
    exact hp.ne hkept
  have hplaces : ¬ m.log2 + 1 = Format.binary64.mantissaBits := by
    show ¬ m.log2 + 1 = 53
    omega
  have hpack : UnpackedFloat.pack Format.binary64 (.finite s m (-1074) hp) =
      packComponents Format.binary64 s 0#11 (BitVec.ofNat 52 m) := by
    simp only [UnpackedFloat.pack]
    rw [if_neg (by decide), if_neg hplaces]
  show UnpackedFloat.unpack _ (UnpackedFloat.pack _ _) = _
  rw [hpack]
  simp only [UnpackedFloat.unpack, unpackExponent_packComponents, unpackMantissa_packComponents,
    unpackSign_packComponents, Sign.ofBitVec_toBitVec]
  rw [if_neg (by decide), if_pos trivial, dif_neg hzero]
  exact finite_congr rfl hkept rfl

theorem unpack_pack_overflow (s : Sign) {m : Nat} {e : Int} (hp : 0 < m) (he : 971 < e) :
    (Float.Model.pack (.finite s m e hp)).unpack = .infinity s := by
  have hpack : UnpackedFloat.pack Format.binary64 (.finite s m e hp) =
      packedInfinity Format.binary64 s := by
    simp only [UnpackedFloat.pack]
    refine if_pos ?_
    show 2 ^ 11 ≤ (e + (1023 : Nat) + (52 : Nat)).toNat + 1
    omega
  show UnpackedFloat.unpack _ (UnpackedFloat.pack _ _) = _
  rw [hpack]
  cases s <;> rfl

/-- Packed, a number in canonical form is kept, unless it is too great. -/
theorem unpack_pack_canonical (s : Sign) {m : Nat} {e : Int} (hp : 0 < m) (h : IsCanonical m e) :
    (Float.Model.pack (.finite s m e hp)).unpack =
      if e ≤ 971 then .finite s m e hp else .infinity s := by
  unfold IsCanonical place at h
  split
  · rename_i he
    by_cases hm : m.log2 = 52
    · exact unpack_pack_normal s hp hm (by omega) he
    · obtain rfl : e = -1074 := by omega
      exact unpack_pack_subnormal s hp (by omega)
  · rename_i he
    exact unpack_pack_overflow s hp (not_le.1 he)

/-! ## Rounding -/

theorem mantissa_shift (m k : Nat) (half rest : Bool) :
    (ExtendedMantissa.mk m half rest >>> k).mantissa = m / 2 ^ k := by
  show (Nat.repeat ExtendedMantissa.shiftRightOne k _).mantissa = _
  induction k with
  | zero =>
    rw [Nat.pow_zero, Nat.div_one]
    rfl
  | succ k ih =>
    show (Nat.repeat ExtendedMantissa.shiftRightOne k _).mantissa / 2 = _
    rw [ih, Nat.div_div_eq_div_mul, Nat.pow_succ]

theorem roundedMantissa_bounds (em : ExtendedMantissa) :
    em.mantissa ≤ em.roundedMantissa ∧ em.roundedMantissa ≤ em.mantissa + 1 := by
  obtain ⟨m, _ | _, _ | _⟩ := em <;>
    simp [ExtendedMantissa.roundedMantissa, ExtendedMantissa.accuracy,
      Accuracy.roundToNearestEven]
  omega

/-- A significand is shifted to the place of its number. -/
theorem shiftToTarget_place {m : Nat} {e : Int} (he : e ≤ place m e) :
    shiftToTargetExponent Format.binary64 m e .exact =
      (ExtendedMantissa.mk m false false >>> (place m e - e).toNat, place m e) := by
  have hexponent : e + ((place m e - e).toNat : Int) = place m e := by omega
  simp only [shiftToTargetExponent, targetExponent_eq]
  show (ExtendedMantissa.mk m false false >>> (place m e - e).toNat,
    e + ((place m e - e).toNat : Int)) = _
  rw [hexponent]

theorem roundWithAccuracy_eq (s : Sign) {m : Nat} {e t e' : Int} {em em' : ExtendedMantissa}
    (hp : 0 < em'.mantissa)
    (hfirst : shiftToTargetExponent Format.binary64 m e .exact = (em, t))
    (hnext : shiftToTargetExponent Format.binary64 em.roundedMantissa t .exact = (em', e')) :
    roundWithAccuracy Format.binary64 s m e .exact = .finite s em'.mantissa e' hp := by
  simp only [roundWithAccuracy, hfirst, hnext]
  exact dif_neg hp.ne'

/-- A significand of 53 places has one place more if it was rounded up to `2 ^ 53`; then one more
shift brings it into canonical form. -/
theorem isCanonical_shift {q : Nat} {t : Int} (hq : 0 < q) (hle : q ≤ 2 ^ 53) (ht : -1074 ≤ t)
    (hfull : 2 ^ 52 ≤ q ∨ t = -1074) :
    (place q t = t ∨ place q t = t + 1) ∧ 0 < q / 2 ^ (place q t - t).toNat ∧
      IsCanonical (q / 2 ^ (place q t - t).toNat) (place q t) := by
  rcases Nat.lt_or_eq_of_le hle with hlt | rfl
  · have hlog : q.log2 < 53 := (Nat.log2_lt hq.ne').2 hlt
    have hplace : place q t = t := by
      have hlow : 2 ^ 52 ≤ q → 52 ≤ q.log2 := (Nat.le_log2 hq.ne').2
      unfold place
      omega
    simpa [IsCanonical, hplace] using hq
  · have hlog : Nat.log2 (2 ^ 53) = 53 := Nat.log2_two_pow
    have hplace : place (2 ^ 53) t = t + 1 := by
      rw [place, hlog]
      omega
    have hlog' : Nat.log2 (2 ^ 53 / 2 ^ 1) = 52 := by decide
    have hshift : (t + 1 - t).toNat = 1 := by omega
    rw [IsCanonical, hplace, hshift]
    refine ⟨.inr rfl, by decide, ?_⟩
    rw [place, hlog']
    omega

section
variable {m : Nat} {e : Int} (hm : 0 < m) (he : -1074 ≤ e) (hplace : e ≤ place m e)
include hm he hplace

/-- Shifted to its place, a significand has 53 places, or fewer if there is no smaller exponent. -/
theorem shifted_bounds : 0 < m / 2 ^ (place m e - e).toNat ∧
    m / 2 ^ (place m e - e).toNat < 2 ^ 53 ∧
      (2 ^ 52 ≤ m / 2 ^ (place m e - e).toNat ∨ place m e = -1074) := by
  have hhigh : m.log2 < 53 + (place m e - e).toNat := by
    unfold place at hplace ⊢
    omega
  have hlt : m / 2 ^ (place m e - e).toNat < 2 ^ 53 := by
    rw [Nat.div_lt_iff_lt_mul (Nat.two_pow_pos _), ← Nat.pow_add]
    exact (Nat.log2_lt hm.ne').1 hhigh
  by_cases hmin : place m e = -1074
  · have hshift : (place m e - e).toNat = 0 := by omega
    rw [hshift, Nat.pow_zero, Nat.div_one] at hlt ⊢
    exact ⟨hm, hlt, .inr hmin⟩
  · have hlow : 52 + (place m e - e).toNat ≤ m.log2 := by
      unfold place at hplace hmin ⊢
      omega
    have hfull : 2 ^ 52 ≤ m / 2 ^ (place m e - e).toNat := by
      rw [Nat.le_div_iff_mul_le (Nat.two_pow_pos _), ← Nat.pow_add]
      exact (Nat.le_log2 hm.ne').1 hlow
    exact ⟨Nat.lt_of_lt_of_le (by decide) hfull, hlt, .inl hfull⟩

/-- A number is rounded to the exponent of its place, and then to a significand no smaller than its
own, cut off there, or else to a greater exponent. -/
theorem round_canonical (s : Sign) : ∃ m' e' hp,
    roundWithAccuracy Format.binary64 s m e .exact = .finite s m' e' hp ∧ IsCanonical m' e' ∧
      (place m e < e' ∨ place m e = e' ∧ m / 2 ^ (place m e - e).toNat ≤ m') := by
  obtain ⟨hpos, hlt, hfull⟩ := shifted_bounds hm he hplace
  obtain ⟨hlow, hhigh⟩ := roundedMantissa_bounds
    (ExtendedMantissa.mk m false false >>> (place m e - e).toNat)
  rw [mantissa_shift] at hlow hhigh
  obtain ⟨hup, hq, hcanonical⟩ := isCanonical_shift (t := place m e) (Nat.lt_of_lt_of_le hpos hlow)
    (Nat.le_trans hhigh hlt) (he.trans hplace) (hfull.imp_left (·.trans hlow))
  rw [← mantissa_shift _ _ false false] at hq hcanonical
  refine ⟨_, _, hq, roundWithAccuracy_eq s hq (shiftToTarget_place hplace)
    (shiftToTarget_place (by omega)), hcanonical, ?_⟩
  rcases hup with hsame | hup
  · rw [mantissa_shift, hsame, Int.sub_self, Int.toNat_zero, Nat.pow_zero, Nat.div_one]
    exact .inr ⟨rfl, hlow⟩
  · exact .inl (by omega)

end

/-! ## Sums -/

section
variable {m₁ m₂ : Nat} {e₁ e₂ : Int} (hp₁ : 0 < m₁) (hp₂ : 0 < m₂)

theorem decreaseExponent_eq (m : Nat) {e t : Int} (h : t ≤ e) :
    decreaseExponent m e t = (m * 2 ^ (e - t).toNat, t) := by
  have hexponent : e - ((e - t).toNat : Int) = t := by omega
  rw [decreaseExponent, Nat.shiftLeft_eq]
  exact congrArg _ hexponent

/-- Two positive numbers are added at the smaller exponent, and the sum is rounded. -/
theorem add_finite :
    UnpackedFloat.add Format.binary64 (.finite .positive m₁ e₁ hp₁) (.finite .positive m₂ e₂ hp₂) =
      UnpackedFloat.round Format.binary64 .positive
        (m₁ * 2 ^ (e₁ - min e₁ e₂).toNat + m₂ * 2 ^ (e₂ - min e₁ e₂).toNat) (min e₁ e₂) := by
  simp only [UnpackedFloat.add, decreaseExponent_eq _ (Int.min_le_left ..),
    decreaseExponent_eq _ (Int.min_le_right ..)]
  show UnpackedFloat.normalize _ ((_ : Nat) + (_ : Nat) : Int) _ _ = _
  rw [← Int.natCast_add, UnpackedFloat.normalize, Int.compare_eq_gt.2]
  · rfl
  · have := Nat.mul_pos hp₁ (Nat.two_pow_pos (e₁ - min e₁ e₂).toNat)
    omega

theorem add_finite_canonical (h₁ : IsCanonical m₁ e₁) (h₂ : IsCanonical m₂ e₂) : ∃ m e hp,
    UnpackedFloat.add Format.binary64 (.finite .positive m₁ e₁ hp₁) (.finite .positive m₂ e₂ hp₂) =
      .finite .positive m e hp ∧ IsCanonical m e ∧ (e₁ < e ∨ e₁ = e ∧ m₁ ≤ m) := by
  have hlow₁ : -1074 ≤ e₁ := h₁ ▸ Int.le_max_right ..
  have hlow₂ : -1074 ≤ e₂ := h₂ ▸ Int.le_max_right ..
  rw [add_finite]
  generalize ht : min e₁ e₂ = t
  generalize hm : m₁ * 2 ^ (e₁ - t).toNat + m₂ * 2 ^ (e₂ - t).toNat = m
  have hpos : 0 < m₁ * 2 ^ (e₁ - t).toNat := Nat.mul_pos hp₁ (Nat.two_pow_pos _)
  have hle : m₁ * 2 ^ (e₁ - t).toNat ≤ m := by omega
  have hlog : m₁.log2 + (e₁ - t).toNat ≤ m.log2 := by
    rw [← log2_mul_two_pow hp₁, Nat.le_log2 (by omega)]
    exact (Nat.log2_self_le hpos.ne').trans hle
  -- the sum has its leading place no further down than the first number, so it is not rounded below
  -- the exponent of that
  have hplace : e₁ ≤ place m t := by
    unfold IsCanonical place at h₁
    unfold place
    omega
  have hround : UnpackedFloat.round Format.binary64 .positive m t =
      roundWithAccuracy Format.binary64 .positive m t .exact := by
    have hshift : (t - place m t).toNat = 0 := by omega
    rw [UnpackedFloat.round, targetExponent_eq, decreaseExponent, hshift, Nat.shiftLeft_zero]
    show roundWithAccuracy Format.binary64 .positive m (t - 0) .exact = _
    rw [Int.sub_zero]
  obtain ⟨m', e', hp', heq, hcanonical, habove⟩ :=
    round_canonical (Nat.lt_of_lt_of_le hpos hle) (by omega : -1074 ≤ t) (by omega) .positive
  refine ⟨m', e', hp', hround.trans heq, hcanonical, ?_⟩
  rcases habove with hlt | ⟨rfl, hcut⟩
  · exact .inl (by omega)
  rcases Int.lt_or_eq_of_le hplace with hlt | hsame
  · exact .inl hlt
  · refine .inr ⟨hsame, Nat.le_trans ?_ hcut⟩
    rw [← hsame, Nat.le_div_iff_mul_le (Nat.two_pow_pos _)]
    exact hle

end

/-! ## Numbers -/

section
variable {x y z : Float}

theorem float_le_iff : x ≤ y ↔ x.toModel.unpack.le y.toModel.unpack = true := decide_eq_true_iff

theorem float_le_of_lt (h : x < y) : x ≤ y := by
  have hlt : x.toModel.unpack.lt y.toModel.unpack = true := of_decide_eq_true h
  rw [UnpackedFloat.lt, beq_iff_eq] at hlt
  rw [float_le_iff, UnpackedFloat.le, hlt]
  rfl

theorem float_le_trans (hxy : x ≤ y) (hyz : y ≤ z) : x ≤ z := by
  obtain ⟨hx, -, hxy⟩ := le_iff_rank.1 (float_le_iff.1 hxy)
  obtain ⟨-, hz, hyz⟩ := le_iff_rank.1 (float_le_iff.1 hyz)
  exact float_le_iff.2 (le_iff_rank.2 ⟨hx, hz, hxy.trans hyz⟩)

theorem float_le_self (h : x ≤ y) : y ≤ y := by
  obtain ⟨-, hy, -⟩ := le_iff_rank.1 (float_le_iff.1 h)
  exact float_le_iff.2 (le_iff_rank.2 ⟨hy, hy, le_rfl⟩)

theorem isNaN_of_le (h : x ≤ y) : y.isNaN = false := by
  obtain ⟨-, hy, -⟩ := le_iff_rank.1 (float_le_iff.1 h)
  exact Bool.eq_false_iff.2 (mt isNaN_iff.1 hy)

theorem unpack_zero : (0 : Float).toModel.unpack = .zero .positive := by
  have h : (0 : Float) = ⟨.pack (.zero .positive)⟩ := by decide +kernel
  rw [h]
  rfl

theorem unpack_of_nonneg (h : 0 ≤ x) : (∃ s, x.toModel.unpack = .zero s) ∨
    (∃ m e hp, x.toModel.unpack = .finite .positive m e hp) ∨
      x.toModel.unpack = .infinity .positive := by
  have hle : (0 : Float).toModel.unpack.le x.toModel.unpack = true := float_le_iff.1 h
  rw [unpack_zero] at hle
  cases hu : x.toModel.unpack with
  | zero s => exact .inl ⟨s, rfl⟩
  | notANumber => rw [hu] at hle; cases hle
  | finite s m e hp =>
    cases s with
    | positive => exact .inr (.inl ⟨m, e, hp, rfl⟩)
    | negative => rw [hu] at hle; cases hle
  | infinity s =>
    cases s with
    | positive => exact .inr (.inr rfl)
    | negative => rw [hu] at hle; cases hle

theorem unpack_add (x y : Float) : (x + y).toModel.unpack = (Float.Model.pack
    (UnpackedFloat.add Format.binary64 x.toModel.unpack y.toModel.unpack)).unpack := rfl

theorem unpack_pack_unpack (x : Float.Model) : (Float.Model.pack x.unpack).unpack = x.unpack := by
  show UnpackedFloat.unpack _ (UnpackedFloat.pack _ x.unpack) = _
  exact congrArg _ (pack_unpack_of_valid x.valid)

theorem le_add_finite {m₁ m₂ : Nat} {e₁ e₂ : Int} {hp₁ : 0 < m₁} {hp₂ : 0 < m₂}
    (hx : x.toModel.unpack = .finite .positive m₁ e₁ hp₁)
    (hy : y.toModel.unpack = .finite .positive m₂ e₂ hp₂) : x ≤ x + y := by
  obtain ⟨m, e, hp, hadd, hcanonical, hbelow⟩ := add_finite_canonical hp₁ hp₂
    (isCanonical_of_unpack hx) (isCanonical_of_unpack hy)
  rw [float_le_iff, unpack_add, hx, hy, hadd, unpack_pack_canonical _ hp hcanonical]
  split
  · refine le_iff_rank.2 ⟨nofun, nofun, ?_⟩
    simpa [rank, Prod.Lex.toLex_le_toLex] using hbelow
  · rfl

/-- To add a finite number that is not negative to a number that is not negative gives no smaller
number. -/
theorem le_add (hx : 0 ≤ x) (hy : 0 ≤ y) (hfinite : y.isFinite = true) : x ≤ x + y := by
  have hkeep (h : UnpackedFloat.add Format.binary64 x.toModel.unpack y.toModel.unpack =
      x.toModel.unpack) : x ≤ x + y := by
    rw [float_le_iff, unpack_add, h, unpack_pack_unpack]
    exact float_le_iff.1 (float_le_self hx)
  rcases unpack_of_nonneg hy with ⟨s₂, hy⟩ | ⟨m₂, e₂, hp₂, hy⟩ | hy
  · rcases unpack_of_nonneg hx with ⟨s₁, hx⟩ | ⟨m₁, e₁, hp₁, hx⟩ | hx
    · rw [float_le_iff, unpack_add, hx, hy]
      cases s₁ <;> cases s₂ <;> rfl
    · exact hkeep (by rw [hx, hy]; rfl)
    · exact hkeep (by rw [hx, hy]; rfl)
  · rcases unpack_of_nonneg hx with ⟨s₁, hx⟩ | ⟨m₁, e₁, hp₁, hx⟩ | hx
    · have hadd : UnpackedFloat.add Format.binary64 x.toModel.unpack y.toModel.unpack =
          y.toModel.unpack := by rw [hx, hy]; rfl
      rw [float_le_iff, unpack_add, hadd, unpack_pack_unpack, hx, hy]
      rfl
    · exact le_add_finite hx hy
    · exact hkeep (by rw [hx, hy]; rfl)
  · have hinfinite : y.isFinite = y.toModel.unpack.isFinite := rfl
    rw [hinfinite, hy] at hfinite
    cases hfinite

end

end LadderDiagram.Decimal
