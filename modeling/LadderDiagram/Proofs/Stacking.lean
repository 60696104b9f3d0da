import LadderDiagram.Proofs.Decimal.Sum
import LadderDiagram.Proofs.Lowering

/-!
# Rungs one below the other

The offset of a rung is that of the first, advanced over the heights of the rungs above
(`Offset.getElem?_stack`). To advance adds a finite number that is not negative, whatever the height
is, and by the laws of binary64 such a sum is a number and does not fall below the offset
(`Offset.le_advance`).
-/

namespace LadderDiagram

open Decimal (float_le_trans float_le_self float_le_of_lt isNaN_of_le le_add)

namespace Offset

variable {o : Offset}

theorem bandHeight_of_counts {height : Float} (h : height.isFinite = true ∧ 0 < height) :
    bandHeight height = height := by
  rw [bandHeight, h.1, decide_eq_true h.2]
  rfl

theorem bandHeight_of_not_counts {height : Float} (h : ¬ (height.isFinite = true ∧ 0 < height)) :
    bandHeight height = 0 := by
  refine if_neg fun hcounts => h ?_
  rwa [Bool.and_eq_true, decide_eq_true_eq] at hcounts

/-- Whatever the height is, a finite number that is not negative is added. -/
theorem bandHeight_nonneg (height : Float) :
    0 ≤ bandHeight height ∧ (bandHeight height).isFinite = true := by
  by_cases h : height.isFinite = true ∧ 0 < height
  · rw [bandHeight_of_counts h]
    exact ⟨float_le_of_lt h.2, h.1⟩
  · rw [bandHeight_of_not_counts h]
    decide +kernel

theorem le_advance (h : 0 ≤ o.y) (height : Float) : o.y ≤ (o.advance height).y := by
  obtain ⟨hnonneg, hfinite⟩ := bandHeight_nonneg height
  exact le_add h hnonneg hfinite

theorem le_of_mem_stack {o' : Offset} {heights : List Float} (h : 0 ≤ o.y)
    (ho' : o' ∈ o.stack heights) : o.y ≤ o'.y := by
  induction heights generalizing o with
  | nil => cases ho'
  | cons height rest ih =>
    have hle := le_advance h height
    rcases List.mem_cons.1 ho' with rfl | ho'
    · exact float_le_self h
    · exact float_le_trans hle (ih (float_le_trans h hle) ho')

theorem pairwise_stack {heights : List Float} (h : 0 ≤ o.y) :
    (o.stack heights).Pairwise (·.y ≤ ·.y) := by
  induction heights generalizing o with
  | nil => exact .nil
  | cons height rest ih =>
    have hle := le_advance h height
    have hnext := float_le_trans h hle
    exact .cons (fun o' ho' => float_le_trans hle (le_of_mem_stack hnext ho')) (ih hnext)

theorem getElem?_stack (o : Offset) (heights : List Float) (k : Nat) :
    (o.stack heights)[k]? = heights[k]?.map fun _ => (heights.take k).foldl advance o := by
  induction heights generalizing o k with
  | nil => rfl
  | cons height rest ih =>
    cases k with
    | zero => rfl
    | succ k => exact ih (o.advance height) k

theorem getElem?_ofRungs {rungs : List Rung} {k : Nat} (h : k < rungs.length) :
    (ofRungs rungs)[k]? = some (((rungs.take k).map (·.height)).foldl advance zero) := by
  rw [ofRungs, getElem?_stack, List.getElem?_map, List.getElem?_eq_getElem h, List.map_take]
  rfl

theorem advance_ofRungs {rungs : List Rung} {k : Nat} {r : Rung} {o' : Offset}
    (hr : rungs[k]? = some r) (ho : (ofRungs rungs)[k]? = some o)
    (ho' : (ofRungs rungs)[k + 1]? = some o') : o' = o.advance r.height := by
  obtain ⟨hk, -⟩ := List.getElem?_eq_some_iff.1 hr
  obtain ⟨hk', -⟩ := List.getElem?_eq_some_iff.1 ho'
  rw [length_ofRungs] at hk'
  rw [getElem?_ofRungs hk, Option.some.injEq] at ho
  rw [getElem?_ofRungs hk', Option.some.injEq] at ho'
  rw [← ho', ← ho, List.take_add_one, hr, List.map_append, List.foldl_append]
  rfl

/-- **No offset is further up than the one before.** There is an offset for each rung, the first is
zero, and from one to the next the height of the rung is added if it is finite and positive, else
nothing. Rungs further down have no influence. The offsets are numbers that are not negative and do
not decrease. -/
theorem offsets_never_decrease (rungs : List Rung) :
    let offsets := ofRungs rungs
    offsets.length = rungs.length ∧
      (∀ o, offsets[0]? = some o → o = zero) ∧
      (∀ (k : Nat) (r : Rung) (o o' : Offset), rungs[k]? = some r → offsets[k]? = some o →
        offsets[k + 1]? = some o' →
        (r.height.isFinite = true ∧ 0 < r.height → o'.y = o.y + r.height) ∧
          (¬ (r.height.isFinite = true ∧ 0 < r.height) → o'.y = o.y + 0)) ∧
      (∀ (rungs' : List Rung) (k : Nat), k < rungs.length → k < rungs'.length →
        (rungs.take k).map (·.height) = (rungs'.take k).map (·.height) →
        offsets[k]? = (ofRungs rungs')[k]?) ∧
      offsets.Pairwise (·.y ≤ ·.y) ∧ ∀ o ∈ offsets, 0 ≤ o.y ∧ o.y.isNaN = false := by
  intro offsets
  have hzero : 0 ≤ zero.y := by decide +kernel
  refine ⟨length_ofRungs rungs, fun o ho => ?_, fun k r o o' hr ho ho' => ?_,
    fun rungs' k hk hk' heights => ?_, pairwise_stack hzero, fun o ho => ?_⟩
  · obtain ⟨hk, -⟩ := List.getElem?_eq_some_iff.1 ho
    rw [length_ofRungs] at hk
    rw [getElem?_ofRungs hk] at ho
    exact (Option.some.inj ho).symm
  · rw [advance_ofRungs hr ho ho', advance]
    exact ⟨fun h => by rw [bandHeight_of_counts h], fun h => by rw [bandHeight_of_not_counts h]⟩
  · rw [getElem?_ofRungs hk, getElem?_ofRungs hk', heights]
  · have hle := le_of_mem_stack hzero ho
    exact ⟨hle, isNaN_of_le hle⟩

/-- Rungs with heights of all kinds. Two of them are so great that their sum is infinite. -/
def unevenRungs : List Rung :=
  [120, -30, 0 / 0, 1 / 0, 1.7e308, 1.7e308, 40].map fun height => { height }

theorem unevenRungs_never_decrease :
    let offsets := ofRungs unevenRungs
    offsets.map (·.y) = [0, 120, 120, 120, 120, 1.7e308, 1 / 0] ∧
      (⟨0⟩ : Offset) = zero ∧ (1.7e308 : Float) = 120 + 1.7e308 ∧ (120 : Float) = 120 + 0 ∧
      offsets[3]? = (ofRungs (unevenRungs.take 4))[3]? ∧
      offsets.Pairwise (·.y ≤ ·.y) ∧ ∀ o ∈ offsets, 0 ≤ o.y ∧ o.y.isNaN = false := by
  intro offsets
  obtain ⟨-, hfirst, hstep, habove, hsorted, hnumbers⟩ := offsets_never_decrease unevenRungs
  obtain ⟨hgreat, -⟩ := hstep 4 { height := 1.7e308 } ⟨120⟩ ⟨1.7e308⟩ (by decide +kernel)
    (by decide +kernel) (by decide +kernel)
  obtain ⟨-, hnone⟩ := hstep 2 { height := 0 / 0 } ⟨120⟩ ⟨120⟩ (by decide +kernel)
    (by decide +kernel) (by decide +kernel)
  have htop := habove (unevenRungs.take 4) 3 (by decide) (by decide) (by decide +kernel)
  exact ⟨by decide +kernel, hfirst ⟨0⟩ (by decide +kernel), hgreat (by decide +kernel),
    hnone (by decide +kernel), htop, hsorted, hnumbers⟩

end Offset

end LadderDiagram
