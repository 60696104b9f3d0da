import LadderDiagram.Proofs.Lowering

/-!
# Isolation of rungs

A list of rungs is lowered part by part: the part above ends at an offset, and the part below
begins there, whatever became of the rungs above. So where rails are not shared, a report is
that of the part above, followed by that of the part below.

`rung_isolated` compares two lists that differ in one rung.
-/

namespace LadderDiagram

namespace Report

def append (a b : Report) : Report where
  body := a.body ++ b.body
  warnings := a.warnings ++ b.warnings
  failures := a.failures ++ b.failures

instance : Append Report := ⟨append⟩

end Report

namespace Body

theorem mapInputs_append (f : InputSide → InputSide) (a b : Body) :
    (a ++ b).mapInputs f = a.mapInputs f ++ b.mapInputs f := by
  show (append a b).mapInputs f = append _ _
  simp only [mapInputs, append, List.map_append]

theorem mapOutputs_append (f : OutputSide → OutputSide) (a b : Body) :
    (a ++ b).mapOutputs f = a.mapOutputs f ++ b.mapOutputs f := by
  show (append a b).mapOutputs f = append _ _
  simp only [mapOutputs, append, List.map_append]

theorem stripRouting_append (a b : Body) :
    (a ++ b).stripRouting = a.stripRouting ++ b.stripRouting := by
  rw [stripRouting, mapInputs_append, mapOutputs_append]
  rfl

theorem blankOutputs_append (a b : Body) :
    (a ++ b).blankOutputs = a.blankOutputs ++ b.blankOutputs := by
  rw [blankOutputs, mapConnections, mapInputs_append]
  show _ = append _ _
  simp only [blankOutputs, append, mapConnections, ← List.map_append]
  rfl

/-- Of the passes only the one that shares rails looks at more than one element. -/
theorem adapt_append {config : Config} (h : config.sharedPowerRails = false) (a b : Body) :
    (a ++ b).adapt config = a.adapt config ++ b.adapt config := by
  unfold adapt
  rw [h]
  cases config.routingPoints <;> cases config.blankDefaultOutput <;>
    simp [stripRouting_append, blankOutputs_append]

@[simp] theorem adapt_empty (config : Config) : ({} : Body).adapt config = {} := by
  unfold adapt
  cases config.sharedPowerRails <;> cases config.routingPoints <;>
    cases config.blankDefaultOutput <;> rfl

end Body

/-- The offset below rungs of which the first is at `o`. -/
def Offset.below (o : Offset) (rungs : List Rung) : Offset :=
  rungs.foldl (fun o r => o.advance r.height) o

def outcomesFrom (index : Nat) (offset : Offset) : List Rung → List Outcome
  | [] => []
  | r :: rest =>
    ⟨index, r, offset, r.lower index offset⟩ ::
      outcomesFrom (index + 1) (offset.advance r.height) rest

theorem mapIdx_zip_stack (index : Nat) (offset : Offset) (rungs : List Rung) :
    ((rungs.zip (offset.stack (rungs.map (·.height)))).mapIdx fun i (r, o) =>
      (⟨index + i, r, o, r.lower (index + i) o⟩ : Outcome)) = outcomesFrom index offset rungs := by
  induction rungs generalizing index offset with
  | nil => rfl
  | cons r rest ih =>
    rw [outcomesFrom, ← ih, List.map_cons, Offset.stack, List.zip_cons_cons, List.mapIdx_cons]
    simp only [Nat.add_zero, Nat.add_assoc, Nat.add_comm 1]

theorem outcomes_eq_outcomesFrom (rungs : List Rung) :
    outcomes rungs = outcomesFrom 0 .zero rungs := by
  rw [← mapIdx_zip_stack]
  simp only [Nat.zero_add]
  rfl

/-- The rungs below are lowered from where those above end. -/
theorem outcomesFrom_append (index : Nat) (offset : Offset) (above below : List Rung) :
    outcomesFrom index offset (above ++ below) =
      outcomesFrom index offset above ++
        outcomesFrom (index + above.length) (offset.below above) below := by
  induction above generalizing index offset with
  | nil => rfl
  | cons r rest ih =>
    rw [List.cons_append, outcomesFrom, outcomesFrom, ih, List.length_cons, Nat.add_right_comm]
    rfl

/-- What some of the outcomes bring into the report. -/
def contribution (config : Config) (os : List Outcome) : Report where
  body := (Body.ofElements (os.flatMap (·.elements))).adapt config
  warnings := os.flatMap (·.warnings)
  failures := os.filterMap (·.failure?)

/-- Lowers rungs of which the first is at the given position and offset. -/
def lowerFrom (config : Config) (index : Nat) (offset : Offset) (rungs : List Rung) : Report :=
  contribution config (outcomesFrom index offset rungs)

theorem lower_eq_lowerFrom (config : Config) (rungs : List Rung) :
    lower config rungs = lowerFrom config 0 .zero rungs := by
  rw [lowerFrom, ← outcomes_eq_outcomesFrom]
  rfl

theorem contribution_of_failure? {config : Config} {o : Outcome} {f : Failure}
    (h : o.failure? = some f) : contribution config [o] = ⟨{}, [], [f]⟩ := by
  obtain ⟨-, -, hres⟩ := Outcome.rung_of_failure? h
  have he := Outcome.elements_of_error hres
  have hw := Outcome.warnings_of_error hres
  have hb : (Body.ofElements []).adapt config = {} := Body.adapt_empty config
  simp only [contribution, List.flatMap_singleton, he, hw, hb, List.filterMap_cons, h,
    List.filterMap_nil]

section
variable {config : Config} (h : config.sharedPowerRails = false)
include h

theorem contribution_append (as bs : List Outcome) :
    contribution config (as ++ bs) = contribution config as ++ contribution config bs := by
  show _ = Report.append _ _
  simp only [contribution, Report.append, List.flatMap_append, List.filterMap_append,
    Body.ofElements_append, Body.adapt_append h]

theorem lowerFrom_append (index : Nat) (offset : Offset) (above below : List Rung) :
    lowerFrom config index offset (above ++ below) =
      lowerFrom config index offset above ++
        lowerFrom config (index + above.length) (offset.below above) below := by
  rw [lowerFrom, outcomesFrom_append, contribution_append h]
  rfl

theorem lower_append (above : List Rung) (r : Rung) (below : List Rung) :
    lower config (above ++ [r] ++ below) =
      lower config above ++ lowerFrom config above.length (Offset.zero.below above) [r] ++
        lowerFrom config (above.length + 1) ((Offset.zero.below above).advance r.height) below := by
  have hbelow : Offset.zero.below (above ++ [r]) =
      (Offset.zero.below above).advance r.height := by
    simp [Offset.below]
  rw [lower_eq_lowerFrom, lowerFrom_append h, lowerFrom_append h, hbelow, ← lower_eq_lowerFrom]
  simp only [Nat.zero_add, List.length_append, List.length_singleton]

end

theorem lowerFrom_of_mem_failures {config : Config} {above below : List Rung} {r : Rung}
    {f : Failure} (hf : f ∈ (lower config (above ++ [r] ++ below)).failures)
    (hi : f.rung = above.length) :
    f.rungId = r.id ∧
      lowerFrom config above.length (Offset.zero.below above) [r] = ⟨{}, [], [f]⟩ := by
  obtain ⟨o, ho, hf⟩ := List.mem_filterMap.1 hf
  obtain ⟨hrung, hid, -⟩ := Outcome.rung_of_failure? hf
  have hmem : (⟨above.length, r, Offset.zero.below above,
      r.lower above.length (Offset.zero.below above)⟩ : Outcome) ∈
        outcomes (above ++ [r] ++ below) := by
    rw [outcomes_eq_outcomesFrom, List.append_assoc, outcomesFrom_append, Nat.zero_add]
    exact List.mem_append_right _ List.mem_cons_self
  cases eq_of_index_eq ho hmem (hrung.symm.trans hi)
  exact ⟨hid, contribution_of_failure? hf⟩

/-- **Isolation of rungs.** Where rails are not shared, exchanging a rung for one that takes the
same height changes nothing of what the rungs above and below it bring into the report, list by
list, also if one of the two fails. A rung that fails brings in its failure and nothing else. -/
theorem rung_isolated {config : Config} (hc : config.sharedPowerRails = false)
    {above below : List Rung} {r r' : Rung}
    (hh : (Offset.zero.below above).advance r.height =
      (Offset.zero.below above).advance r'.height) :
    ∃ rest, rest = lowerFrom config (above.length + 1)
        ((Offset.zero.below above).advance r.height) below ∧
      ∀ q, q = r ∨ q = r' →
        lower config (above ++ [q] ++ below) =
            lower config above ++
              lowerFrom config above.length (Offset.zero.below above) [q] ++ rest ∧
          ∀ f ∈ (lower config (above ++ [q] ++ below)).failures, f.rung = above.length →
            f.rungId = q.id ∧
              lowerFrom config above.length (Offset.zero.below above) [q] = ⟨{}, [], [f]⟩ := by
  refine ⟨_, rfl, ?_⟩
  rintro q (rfl | rfl)
  · exact ⟨lower_append hc above q below, fun f hf hi => lowerFrom_of_mem_failures hf hi⟩
  · rw [hh]
    exact ⟨lower_append hc above q below, fun f hf hi => lowerFrom_of_mem_failures hf hi⟩

def contactAndCoil (height : Float) (first : UInt64) : Rung where
  id := "contactAndCoil"
  nodes := [
    { id := "rail", numericId := first, kind := .leftRail },
    { id := "x", numericId := first + 1, kind := .contact "x" .normal },
    { id := "y", numericId := first + 2, kind := .coil "y" .normal }]
  edges := [⟨"rail", "out", "x", "in"⟩, ⟨"x", "out", "y", "in"⟩]
  height

/-- A coil behind a group that feeds itself, on a canvas without a height. -/
def loopedCoil : Rung where
  id := "loopedCoil"
  nodes := [
    { id := "rail", numericId := 10, kind := .leftRail },
    { id := "x", numericId := 11, kind := .contact "x" .normal },
    { id := "z", numericId := 12, kind := .unknown },
    { id := "y", numericId := 13, kind := .coil "y" .normal },
    { id := "open", numericId := 14, kind := .parallelOpen { id := "down" } },
    { id := "c", numericId := 15, kind := .contact "c" .normal, output := some { id := "out" } },
    { id := "close", numericId := 16, kind := .parallelClose { id := "up" } }]
  edges := [
    ⟨"rail", "out", "x", "in"⟩, ⟨"open", "out", "close", "in"⟩, ⟨"open", "down", "c", "in"⟩,
    ⟨"c", "out", "close", "up"⟩, ⟨"close", "out", "open", "in"⟩, ⟨"close", "out", "y", "in"⟩]
  height := -1

/-- The rung in the middle fails at its coil, when its rail, its contact and a warning are there
already; none of them is in the report, and the rungs around it are as they are beside one that
does not fail. -/
theorem loopedCoil_isolated :
    (Config.ofDialect .openPlc).sharedPowerRails = false ∧
      Offset.zero.below [contactAndCoil 120 1] = ⟨120⟩ ∧
      (⟨120⟩ : Offset).advance loopedCoil.height =
        (⟨120⟩ : Offset).advance (contactAndCoil 0 10).height ∧
      (∃ emitted, (loopedCoil.nodes.take 3).mapM (loopedCoil.context 1 ⟨120⟩).emit = .ok emitted ∧
        emitted.flatMap (·.warnings) ≠ []) ∧
      ∃ f rest, f.rung = 1 ∧ f.rungId = "loopedCoil" ∧ f.cause = .markerCycle "close" ∧
        rest = lowerFrom (.ofDialect .openPlc) 2 ⟨120⟩ [contactAndCoil 60 20] ∧
        lower (.ofDialect .openPlc)
            [contactAndCoil 120 1, loopedCoil, contactAndCoil 60 20] =
          lower (.ofDialect .openPlc) [contactAndCoil 120 1] ++ ⟨{}, [], [f]⟩ ++ rest ∧
        lower (.ofDialect .openPlc)
            [contactAndCoil 120 1, contactAndCoil 0 10, contactAndCoil 60 20] =
          lower (.ofDialect .openPlc) [contactAndCoil 120 1] ++
            lowerFrom (.ofDialect .openPlc) 1 ⟨120⟩ [contactAndCoil 0 10] ++ rest := by
  have hc : (Config.ofDialect .openPlc).sharedPowerRails = false := rfl
  have ho : Offset.zero.below [contactAndCoil 120 1] = ⟨120⟩ := by decide +kernel
  have hh : (⟨120⟩ : Offset).advance loopedCoil.height =
      (⟨120⟩ : Offset).advance (contactAndCoil 0 10).height := by decide +kernel
  have hbelow : (⟨120⟩ : Offset).advance loopedCoil.height = ⟨120⟩ := by decide +kernel
  have hbegun : ((loopedCoil.nodes.take 3).mapM (loopedCoil.context 1 ⟨120⟩).emit).toOption.any
      (·.flatMap (·.warnings) ≠ []) := by decide +kernel
  have hfails : ∃ f ∈ (lower (.ofDialect .openPlc)
      ([contactAndCoil 120 1] ++ [loopedCoil] ++ [contactAndCoil 60 20])).failures,
        f.rung = 1 ∧ f.cause = .markerCycle "close" := by decide +kernel
  obtain ⟨f, hf, hi, hcause⟩ := hfails
  obtain ⟨rest, hrest, h⟩ :=
    @rung_isolated _ hc [contactAndCoil 120 1] [contactAndCoil 60 20] _ _ (ho ▸ hh)
  obtain ⟨hbroken, hfailure⟩ := h _ (.inl rfl)
  obtain ⟨hwhole, -⟩ := h _ (.inr rfl)
  obtain ⟨hid, hnothing⟩ := hfailure f hf hi
  rw [hnothing] at hbroken
  rw [ho] at hrest hwhole
  rw [hbelow] at hrest
  refine ⟨hc, ho, hh, ?_, f, rest, hi, hid, hcause, hrest, hbroken, hwhole⟩
  cases hem : (loopedCoil.nodes.take 3).mapM (loopedCoil.context 1 ⟨120⟩).emit with
  | error cause => simp [hem, Except.toOption] at hbegun
  | ok emitted => exact ⟨emitted, rfl, by simpa [hem, Except.toOption] using hbegun⟩

end LadderDiagram
