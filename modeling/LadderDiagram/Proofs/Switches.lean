import LadderDiagram.Proofs.Pass

/-!
# Switches

Each switch of a configuration is a pass over the plain body. A pass done twice does no more than
once, and any two may be done in either order, so a body depends only on which passes are done.
`switches_independent` says so, what each pass leaves behind, and what none of them touches.
-/

namespace LadderDiagram

/-- A pass over a finished body. -/
inductive Pass where
  | shareRails
  | stripRouting
  | blankOutputs

namespace Pass

def run : Pass → Body → Body
  | shareRails => Body.shareRails
  | stripRouting => Body.stripRouting
  | blankOutputs => Body.blankOutputs

def runAll (passes : List Pass) (b : Body) : Body := passes.foldl (fun b p => p.run b) b

end Pass

namespace Config

def asks (config : Config) : Pass → Bool
  | .shareRails => config.sharedPowerRails
  | .stripRouting => !config.routingPoints
  | .blankOutputs => config.blankDefaultOutput

def passes (config : Config) : List Pass :=
  [.shareRails, .stripRouting, .blankOutputs].filter config.asks

def add (config : Config) : Pass → Config
  | .shareRails => { config with sharedPowerRails := true }
  | .stripRouting => { config with routingPoints := false }
  | .blankOutputs => { config with blankDefaultOutput := true }

def unblanked (config : Config) : Config := { config with blankDefaultOutput := false }

def plain (dialect : Dialect) : Config := ⟨dialect, true, false, false⟩

end Config

namespace Body

def connections (b : Body) : List Connection := b.inputSides.flatMap (·.connections)

/-- The connection after `Body.blankOutputs`. -/
def Connection.blanked (c : Connection) : Connection :=
  { c with formalParameter := c.formalParameter.map blankName }

/-- The blocks by local id, each with the names of its output pins. -/
def outputPins (b : Body) : List (UInt64 × List String) :=
  b.blocks.map fun x => (x.localId, x.outputs.map (·.formalParameter))

/-- The block that is cited has an output pin of that name. -/
def HasPin (b : Body) (c : Connection) (name : String) : Prop :=
  ∃ x ∈ b.outputPins, x.1 = c.refLocalId ∧ name ∈ x.2

instance (b : Body) (c : Connection) (name : String) : Decidable (b.HasPin c name) :=
  inferInstanceAs (Decidable (∃ x ∈ b.outputPins, x.1 = c.refLocalId ∧ name ∈ x.2))

/-- The connection names an output pin of the block that it cites. -/
def NamesPin (b : Body) (c : Connection) : Prop := ∃ name ∈ c.formalParameter, b.HasPin c name

instance (b : Body) (c : Connection) : Decidable (b.NamesPin c) :=
  inferInstanceAs (Decidable (∃ name ∈ c.formalParameter, b.HasPin c name))

/-- What no pass touches: contacts, coils, blocks and variables, less their sides and the names of
output pins. -/
def bare (b : Body) : Body where
  blocks := b.blocks.map fun e =>
    { e.mapInputs (fun _ => {}) with outputs := e.outputs.map fun _ => ⟨"", {}⟩ }
  contacts := b.contacts.map fun e => { e with input := {}, output := {} }
  coils := b.coils.map fun e => { e with input := {}, output := {} }
  inVariables := b.inVariables.map fun e => { e with output := {} }
  outVariables := b.outVariables.map fun e => { e with input := {} }

/-- No line of a wire is left, and no position of a side. -/
structure Unrouted (b : Body) : Prop where
  connections : ∀ c ∈ b.connections, c.points = []
  inputSides : ∀ s ∈ b.inputSides, s.relPosition = none
  outputSides : ∀ s ∈ b.outputSides, s.relPosition = none

/-- The second body is the first with the output pin `OUT` written blank. -/
structure Blanks (before after : Body) : Prop where
  connections : after.connections = before.connections.map Connection.blanked
  outputPins : after.outputPins = before.outputPins.map fun x => (x.1, x.2.map blankName)
  connection_ne : ∀ c ∈ after.connections, c.formalParameter ≠ some defaultOutput
  pin_ne : ∀ x ∈ after.outputPins, defaultOutput ∉ x.2
  /-- A connection names the pin that it named. It also names one if it was blank before its
  block had a blank pin. -/
  namesPin_iff : (∀ x ∈ before.outputPins, blankOutput ∉ x.2) → ∀ c : Connection,
    after.NamesPin c.blanked ↔ before.NamesPin c ∨
      c.formalParameter = some blankOutput ∧ before.HasPin c defaultOutput

@[simp] theorem InputSource.mapSide_mapSide (f g : InputSide → InputSide) (s : InputSource) :
    (s.mapSide f).mapSide g = s.mapSide fun side => g (f side) := by
  cases s <;> rfl

@[simp] theorem blankName_blankName (name : String) :
    blankName (blankName name) = blankName name := by
  unfold blankName
  split <;> rfl

namespace Element

theorem stripped_stripped (e : Element) : e.stripped.stripped = e.stripped := by
  cases e <;> simp [stripped, mapInputs, mapOutputs, Block.mapInputs, Function.comp_def]

theorem blanked_blanked (e : Element) : e.blanked.blanked = e.blanked := by
  cases e <;>
    simp [blanked, mapConnections, mapInputs, Block.mapInputs, Function.comp_def]

theorem blanked_stripped (e : Element) : e.stripped.blanked = e.blanked.stripped := by
  cases e <;>
    simp [blanked, stripped, mapConnections, mapInputs, mapOutputs, Block.mapInputs,
      Function.comp_def]

theorem shared_shared (f : UInt64 → UInt64) (e : Element) :
    (e.shared f).shared id = e.shared f := by
  cases e <;>
    simp [shared, mapConnections, mapInputs, Block.mapInputs, Function.comp_def]

theorem shared_stripped (f : UInt64 → UInt64) (e : Element) :
    e.stripped.shared f = (e.shared f).stripped := by
  cases e <;>
    simp [shared, stripped, mapConnections, mapInputs, mapOutputs, Block.mapInputs,
      Function.comp_def]

theorem shared_blanked (f : UInt64 → UInt64) (e : Element) :
    e.blanked.shared f = (e.shared f).blanked := by
  cases e <;>
    simp [shared, blanked, mapConnections, mapInputs, Block.mapInputs, Function.comp_def]

end Element

theorem stripRouting_stripRouting (b : Body) : b.stripRouting.stripRouting = b.stripRouting := by
  apply eq_of_elements_eq
  rw [elements_stripRouting, elements_stripRouting, List.map_map]
  exact List.map_congr_left fun e _ => e.stripped_stripped

theorem blankOutputs_blankOutputs (b : Body) : b.blankOutputs.blankOutputs = b.blankOutputs := by
  apply eq_of_elements_eq
  rw [elements_blankOutputs, elements_blankOutputs, List.map_map]
  exact List.map_congr_left fun e _ => e.blanked_blanked

theorem blankOutputs_stripRouting (b : Body) :
    b.stripRouting.blankOutputs = b.blankOutputs.stripRouting := by
  apply eq_of_elements_eq
  rw [elements_blankOutputs, elements_stripRouting, elements_stripRouting, elements_blankOutputs,
    List.map_map, List.map_map]
  exact List.map_congr_left fun e _ => e.blanked_stripped

theorem redirect_congr {a b : Body}
    (h : a.leftRails.map (·.localId) = b.leftRails.map (·.localId)) : a.redirect = b.redirect := by
  funext id
  unfold redirect
  rw [h]
  cases ha : a.leftRails <;> cases hb : b.leftRails <;> simp_all

theorem redirect_of_length_le {b : Body} (h : b.leftRails.length ≤ 1) : b.redirect = id := by
  funext id
  unfold redirect
  cases hrails : b.leftRails with
  | nil => rfl
  | cons first rest =>
    have hrest : rest = [] := by simpa [hrails] using h
    subst hrest
    simp +contextual [eq_comm]

theorem firstRails_shareRails (b : Body) : b.shareRails.firstRails = b.shareRails := by
  simp [firstRails, shareRails, List.take_take]

theorem shareRails_shareRails (b : Body) : b.shareRails.shareRails = b.shareRails := by
  apply eq_of_elements_eq
  have hone : b.shareRails.leftRails.length ≤ 1 := by
    rw [shareRails, List.length_map, List.length_take]
    exact Nat.min_le_left 1 _
  rw [elements_shareRails, firstRails_shareRails, redirect_of_length_le hone,
    elements_shareRails, List.map_map]
  exact List.map_congr_left fun e _ => e.shared_shared b.redirect

section
variable {run : Body → Body} {g : Element → Element}

/-- Rails may be shared before or after a pass that changes elements one by one and keeps the local
ids of left rails. -/
theorem shareRails_comm (hrun : ∀ b, (run b).elements = b.elements.map g)
    (hcut : ∀ b, (run b).firstRails = run b.firstRails)
    (hids : ∀ b, (run b).leftRails.map (·.localId) = b.leftRails.map (·.localId))
    (hg : ∀ f e, (g e).shared f = g (e.shared f)) (b : Body) :
    (run b).shareRails = run b.shareRails := by
  apply eq_of_elements_eq
  rw [elements_shareRails, hcut, hrun, redirect_congr (hids b), hrun, elements_shareRails,
    List.map_map, List.map_map]
  exact List.map_congr_left fun e _ => hg b.redirect e

end

theorem shareRails_stripRouting (b : Body) :
    b.stripRouting.shareRails = b.shareRails.stripRouting :=
  shareRails_comm elements_stripRouting
    (fun b => by simp [firstRails, stripRouting, mapInputs, mapOutputs, List.map_take])
    (fun b => by simp [stripRouting, mapInputs, mapOutputs, Function.comp_def])
    Element.shared_stripped b

theorem shareRails_blankOutputs (b : Body) :
    b.blankOutputs.shareRails = b.shareRails.blankOutputs :=
  shareRails_comm elements_blankOutputs
    (fun b => by simp [firstRails, blankOutputs, mapConnections, mapInputs, List.map_take])
    (fun b => by simp [blankOutputs, mapConnections, mapInputs])
    Element.shared_blanked b

theorem run_adapt (p : Pass) (config : Config) (b : Body) :
    p.run (b.adapt config) = b.adapt (config.add p) := by
  obtain ⟨d, routing, shared, blank⟩ := config
  cases p <;> cases routing <;> cases shared <;> cases blank <;>
    simp [Pass.run, Config.add, adapt, shareRails_shareRails, stripRouting_stripRouting,
      blankOutputs_blankOutputs, shareRails_stripRouting, shareRails_blankOutputs,
      blankOutputs_stripRouting]

/-- Passes over an adapted body do what asking for them from the start does. -/
theorem runAll_adapt (passes : List Pass) (config : Config) (b : Body) :
    Pass.runAll passes (b.adapt config) = b.adapt (passes.foldl Config.add config) := by
  induction passes generalizing config with
  | nil => rfl
  | cons p passes ih =>
    rw [Pass.runAll, List.foldl_cons, run_adapt]
    exact ih (config.add p)

end Body

theorem Config.mem_passes {config : Config} {p : Pass} :
    p ∈ config.passes ↔ config.asks p = true := by
  rw [passes, List.mem_filter, and_iff_right_iff_imp]
  intro _
  cases p <;> simp

theorem Config.asks_foldl_add (config : Config) (passes : List Pass) (p : Pass) :
    (passes.foldl Config.add config).asks p = true ↔ config.asks p = true ∨ p ∈ passes := by
  induction passes generalizing config with
  | nil => simp
  | cons q passes ih =>
    rw [List.foldl_cons, ih, List.mem_cons, ← or_assoc]
    refine or_congr_left ?_
    cases p <;> cases q <;> simp [add, asks]

/-- A body depends on which passes are asked for, and on nothing else of a configuration. -/
theorem Body.adapt_congr {config config' : Config} (h : ∀ p, config.asks p = config'.asks p)
    (b : Body) : b.adapt config = b.adapt config' := by
  have hshare := h .shareRails
  have hstrip := h .stripRouting
  have hblank := h .blankOutputs
  simp only [adapt, show config.sharedPowerRails = config'.sharedPowerRails from hshare,
    Bool.not_inj hstrip, show config.blankDefaultOutput = config'.blankDefaultOutput from hblank]

namespace Body

@[simp] theorem inputSides_mapInputs (f : InputSide → InputSide) (b : Body) :
    (b.mapInputs f).inputSides = b.inputSides.map f := by
  have hblock (x : Block) : (x.mapInputs f).inputSides = x.inputSides.map f := by
    unfold Block.inputSides Block.mapInputs
    rw [List.filterMap_map, List.map_filterMap]
    apply List.filterMap_congr
    intro i _
    obtain ⟨name, side | text⟩ := i <;> rfl
  simp [inputSides, mapInputs, List.flatMap_map, List.map_flatMap, hblock, Function.comp_def]

@[simp] theorem inputSides_mapOutputs (f : OutputSide → OutputSide) (b : Body) :
    (b.mapOutputs f).inputSides = b.inputSides := by
  simp only [inputSides, mapOutputs, List.map_map, List.flatMap_map, Function.comp_def]
  rfl

@[simp] theorem outputSides_mapOutputs (f : OutputSide → OutputSide) (b : Body) :
    (b.mapOutputs f).outputSides = b.outputSides.map f := by
  simp [outputSides, mapOutputs, List.flatMap_map, List.map_flatMap, Function.comp_def]

@[simp] theorem outputPins_mapInputs (f : InputSide → InputSide) (b : Body) :
    (b.mapInputs f).outputPins = b.outputPins := by
  simp [outputPins, mapInputs, Block.mapInputs]

@[simp] theorem bare_mapInputs (f : InputSide → InputSide) (b : Body) :
    (b.mapInputs f).bare = b.bare := by
  simp [bare, mapInputs, Block.mapInputs, Function.comp_def]

@[simp] theorem bare_mapOutputs (f : OutputSide → OutputSide) (b : Body) :
    (b.mapOutputs f).bare = b.bare := by
  simp [bare, mapOutputs, Block.mapInputs, Function.comp_def]

@[simp] theorem outputPins_mapOutputs (f : OutputSide → OutputSide) (b : Body) :
    (b.mapOutputs f).outputPins = b.outputPins := by
  simp [outputPins, mapOutputs, Function.comp_def]

theorem outputPins_adapt {config : Config} (h : config.blankDefaultOutput = false) (b : Body) :
    (b.adapt config).outputPins = b.outputPins := by
  have hshare : b.shareRails.outputPins = b.outputPins :=
    calc b.shareRails.outputPins = b.redirectRails.outputPins := rfl
      _ = b.outputPins := by rw [redirectRails_eq, mapConnections, outputPins_mapInputs]
  have hstrip (b : Body) : b.stripRouting.outputPins = b.outputPins := by simp [stripRouting]
  unfold adapt
  cases config.routingPoints <;> cases config.sharedPowerRails <;> simp [h, hshare, hstrip]

theorem bare_run (p : Pass) (b : Body) : (p.run b).bare = b.bare := by
  cases p with
  | shareRails =>
    calc b.shareRails.bare = b.redirectRails.bare := rfl
      _ = b.bare := by rw [redirectRails_eq, mapConnections, bare_mapInputs]
  | stripRouting => simp [Pass.run, stripRouting]
  | blankOutputs =>
    simp [Pass.run, blankOutputs, mapConnections, bare, mapInputs, Block.mapInputs,
      Function.comp_def]

theorem bare_runAll (passes : List Pass) (b : Body) : (Pass.runAll passes b).bare = b.bare := by
  induction passes generalizing b with
  | nil => rfl
  | cons p passes ih => exact (ih (p.run b)).trans (bare_run p b)

theorem unrouted_stripRouting (b : Body) : b.stripRouting.Unrouted := by
  constructor
  · intro c hc
    simp only [connections, stripRouting, inputSides_mapOutputs, inputSides_mapInputs,
      List.mem_flatMap, List.mem_map] at hc
    obtain ⟨-, ⟨side, -, rfl⟩, hc⟩ := hc
    obtain ⟨c, -, rfl⟩ := List.mem_map.1 hc
    rfl
  · intro s hs
    rw [stripRouting, inputSides_mapOutputs, inputSides_mapInputs] at hs
    obtain ⟨side, -, rfl⟩ := List.mem_map.1 hs
    rfl
  · intro s hs
    rw [stripRouting, outputSides_mapOutputs] at hs
    obtain ⟨side, -, rfl⟩ := List.mem_map.1 hs
    rfl

theorem blankName_ne (name : String) : blankName name ≠ defaultOutput := by
  unfold blankName
  split
  · decide
  · assumption

/-- Two names are written alike only if they are one, or if a blank one meets `OUT`. -/
theorem blankName_eq_blankName_iff {m n : String} (hm : m ≠ blankOutput) :
    blankName m = blankName n ↔ m = n ∨ n = blankOutput ∧ m = defaultOutput := by
  unfold blankName
  by_cases hmo : m = defaultOutput <;> by_cases hno : n = defaultOutput
  · simp [hmo, hno]
  · simp [hmo, hno, eq_comm]
  · simp [hmo, hno, hm]
  · simp [hmo, hno]

theorem connections_blankOutputs (b : Body) :
    b.blankOutputs.connections = b.connections.map Connection.blanked := by
  have hs : b.blankOutputs.inputSides = (b.mapConnections Connection.blanked).inputSides := by
    simp only [blankOutputs, inputSides, List.flatMap_map]
    rfl
  rw [connections, hs, mapConnections, inputSides_mapInputs, List.flatMap_map, connections,
    List.map_flatMap]

theorem outputPins_blankOutputs (b : Body) :
    b.blankOutputs.outputPins = b.outputPins.map fun x => (x.1, x.2.map blankName) := by
  simp [outputPins, blankOutputs, mapConnections, mapInputs, Block.mapInputs, Function.comp_def]

theorem hasPin_blankOutputs {b : Body} (hb : ∀ x ∈ b.outputPins, blankOutput ∉ x.2)
    (c : Connection) (name : String) :
    b.blankOutputs.HasPin c.blanked (blankName name) ↔
      b.HasPin c name ∨ name = blankOutput ∧ b.HasPin c defaultOutput := by
  have hpin {x : UInt64 × List String} (hx : x ∈ b.outputPins) :
      blankName name ∈ x.2.map blankName ↔
        name ∈ x.2 ∨ name = blankOutput ∧ defaultOutput ∈ x.2 := by
    rw [List.mem_map]
    constructor
    · rintro ⟨m, hm, h⟩
      rcases (blankName_eq_blankName_iff fun h => hb x hx (h ▸ hm)).1 h with rfl | ⟨hn, rfl⟩
      · exact .inl hm
      · exact .inr ⟨hn, hm⟩
    · rintro (hm | ⟨rfl, hm⟩)
      · exact ⟨name, hm, rfl⟩
      · exact ⟨defaultOutput, hm, rfl⟩
  unfold HasPin
  rw [outputPins_blankOutputs]
  simp only [List.mem_map, exists_exists_and_eq_and]
  constructor
  · rintro ⟨x, hx, hid, hm⟩
    rcases (hpin hx).1 (List.mem_map.2 hm) with hm | ⟨hn, hm⟩
    · exact .inl ⟨x, hx, hid, hm⟩
    · exact .inr ⟨hn, x, hx, hid, hm⟩
  · rintro (⟨x, hx, hid, hm⟩ | ⟨hn, x, hx, hid, hm⟩)
    · exact ⟨x, hx, hid, List.mem_map.1 ((hpin hx).2 (.inl hm))⟩
    · exact ⟨x, hx, hid, List.mem_map.1 ((hpin hx).2 (.inr ⟨hn, hm⟩))⟩

theorem blanks_blankOutputs (b : Body) : Blanks b b.blankOutputs where
  connections := connections_blankOutputs b
  outputPins := outputPins_blankOutputs b
  connection_ne := by
    intro c hc
    rw [connections_blankOutputs] at hc
    obtain ⟨c, -, rfl⟩ := List.mem_map.1 hc
    intro h
    obtain ⟨name, -, hname⟩ := Option.map_eq_some_iff.1 h
    exact blankName_ne name hname
  pin_ne := by
    intro x hx hout
    rw [outputPins_blankOutputs] at hx
    obtain ⟨x, -, rfl⟩ := List.mem_map.1 hx
    obtain ⟨name, -, hname⟩ := List.mem_map.1 hout
    exact blankName_ne name hname
  namesPin_iff := by
    intro hb c
    unfold NamesPin
    cases hname : c.formalParameter with
    | none => simp [Connection.blanked, hname]
    | some name => simpa [Connection.blanked, hname] using hasPin_blankOutputs hb c name

end Body

section
variable (config : Config) (rungs : List Rung)

/-- A body is the plain one after the passes that are asked for, in any order and with any
repetition. -/
theorem body_lower_eq_runAll (dialect : Dialect) {passes : List Pass}
    (h : ∀ p, p ∈ passes ↔ config.asks p = true) :
    (lower config rungs).body = Pass.runAll passes (lower (.plain dialect) rungs).body := by
  rw [body_lower, body_lower, Body.runAll_adapt]
  refine Body.adapt_congr (fun p => ?_) _
  rw [Bool.eq_iff_iff, Config.asks_foldl_add, ← h p]
  cases p <;> simp [Config.plain, Config.asks]

/-- **What the switches do.** Warnings and failures are the same in every setting. The body is the
plain one after the passes that are asked for, in any order and any number of times. Without routing
points no line and no position is left. Blanking renames `OUT` and nothing else: while no pin is
blank before it, a connection names a pin after it exactly if it did before, or if it was blank and
cites a block with a pin `OUT`. All else about contacts, coils, blocks and variables, their wires
apart, is the same in every setting. -/
theorem switches_independent :
    (∀ config' : Config, (lower config' rungs).warnings = (lower config rungs).warnings ∧
        (lower config' rungs).failures = (lower config rungs).failures) ∧
      (∀ (dialect : Dialect) (passes : List Pass), (∀ p, p ∈ passes ↔ config.asks p = true) →
        (lower config rungs).body = Pass.runAll passes (lower (.plain dialect) rungs).body) ∧
      (config.routingPoints = false → (lower config rungs).body.Unrouted) ∧
      (config.blankDefaultOutput = true →
        Body.Blanks (lower config.unblanked rungs).body (lower config rungs).body) ∧
      ∀ dialect, (lower config rungs).body.bare = (lower (.plain dialect) rungs).body.bare ∧
        (lower config.unblanked rungs).body.outputPins =
          (lower (.plain dialect) rungs).body.outputPins := by
  refine ⟨fun _ => ⟨rfl, rfl⟩, fun dialect _ => body_lower_eq_runAll config rungs dialect,
    fun hr => ?_, fun hb => ?_, fun dialect => ?_⟩
  · have hlast : ∀ p, p ∈ config.passes ++ [.stripRouting] ↔ config.asks p = true := by
      intro p
      rw [List.mem_append, Config.mem_passes, List.mem_singleton, or_iff_left_of_imp]
      rintro rfl
      rw [Config.asks, hr]
      rfl
    rw [body_lower_eq_runAll config rungs config.dialect hlast, Pass.runAll, List.foldl_append]
    exact Body.unrouted_stripRouting _
  · obtain ⟨d, routing, shared, blank⟩ := config
    subst hb
    exact Body.blanks_blankOutputs _
  · constructor
    · rw [body_lower_eq_runAll config rungs dialect fun p => Config.mem_passes, Body.bare_runAll]
    · exact Body.outputPins_adapt rfl (plainBody rungs)

end

/-- A block with the output pin `OUT` alone, which two wires leave: one at `OUT`, one at a blank
pin. -/
def blankWire : Rung where
  nodes := [
    { id := "rail", numericId := 1, kind := .leftRail },
    { id := "add", numericId := 2, output := some { id := "OUT" },
      kind := .block { typeName := "ADD", inputs := [{ id := "EN" }],
                       outputs := [{ id := "OUT" }] } },
    { id := "x", numericId := 3, kind := .coil "x" .normal },
    { id := "y", numericId := 4, kind := .coil "y" .normal }]
  edges := [
    ⟨"rail", "out", "add", "EN"⟩, ⟨"add", "OUT", "x", "in"⟩, ⟨"add", "   ", "y", "in"⟩]

/-- No pin is blank, and the wire that is blank names none; once `OUT` is written blank, it
does. -/
theorem blankWire_gains_pin :
    let before := (lower (Config.ofDialect .codesys).unblanked [blankWire]).body
    let after := (lower (.ofDialect .codesys) [blankWire]).body
    (Config.ofDialect .codesys).blankDefaultOutput = true ∧
      (∀ x ∈ before.outputPins, Body.blankOutput ∉ x.2) ∧
      ∃ c ∈ before.connections, c.blanked ∈ after.connections ∧
        ¬ before.NamesPin c ∧ after.NamesPin c.blanked := by
  decide +kernel

/-- All three passes, one of them twice. The wire that leaves `OUT` names its pin under the name
that both are written with. -/
theorem blankWire_switched :
    (∀ p, p ∈ [Pass.stripRouting, .blankOutputs, .shareRails, .stripRouting] ↔
      (Config.ofDialect .codesys).asks p = true) ∧
      (lower (.ofDialect .codesys) [blankWire]).body =
        Pass.runAll [.stripRouting, .blankOutputs, .shareRails, .stripRouting]
          (lower (.plain .openPlc) [blankWire]).body ∧
      (Config.ofDialect .codesys).routingPoints = false ∧
      (lower (.ofDialect .codesys) [blankWire]).body.Unrouted ∧
      (Config.ofDialect .codesys).blankDefaultOutput = true ∧
      ∃ c ∈ (lower (.ofDialect .codesys) [blankWire]).body.connections,
        c.refLocalId = 2 ∧ c.formalParameter = some Body.blankOutput ∧
          (lower (.ofDialect .codesys) [blankWire]).body.NamesPin c := by
  have hp : ∀ p, p ∈ [Pass.stripRouting, .blankOutputs, .shareRails, .stripRouting] ↔
      (Config.ofDialect .codesys).asks p = true := by
    intro p
    cases p <;> simp [Config.asks, Config.ofDialect]
  obtain ⟨-, hpasses, hrouting, hblank, -⟩ :=
    switches_independent (.ofDialect .codesys) [blankWire]
  have hbefore : let before := (lower (Config.ofDialect .codesys).unblanked [blankWire]).body
      (∀ x ∈ before.outputPins, Body.blankOutput ∉ x.2) ∧
      ∃ c ∈ before.connections, c.refLocalId = 2 ∧
        c.formalParameter = some Body.defaultOutput ∧ before.NamesPin c := by
    decide +kernel
  obtain ⟨hnone, c, hc, hid, hname, hpin⟩ := hbefore
  obtain ⟨hconn, -, -, -, hiff⟩ := hblank rfl
  refine ⟨hp, hpasses .openPlc _ hp, rfl, hrouting rfl, rfl, c.blanked, ?_, hid, ?_,
    (hiff hnone c).2 (.inl hpin)⟩
  · rw [hconn]
    exact List.mem_map_of_mem hc
  · rw [Body.Connection.blanked, hname]
    rfl

end LadderDiagram
