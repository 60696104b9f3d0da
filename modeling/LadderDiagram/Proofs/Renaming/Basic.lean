import LadderDiagram.Proofs.Pass

/-!
# Renamings

A `Renaming` gives every node of a rung another id and every element another local id, different
ones to different nodes and elements. It acts on drawings (`Rung.rename`) and on what is reported
of them (`Report.rename`): there it changes local ids, and in warnings and failures the ids of
nodes, and nothing else.

The passes of a dialect only copy and compare local ids, so a body may be renamed before or after
them (`Body.adapt_rename`).
-/

namespace LadderDiagram

/-- Other ids for nodes, and other local ids. -/
structure Renaming where
  id : String → String
  localId : UInt64 → UInt64
  id_injective : Function.Injective id
  localId_injective : Function.Injective localId

def Renaming.refl : Renaming := ⟨fun id => id, fun id => id, fun _ _ h => h, fun _ _ h => h⟩

section
variable (ρ : Renaming)

@[simp] theorem Renaming.id_inj {a b : String} : ρ.id a = ρ.id b ↔ a = b := ρ.id_injective.eq_iff

@[simp] theorem Renaming.id_beq (a b : String) : (ρ.id a == ρ.id b) = (a == b) := by
  rw [Bool.eq_iff_iff, beq_iff_eq, beq_iff_eq, ρ.id_inj]

@[simp] theorem Renaming.localId_inj {a b : UInt64} : ρ.localId a = ρ.localId b ↔ a = b :=
  ρ.localId_injective.eq_iff

/-! ## Drawings -/

def Node.rename (n : Node) : Node :=
  { n with id := ρ.id n.id, numericId := ρ.localId n.numericId }

/-- Also an end that names no node is renamed. -/
def Edge.rename (e : Edge) : Edge := { e with source := ρ.id e.source, target := ρ.id e.target }

def Binding.rename (b : Binding) : Binding :=
  { b with variableId := ρ.id b.variableId, blockId := ρ.id b.blockId }

def Rung.rename (r : Rung) : Rung :=
  { r with
    nodes := r.nodes.map (·.rename ρ)
    edges := r.edges.map (·.rename ρ)
    bindings := r.bindings.map (·.rename ρ) }

@[simp] theorem Node.id_rename (n : Node) : (n.rename ρ).id = ρ.id n.id := rfl
@[simp] theorem Node.numericId_rename (n : Node) :
    (n.rename ρ).numericId = ρ.localId n.numericId := rfl
@[simp] theorem Node.kind_rename (n : Node) : (n.rename ρ).kind = n.kind := rfl
@[simp] theorem Node.input_rename (n : Node) : (n.rename ρ).input = n.input := rfl
@[simp] theorem Node.output_rename (n : Node) : (n.rename ρ).output = n.output := rfl

/-! ## Reports -/

def MalformedGraph.rename : MalformedGraph → MalformedGraph
  | markerCardinality marker side found => markerCardinality (ρ.id marker) side found
  | unmatchedClose close => unmatchedClose (ρ.id close)
  | unclosedOpen opener => unclosedOpen (ρ.id opener)
  | sharedClose close first second => sharedClose (ρ.id close) (ρ.id first) (ρ.id second)
  | markerCycle marker => markerCycle (ρ.id marker)

def Warning.rename : Warning → Warning
  | danglingReference rung node reference => danglingReference rung (ρ.id node) reference
  | unknownNodeKind rung node => unknownNodeKind rung (ρ.id node)
  | danglingEdge rung source target => danglingEdge rung (ρ.id source) (ρ.id target)
  | duplicateLocalId rung localId => duplicateLocalId rung (ρ.localId localId)

def Failure.rename (f : Failure) : Failure := { f with cause := f.cause.rename ρ }

namespace Body

def Connection.rename (c : Connection) : Connection :=
  { c with refLocalId := ρ.localId c.refLocalId }

def InputSide.rename (s : InputSide) : InputSide :=
  { s with connections := s.connections.map (·.rename ρ) }

def LeftRail.rename (e : LeftRail) : LeftRail := { e with localId := ρ.localId e.localId }

def RightRail.rename (e : RightRail) : RightRail :=
  { e with localId := ρ.localId e.localId, input := e.input.rename ρ }

def Contact.rename (e : Contact) : Contact :=
  { e with localId := ρ.localId e.localId, input := e.input.rename ρ }

def Coil.rename (e : Coil) : Coil :=
  { e with localId := ρ.localId e.localId, input := e.input.rename ρ }

def Block.rename (e : Block) : Block :=
  { e.mapInputs (·.rename ρ) with localId := ρ.localId e.localId }

def InVariable.rename (e : InVariable) : InVariable := { e with localId := ρ.localId e.localId }

def OutVariable.rename (e : OutVariable) : OutVariable :=
  { e with localId := ρ.localId e.localId, input := e.input.rename ρ }

def Element.rename : Element → Element
  | leftRail e => leftRail (e.rename ρ)
  | rightRail e => rightRail (e.rename ρ)
  | block e => block (e.rename ρ)
  | contact e => contact (e.rename ρ)
  | coil e => coil (e.rename ρ)
  | inVariable e => inVariable (e.rename ρ)
  | outVariable e => outVariable (e.rename ρ)

def rename (b : Body) : Body where
  leftRails := b.leftRails.map (·.rename ρ)
  rightRails := b.rightRails.map (·.rename ρ)
  blocks := b.blocks.map (·.rename ρ)
  contacts := b.contacts.map (·.rename ρ)
  coils := b.coils.map (·.rename ρ)
  inVariables := b.inVariables.map (·.rename ρ)
  outVariables := b.outVariables.map (·.rename ρ)

end Body

def Report.rename (r : Report) : Report where
  body := r.body.rename ρ
  warnings := r.warnings.map (·.rename ρ)
  failures := r.failures.map (·.rename ρ)

/-! ## Renaming a body -/

namespace Body

@[simp] theorem Element.localId_rename (e : Element) :
    (e.rename ρ).localId = ρ.localId e.localId := by cases e <;> rfl

theorem ofElements_rename (es : List Element) :
    ofElements (es.map (·.rename ρ)) = (ofElements es).rename ρ := by
  have pick {α : Type} {pick : Element → Option α} {act : α → α}
      (h : ∀ e : Element, pick (e.rename ρ) = (pick e).map act) :
      (es.map (·.rename ρ)).filterMap pick = (es.filterMap pick).map act := by
    rw [List.filterMap_map, List.map_filterMap]
    exact List.filterMap_congr fun e _ => h e
  simp only [ofElements, rename, mk.injEq]
  refine ⟨?_, ?_, ?_, ?_, ?_, ?_, ?_⟩ <;> exact pick fun e => by cases e <;> rfl

theorem elements_rename (b : Body) : (b.rename ρ).elements = b.elements.map (·.rename ρ) := by
  simp [elements, rename, Element.rename, Function.comp_def]

/-- What is cited in place of a local id depends on which local ids are equal. -/
theorem redirect_rename (b : Body) (id : UInt64) :
    (b.rename ρ).redirect (ρ.localId id) = ρ.localId (b.redirect id) := by
  have hids : (b.rename ρ).leftRails.map (·.localId) =
      (b.leftRails.map (·.localId)).map ρ.localId := by
    simp [rename, LeftRail.rename, Function.comp_def]
  have hmem : ρ.localId id ∈ (b.rename ρ).leftRails.map (·.localId) ↔
      id ∈ b.leftRails.map (·.localId) := by
    rw [hids, List.mem_map_of_injective ρ.localId_injective]
  by_cases h : id ∈ b.leftRails.map (·.localId)
  · obtain ⟨first, rest, hr⟩ := List.exists_cons_of_ne_nil (l := b.leftRails) (by
      rintro hr
      rw [hr] at h
      exact List.not_mem_nil h)
    have hr' : (b.rename ρ).leftRails = first.rename ρ :: rest.map (·.rename ρ) := by
      rw [rename, hr, List.map_cons]
    rw [redirect, redirect]
    rw [hr'] at hmem
    rw [hr] at hmem h
    simp only [hr, hr']
    rw [if_pos (hmem.2 h), if_pos h]
    rfl
  · rw [redirect_of_not_mem h, redirect_of_not_mem (mt hmem.1 h)]

namespace Element

theorem mapInputs_rename {f f' : InputSide → InputSide}
    (h : ∀ s : InputSide, f' (s.rename ρ) = (f s).rename ρ) (e : Element) :
    (e.rename ρ).mapInputs f' = (e.mapInputs f).rename ρ := by
  have hs (s : InputSource) :
      (s.mapSide (·.rename ρ)).mapSide f' = (s.mapSide f).mapSide (·.rename ρ) := by
    cases s with
    | connected side => exact congrArg InputSource.connected (h side)
    | expression text => rfl
  cases e with
  | block x => simp [rename, mapInputs, Block.rename, Block.mapInputs, hs]
  | _ => simp [rename, mapInputs, LeftRail.rename, RightRail.rename, Contact.rename, Coil.rename,
      InVariable.rename, OutVariable.rename, h]

theorem mapOutputs_rename (f : OutputSide → OutputSide) (e : Element) :
    (e.rename ρ).mapOutputs f = (e.mapOutputs f).rename ρ := by
  cases e <;> rfl

theorem mapConnections_rename {f f' : Connection → Connection}
    (h : ∀ c : Connection, f' (c.rename ρ) = (f c).rename ρ) (e : Element) :
    (e.rename ρ).mapConnections f' = (e.mapConnections f).rename ρ := by
  apply mapInputs_rename
  intro s
  simp [InputSide.rename, h]

theorem stripped_rename (e : Element) : (e.rename ρ).stripped = e.stripped.rename ρ := by
  rw [stripped, stripped, mapInputs_rename, mapOutputs_rename]
  intro s
  simp [InputSide.rename, Connection.rename]

theorem blanked_rename (e : Element) : (e.rename ρ).blanked = e.blanked.rename ρ := by
  rw [blanked, blanked, mapConnections_rename (f := fun c =>
    { c with formalParameter := c.formalParameter.map blankName }) ρ fun _ => rfl]
  generalize e.mapConnections _ = e'
  cases e' <;> rfl

theorem shared_rename {f f' : UInt64 → UInt64} (h : ∀ id, f' (ρ.localId id) = ρ.localId (f id))
    (e : Element) : (e.rename ρ).shared f' = (e.shared f).rename ρ := by
  have hc (c : Connection) : { c.rename ρ with refLocalId := f' (c.rename ρ).refLocalId } =
      Connection.rename ρ { c with refLocalId := f c.refLocalId } := by
    simp only [Connection.rename, h]
  cases e with
  | leftRail _ | rightRail _ => rfl
  | _ => exact mapConnections_rename ρ hc _

theorem adapted_rename {f f' : UInt64 → UInt64} (config : Config)
    (h : ∀ id, f' (ρ.localId id) = ρ.localId (f id)) (e : Element) :
    (e.rename ρ).adapted config f' = (e.adapted config f).rename ρ := by
  unfold adapted
  cases config.sharedPowerRails <;> cases config.routingPoints <;>
    cases config.blankDefaultOutput <;>
    simp [shared_rename ρ h, stripped_rename, blanked_rename]

end Element

theorem cutRails_rename (config : Config) (b : Body) :
    (b.rename ρ).cutRails config = (b.cutRails config).rename ρ := by
  unfold cutRails
  cases config.sharedPowerRails
  · rfl
  · simp [firstRails, rename, List.map_take]

/-- The passes of a dialect only copy local ids and compare them. -/
theorem adapt_rename (config : Config) (b : Body) :
    (b.rename ρ).adapt config = (b.adapt config).rename ρ := by
  apply eq_of_elements_eq
  rw [elements_adapt, cutRails_rename, elements_rename, elements_rename, elements_adapt,
    List.map_map, List.map_map]
  apply List.map_congr_left
  intro e _
  exact Element.adapted_rename ρ config (redirect_rename ρ b) e

end Body

end

end LadderDiagram
