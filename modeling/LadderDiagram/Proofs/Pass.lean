import LadderDiagram.Proofs.Lowering

/-!
# Passes, element by element

Every pass of a dialect changes elements one by one and, when rails are shared,
drops some. `mem_elements_adapt` says what stands in an adapted body; the lemmas
after it say what a pass leaves of an element: its local id, its kind, and the
local ids that it cites.
-/

namespace LadderDiagram.Body

namespace Element

def mapInputs (f : InputSide → InputSide) : Element → Element
  | leftRail e => leftRail e
  | rightRail e => rightRail { e with input := f e.input }
  | block e => block (e.mapInputs f)
  | contact e => contact { e with input := f e.input }
  | coil e => coil { e with input := f e.input }
  | inVariable e => inVariable e
  | outVariable e => outVariable { e with input := f e.input }

def mapOutputs (f : OutputSide → OutputSide) : Element → Element
  | leftRail e => leftRail { e with output := f e.output }
  | rightRail e => rightRail e
  | block e => block { e with outputs := e.outputs.map fun o => { o with output := f o.output } }
  | contact e => contact { e with output := f e.output }
  | coil e => coil { e with output := f e.output }
  | inVariable e => inVariable { e with output := f e.output }
  | outVariable e => outVariable e

def mapConnections (f : Connection → Connection) : Element → Element :=
  mapInputs fun side => { side with connections := side.connections.map f }

def stripped (e : Element) : Element :=
  (e.mapInputs fun side =>
    { relPosition := none
      connections := side.connections.map fun c => { c with points := [] } }).mapOutputs
    fun side => { side with relPosition := none }

def blanked (e : Element) : Element :=
  match e.mapConnections fun c =>
    { c with formalParameter := c.formalParameter.map blankName } with
  | block e => block { e with outputs := e.outputs.map fun o =>
      { o with formalParameter := blankName o.formalParameter } }
  | e => e

/-- The element after `Body.shareRails`, which cites `f id` where it cited `id`. -/
def shared (f : UInt64 → UInt64) : Element → Element
  | leftRail e =>
    leftRail { e with output := { e.output with formalParameter := some sharedRailParameter } }
  | rightRail e => rightRail { e with input := { e.input with connections := [] } }
  | e => e.mapConnections fun c => { c with refLocalId := f c.refLocalId }

def adapted (config : Config) (f : UInt64 → UInt64) (e : Element) : Element :=
  let e := if config.sharedPowerRails then e.shared f else e
  let e := if config.routingPoints then e else e.stripped
  if config.blankDefaultOutput then e.blanked else e

end Element

def Connection.adapted (config : Config) (f : UInt64 → UInt64) (c : Connection) : Connection where
  refLocalId := if config.sharedPowerRails then f c.refLocalId else c.refLocalId
  formalParameter :=
    if config.blankDefaultOutput then c.formalParameter.map blankName else c.formalParameter
  points := if config.routingPoints then c.points else []

theorem Connection.refLocalId_adapted {config : Config} (f : UInt64 → UInt64) (c : Connection)
    (h : config.sharedPowerRails = false) : (c.adapted config f).refLocalId = c.refLocalId := by
  rw [adapted, h]
  rfl

@[simp] theorem Connection.isSome_formalParameter_adapted (config : Config) (f : UInt64 → UInt64)
    (c : Connection) : (c.adapted config f).formalParameter.isSome = c.formalParameter.isSome := by
  unfold adapted
  cases config.blankDefaultOutput
  · rfl
  · exact Option.isSome_map

/-- What is cited in place of a local id once rails are shared. -/
def redirect (b : Body) (id : UInt64) : UInt64 :=
  match b.leftRails with
  | [] => id
  | first :: _ => if id ∈ b.leftRails.map (·.localId) then first.localId else id

theorem redirect_of_not_mem {b : Body} {id : UInt64} (h : id ∉ b.leftRails.map (·.localId)) :
    b.redirect id = id := by
  unfold redirect
  cases hrails : b.leftRails with
  | nil => rfl
  | cons first rest =>
    rw [hrails] at h
    exact if_neg h

/-- The body without the rails that are dropped when rails are shared. -/
def firstRails (b : Body) : Body :=
  { b with leftRails := b.leftRails.take 1, rightRails := b.rightRails.take 1 }

/-- The body without the rails that a configuration drops. -/
def cutRails (config : Config) (b : Body) : Body :=
  if config.sharedPowerRails then b.firstRails else b

/-- The element is not dropped when rails are shared. -/
def Keeps (b : Body) : Element → Prop
  | .leftRail e => e ∈ b.leftRails.take 1
  | .rightRail e => e ∈ b.rightRails.take 1
  | _ => True

theorem ofElements_elements (b : Body) : ofElements b.elements = b := by
  simp [ofElements, elements, List.filterMap_append, List.filterMap_map, Function.comp_def,
    Element.leftRail?, Element.rightRail?, Element.block?, Element.contact?, Element.coil?,
    Element.inVariable?, Element.outVariable?]

theorem eq_of_elements_eq {a b : Body} (h : a.elements = b.elements) : a = b := by
  rw [← ofElements_elements a, h, ofElements_elements]

theorem elements_mapInputs (f : InputSide → InputSide) (b : Body) :
    (b.mapInputs f).elements = b.elements.map (Element.mapInputs f) := by
  simp [elements, mapInputs, Element.mapInputs, Function.comp_def]

theorem elements_mapOutputs (f : OutputSide → OutputSide) (b : Body) :
    (b.mapOutputs f).elements = b.elements.map (Element.mapOutputs f) := by
  simp [elements, mapOutputs, Element.mapOutputs, Function.comp_def]

theorem elements_stripRouting (b : Body) :
    b.stripRouting.elements = b.elements.map Element.stripped := by
  rw [stripRouting, elements_mapOutputs, elements_mapInputs, List.map_map]
  rfl

theorem elements_blankOutputs (b : Body) :
    b.blankOutputs.elements = b.elements.map Element.blanked := by
  simp [elements, blankOutputs, mapConnections, mapInputs, Element.blanked,
    Element.mapConnections, Element.mapInputs, Function.comp_def, Block.mapInputs]

theorem mapConnections_eq_self {f : Connection → Connection} (hf : ∀ c, f c = c) (b : Body) :
    b.mapConnections f = b := by
  have hl : (fun c => f c) = id := funext hf
  have hs : (fun side : InputSide => { side with connections := side.connections.map f }) = id := by
    funext side
    rw [show f = id from hl, List.map_id]
    rfl
  have hb : (fun i : BlockInput => { i with source := i.source.mapSide id }) = id := by
    funext i
    obtain ⟨p, side | text⟩ := i <;> rfl
  have hi : Block.mapInputs id = id := by
    funext x
    rw [Block.mapInputs, hb, List.map_id]
    rfl
  rw [mapConnections, hs, mapInputs, hi]
  simp only [id_eq, List.map_id']
  cases b
  simp

theorem redirectRails_eq (b : Body) : b.redirectRails =
    b.mapConnections fun c => { c with refLocalId := b.redirect c.refLocalId } := by
  unfold redirectRails redirect
  cases b.leftRails with
  | nil => exact (mapConnections_eq_self (fun _ => rfl) b).symm
  | cons first rest =>
    refine congrArg (mapConnections · b) (funext fun c => ?_)
    show (if _ then _ else _) = _
    split <;> rfl

theorem elements_shareRails (b : Body) :
    b.shareRails.elements = b.firstRails.elements.map (Element.shared b.redirect) := by
  rw [shareRails, redirectRails_eq]
  simp only [mapConnections, mapInputs, firstRails, elements, List.map_append, List.map_map,
    ← List.map_take, Function.comp_def, Element.shared, Element.mapConnections, Element.mapInputs]

theorem mem_elements_firstRails {b : Body} {e : Element} :
    e ∈ b.firstRails.elements ↔ e ∈ b.elements ∧ b.Keeps e := by
  have hm {α : Type} {l : List α} {x : α} : x ∈ l.take 1 ↔ x ∈ l ∧ x ∈ l.take 1 :=
    (and_iff_right_of_imp List.mem_of_mem_take).symm
  cases e with
  | leftRail x => simpa [elements, firstRails, Keeps, -List.map_take] using hm
  | rightRail x => simpa [elements, firstRails, Keeps, -List.map_take] using hm
  | _ => simp [elements, firstRails, Keeps, -List.map_take]

/-- An adapted body holds the elements that are kept, each adapted. -/
theorem elements_adapt (config : Config) (b : Body) :
    (b.adapt config).elements =
      (b.cutRails config).elements.map (Element.adapted config b.redirect) := by
  have hs : (if config.sharedPowerRails then b.shareRails else b).elements =
      (b.cutRails config).elements.map
        fun e => if config.sharedPowerRails then e.shared b.redirect else e := by
    unfold cutRails
    split
    · exact elements_shareRails b
    · exact (List.map_id _).symm
  have hr (b : Body) : (if config.routingPoints then b else b.stripRouting).elements =
      b.elements.map fun e => if config.routingPoints then e else e.stripped := by
    split
    · exact (List.map_id _).symm
    · exact elements_stripRouting b
  have hb (b : Body) : (if config.blankDefaultOutput then b.blankOutputs else b).elements =
      b.elements.map fun e => if config.blankDefaultOutput then e.blanked else e := by
    split
    · exact elements_blankOutputs b
    · exact (List.map_id _).symm
  rw [adapt, hb, hr, hs, List.map_map, List.map_map]
  rfl

theorem mem_elements_adapt {config : Config} {b : Body} {e : Element} :
    e ∈ (b.adapt config).elements ↔
      ∃ e₀ ∈ b.elements, (config.sharedPowerRails = true → b.Keeps e₀) ∧
        e = e₀.adapted config b.redirect := by
  rw [elements_adapt, List.mem_map]
  apply exists_congr
  intro e₀
  rw [← and_assoc]
  refine and_congr ?_ eq_comm
  unfold cutRails
  cases config.sharedPowerRails
  · simp
  · simpa using mem_elements_firstRails

namespace Element

@[simp] theorem sides_mapInputs (f : InputSide → InputSide) (e : Element) :
    (e.mapInputs f).sides = e.sides.map fun s => (s.1, f s.2) := by
  cases e with
  | block x =>
    simp only [mapInputs, sides, Block.mapInputs, List.filterMap_map, List.map_filterMap]
    apply List.filterMap_congr
    intro i _
    obtain ⟨p, side | text⟩ := i <;> rfl
  | _ => rfl

@[simp] theorem sides_mapOutputs (f : OutputSide → OutputSide) (e : Element) :
    (e.mapOutputs f).sides = e.sides := by
  cases e <;> rfl

theorem connections_mapInputs {f : InputSide → InputSide} {g : Connection → Connection}
    (h : ∀ s, (f s).connections = s.connections.map g) (e : Element) :
    (e.mapInputs f).connections = e.connections.map g := by
  simp [connections, List.flatMap_map, List.map_flatMap, h]

@[simp] theorem connections_mapConnections (g : Connection → Connection) (e : Element) :
    (e.mapConnections g).connections = e.connections.map g :=
  connections_mapInputs (fun _ => rfl) e

theorem connections_stripped (e : Element) :
    e.stripped.connections = e.connections.map fun c => { c with points := [] } := by
  have h (f : OutputSide → OutputSide) (e : Element) :
      (e.mapOutputs f).connections = e.connections := by
    rw [connections, sides_mapOutputs, connections]
  rw [stripped, h]
  exact connections_mapInputs (fun _ => rfl) e

theorem connections_blanked (e : Element) : e.blanked.connections = e.connections.map fun c =>
    { c with formalParameter := c.formalParameter.map blankName } := by
  rw [← connections_mapConnections]
  cases e <;> rfl

theorem connections_shared (f : UInt64 → UInt64) (e : Element) :
    (e.shared f).connections = if e.tag = "rightRail" then [] else
      e.connections.map fun c => { c with refLocalId := f c.refLocalId } := by
  rw [← connections_mapConnections]
  cases e <;> rfl

/-- Connections are adapted one by one, but a right rail that is shared has none. -/
theorem connections_adapted (config : Config) (f : UInt64 → UInt64) (e : Element) :
    (e.adapted config f).connections =
      if config.sharedPowerRails ∧ e.tag = "rightRail" then [] else
        e.connections.map (Connection.adapted config f) := by
  have hs : (if config.sharedPowerRails then e.shared f else e).connections =
      if config.sharedPowerRails ∧ e.tag = "rightRail" then [] else e.connections.map fun c =>
        { c with
          refLocalId := if config.sharedPowerRails then f c.refLocalId else c.refLocalId } := by
    cases config.sharedPowerRails
    · simp
    · simpa using connections_shared f e
  have hr (e : Element) : (if config.routingPoints then e else e.stripped).connections =
      e.connections.map fun c =>
        { c with points := if config.routingPoints then c.points else [] } := by
    cases config.routingPoints
    · exact connections_stripped e
    · exact (List.map_id _).symm
  have hb (e : Element) : (if config.blankDefaultOutput then e.blanked else e).connections =
      e.connections.map fun c => { c with formalParameter :=
        if config.blankDefaultOutput then c.formalParameter.map blankName
        else c.formalParameter } := by
    cases config.blankDefaultOutput
    · exact (List.map_id _).symm
    · exact connections_blanked e
  rw [adapted, hb, hr, hs]
  by_cases h : config.sharedPowerRails ∧ e.tag = "rightRail"
  · rw [if_pos h, if_pos h]
    rfl
  · rw [if_neg h, if_neg h, List.map_map, List.map_map]
    rfl

theorem refs_adapted (config : Config) (f : UInt64 → UInt64) (e : Element) :
    (e.adapted config f).refs =
      if config.sharedPowerRails ∧ e.tag = "rightRail" then [] else
        e.refs.map fun id => if config.sharedPowerRails then f id else id := by
  rw [refs, connections_adapted, apply_ite (List.map _), refs, List.map_map, List.map_map]
  rfl

theorem refs_adapted_of_not_shared {config : Config} (h : config.sharedPowerRails = false)
    (f : UInt64 → UInt64) (e : Element) : (e.adapted config f).refs = e.refs := by
  rw [refs_adapted, h]
  simp

@[simp] theorem localId_adapted (config : Config) (f : UInt64 → UInt64) (e : Element) :
    (e.adapted config f).localId = e.localId := by
  unfold adapted
  cases e <;> cases config.sharedPowerRails <;> cases config.routingPoints <;>
    cases config.blankDefaultOutput <;> rfl

@[simp] theorem tag_adapted (config : Config) (f : UInt64 → UInt64) (e : Element) :
    (e.adapted config f).tag = e.tag := by
  unfold adapted
  cases e <;> cases config.sharedPowerRails <;> cases config.routingPoints <;>
    cases config.blankDefaultOutput <;> rfl

end Element

end LadderDiagram.Body

namespace LadderDiagram

open Body (Element)

/-- The element `e` of the body stands for the node `n` of the rung `r`, which is at
position `i` and was lowered. -/
def Contributes (config : Config) (rungs : List Rung) (i : Nat) (r : Rung) (n : Node)
    (e : Element) : Prop :=
  ∃ o ∈ outcomes rungs, o.index = i ∧ o.rung = r ∧ (∃ low, o.result = .ok low) ∧
    ∃ e₀, r.Emits i o.offset n e₀ ∧ e = e₀.adapted config (plainBody rungs).redirect

section
variable {config : Config} {rungs : List Rung} {i : Nat} {r : Rung} {n : Node} {e : Element}

theorem Contributes.getElem? (h : Contributes config rungs i r n e) : rungs[i]? = some r := by
  obtain ⟨o, ho, rfl, rfl, -⟩ := h
  exact (getElem?_of_mem_outcomes ho).1

theorem Contributes.mem_nodes (h : Contributes config rungs i r n e) : n ∈ r.nodes := by
  obtain ⟨o, -, -, -, -, e₀, he, -⟩ := h
  exact he.1

theorem Contributes.exists_sibling (h : Contributes config rungs i r n e) {m : Node}
    (hm : m ∈ r.nodes) (hc : m.isCitable = true) : ∃ s, Contributes config rungs i r m s := by
  obtain ⟨o, ho, rfl, rfl, ⟨low, hlow⟩, -⟩ := h
  obtain ⟨s₀, hs₀⟩ := Rung.exists_emits_of_lower (lower_of_mem_outcomes ho hlow) hm hc
  exact ⟨_, o, ho, rfl, rfl, ⟨low, hlow⟩, s₀, hs₀, rfl⟩

/-- What stands in the body is adapted from what stands in the plain one. -/
theorem Contributes.exists_plain (h : Contributes config rungs i r n e) :
    ∃ e₀ ∈ (plainBody rungs).elements, (∃ offset, r.Emits i offset n e₀) ∧
      e = e₀.adapted config (plainBody rungs).redirect := by
  obtain ⟨o, ho, rfl, rfl, hlow, e₀, he₀, rfl⟩ := h
  exact ⟨e₀, mem_elements_plainBody.2 ⟨o, ho, hlow, n, he₀⟩, ⟨o.offset, he₀⟩, rfl⟩

theorem Contributes.localId (h : Contributes config rungs i r n e) :
    e.localId = n.numericId ∧ e.tag = n.kind.tag := by
  obtain ⟨o, -, -, -, -, e₀, he₀, rfl⟩ := h
  rw [Element.localId_adapted, Element.tag_adapted]
  exact he₀.localId

theorem exists_contributes (he : e ∈ (lower config rungs).body.elements) :
    ∃ i r n, Contributes config rungs i r n e := by
  rw [body_lower, Body.mem_elements_adapt] at he
  obtain ⟨e₀, he₀, -, rfl⟩ := he
  obtain ⟨o, ho, hlow, n, hn⟩ := mem_elements_plainBody.1 he₀
  exact ⟨o.index, o.rung, n, o, ho, rfl, rfl, hlow, e₀, hn, rfl⟩

/-- Rails aside, what stands for a node is never dropped. -/
theorem Contributes.mem_elements (h : Contributes config rungs i r n e)
    (hk : config.sharedPowerRails = true → e.tag ≠ "leftRail" ∧ e.tag ≠ "rightRail") :
    e ∈ (lower config rungs).body.elements := by
  obtain ⟨o, ho, rfl, rfl, hlow, e₀, he, rfl⟩ := h
  rw [body_lower, Body.mem_elements_adapt]
  refine ⟨e₀, mem_elements_plainBody.2 ⟨o, ho, hlow, n, he⟩, fun hs => ?_, rfl⟩
  have hk := hk hs
  rw [Element.tag_adapted] at hk
  cases e₀ with
  | leftRail x => exact (hk.1 rfl).elim
  | rightRail x => exact (hk.2 rfl).elim
  | _ => trivial

end

/-- What is cited in the body for a local id of the plain body. -/
def citedId (config : Config) (rungs : List Rung) (id : UInt64) : UInt64 :=
  if config.sharedPowerRails then (plainBody rungs).redirect id else id

section
variable {rungs : List Rung}

theorem mem_leftRails_of_tag {b : Body} {a : Element} (ha : a ∈ b.elements)
    (ht : a.tag = "leftRail") : ∃ x ∈ b.leftRails, a = .leftRail x := by
  cases a with
  | leftRail x => exact ⟨x, by simpa [Body.elements] using ha, rfl⟩
  | _ => simp [Element.tag] at ht

/-- A left rail is cited by itself or, once rails are shared, by the one that is kept. -/
theorem exists_leftRail_cited (config : Config) {x : Body.LeftRail}
    (hx : x ∈ (plainBody rungs).leftRails) :
    ∃ y ∈ (plainBody rungs).leftRails,
      (config.sharedPowerRails = true → (plainBody rungs).Keeps (.leftRail y)) ∧
        y.localId = citedId config rungs x.localId := by
  unfold citedId Body.redirect Body.Keeps
  cases config.sharedPowerRails with
  | false => exact ⟨x, hx, nofun, rfl⟩
  | true =>
    cases h : (plainBody rungs).leftRails with
    | nil => rw [h] at hx; cases hx
    | cons first rest =>
      rw [h] at hx
      exact ⟨first, List.mem_cons_self, fun _ => by simp,
        (if_pos (List.mem_map_of_mem hx)).symm⟩

/-- Only the left rails are cited by another local id than their own. -/
theorem citedId_of_not_mem {config : Config} {id : UInt64}
    (h : id ∉ (plainBody rungs).leftRails.map (·.localId)) : citedId config rungs id = id := by
  rw [citedId, Body.redirect_of_not_mem h, ite_self]

end

end LadderDiagram
