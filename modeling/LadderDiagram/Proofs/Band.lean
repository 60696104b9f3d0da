import LadderDiagram.Proofs.Account
import LadderDiagram.Proofs.Isolation
import LadderDiagram.Proofs.Route

/-!
# Rungs in their bands

A rung is drawn on a canvas of its own and moved down to its band. `Rung.Drawn` says what a node
becomes in the coordinates of the editor: its element stands where the node stands, and every
connection is drawn between the connectors of the editor. `offset_added_once` says that lowering a
rung is to draw it and to move each of these points down once, whatever the offset is, and that the
offsets are summed up over all rungs above, those that fail included.

Nothing is used of addition: the offset is added, and no sum is computed in two ways.
-/

namespace LadderDiagram

open Body (Connection InputSide InputSource Element Geometry)
open LadderDiagram.Topology (ofRung)

/-! ### Moving points -/

namespace Body.Element

def mapGeometry (f : Geometry → Geometry) : Element → Element
  | leftRail e => leftRail { e with geometry := f e.geometry }
  | rightRail e => rightRail { e with geometry := f e.geometry }
  | block e => block { e with geometry := f e.geometry }
  | contact e => contact { e with geometry := f e.geometry }
  | coil e => coil { e with geometry := f e.geometry }
  | inVariable e => inVariable { e with geometry := f e.geometry }
  | outVariable e => outVariable { e with geometry := f e.geometry }

/-- The same element with its position and the points of its connections moved. -/
def mapPoints (f : Point → Point) (e : Element) : Element :=
  (e.mapConnections (·.mapPoints f)).mapGeometry fun g => { g with position := f g.position }

end Body.Element

def Emitted.mapPoints (f : Point → Point) (em : Emitted) : Emitted :=
  { em with element := em.element.map (·.mapPoints f) }

def Lowered.mapPoints (f : Point → Point) (low : Lowered) : Lowered :=
  { low with elements := low.elements.map (·.mapPoints f) }

/-! ### The coordinates of the editor -/

def Node.place (n : Node) : Geometry := ⟨n.position, n.width, n.height⟩

/-- The input sides of a node, each with the point where its wires end. -/
def Node.inputPlaces (n : Node) : List (Option String × Point) :=
  match n.kind with
  | .rightRail | .contact .. | .coil .. => [(none, n.inputPoint)]
  | .block data => data.inputs.map fun pin => (some pin.id, pin.absolute)
  | _ => []

namespace Rung

/-- The connections at an input side of a node: those of its wires or, at a variable, the one that
leads to the pin that it is bound to. -/
inductive SideDrawn (r : Rung) (n : Node) : Option String → List Connection → Prop where
  | wires {side : Option String} {target : Point} {cs : List Connection} :
      (side, target) ∈ n.inputPlaces → r.DrawsSide n side target cs → SideDrawn r n side cs
  | bound {binding : Binding} {block : Node} :
      n.kind.isVariable = true → r.bindingForVariable? n.id = some binding →
      r.node? binding.blockId = some block → block.kind.tag = "block" →
      SideDrawn r n none [{
        refLocalId := block.numericId
        formalParameter := some binding.handle
        points := [n.inputPoint, block.exitPoint (some binding.handle)] }]
  | unbound : n.kind.isVariable = true → ¬ r.TakesPin n → SideDrawn r n none []

/-- The element that the node becomes, in the coordinates of the editor. -/
structure Drawn (r : Rung) (n : Node) (e : Element) : Prop where
  geometry : e.geometry = n.place
  sides : ∀ s ∈ e.sides, r.SideDrawn n s.1 s.2.connections

/-- What the node becomes, in the coordinates of the editor. -/
structure EmitsDrawn (r : Rung) (n : Node) (em : Emitted) : Prop where
  isSome : em.element.isSome = n.isExported
  drawn : ∀ e, em.element = some e → r.Drawn n e

end Rung

namespace Rung

theorem Drawn.of_sides_eq_nil {r : Rung} {n : Node} {e : Element} (hg : e.geometry = n.place)
    (hs : e.sides = []) : r.Drawn n e :=
  ⟨hg, by rw [hs]; exact List.forall_mem_nil _⟩

theorem sideDrawn_drawnPin {r : Rung} {n : Node} (hn : n.kind.isVariable = true) :
    r.SideDrawn n none (r.drawnPin n).toList := by
  cases h : r.drawnPin n with
  | none =>
    refine .unbound hn ?_
    rintro ⟨binding, block, hb, hv, ht⟩
    rw [drawnPin_eq_some_iff.2 ⟨binding, block, hb, hv, ht, rfl⟩] at h
    cases h
  | some c =>
    obtain ⟨binding, block, hb, hv, ht, rfl⟩ := drawnPin_eq_some_iff.1 h
    exact .bound hn hb hv ht

end Rung

/-! ### Nodes -/

namespace RungContext

variable {r : Rung} {index : Nat} {n : Node}

/-- A node with one input side is drawn with the connections of its wires. -/
theorem emit_drawnOnce_of_side (make : Geometry → InputSide → Element)
    (hplace : (none, n.inputPoint) ∈ n.inputPlaces) (hx : n.isExported = true)
    (hmove : ∀ f g s, (make g s).mapPoints f = make { g with position := f g.position }
      { s with connections := s.connections.map (·.mapPoints f) })
    (hgeometry : ∀ g s, (make g s).geometry = g) (hsides : ∀ g s, (make g s).sides = [(none, s)])
    (hemit : ∀ o, (r.context index o).emit n = (do
      let cs ← (r.context index o).intoNode n
      return { element := some (make (o.place n) (inputSide n.input cs)) })) :
    DrawnOnce (fun o => Emitted.mapPoints o.apply) (r.EmitsDrawn n)
      fun o => (r.context index o).emit n := by
  simp only [hemit]
  refine (collect_drawnOnce r index n none n.inputPoint).bind_pure
    (k := fun cs => { element := some (make n.place (inputSide n.input cs)) })
    (fun o cs => ?_) fun cs hcs => ?_
  · rw [Emitted.mapPoints, Option.map_some, hmove]
    rfl
  · refine ⟨hx.symm, ?_⟩
    rintro _ ⟨⟩
    refine ⟨hgeometry _ _, fun s hs => ?_⟩
    rw [hsides, List.mem_singleton] at hs
    rw [hs]
    exact .wires hplace hcs

/-- A node of which no wire counts is drawn as it is. -/
theorem emit_drawnOnce_of_ok (em : Emitted) (h : r.EmitsDrawn n em)
    (hemit : ∀ o, (r.context index o).emit n = .ok (em.mapPoints o.apply)) :
    DrawnOnce (fun o => Emitted.mapPoints o.apply) (r.EmitsDrawn n)
      fun o => (r.context index o).emit n := by
  simp only [hemit]
  exact .ok h

/-- A node that becomes no element. -/
theorem emit_drawnOnce_of_none (warnings : List Warning) (hx : n.isExported = false)
    (hemit : ∀ o, (r.context index o).emit n = .ok { warnings }) :
    DrawnOnce (fun o => Emitted.mapPoints o.apply) (r.EmitsDrawn n)
      fun o => (r.context index o).emit n :=
  emit_drawnOnce_of_ok { warnings } ⟨hx.symm, fun _ h => by cases h⟩ hemit

theorem emit_inVariable_drawnOnce {data : VariableData} (hk : n.kind = .variableIn data) :
    DrawnOnce (fun o => Emitted.mapPoints o.apply) (r.EmitsDrawn n)
      fun o => (r.context index o).emit n := by
  cases hname : data.name.isEmpty with
  | true =>
    refine emit_drawnOnce_of_none [] (by simp [Node.isExported, hk, hname]) fun o => ?_
    simp [emit, hk, inVariable, hname]
  | false =>
    let element : Body.InVariable := {
      localId := n.numericId
      geometry := n.place
      negated := false
      executionOrder := data.executionOrder
      output := outputSide n.output
      expression := data.name }
    refine emit_drawnOnce_of_ok { element := some (.inVariable element) } ⟨?_, ?_⟩ fun o => ?_
    · simp [Node.isExported, hk, hname]
    · rintro _ ⟨⟩
      exact .of_sides_eq_nil rfl rfl
    · simp only [emit, hk, inVariable, hname]
      rfl

theorem emit_outVariable_drawnOnce {data : VariableData} (hk : n.kind = .variableOut data) :
    DrawnOnce (fun o => Emitted.mapPoints o.apply) (r.EmitsDrawn n)
      fun o => (r.context index o).emit n := by
  cases hname : data.name.isEmpty with
  | true =>
    refine emit_drawnOnce_of_none [] (by simp [Node.isExported, hk, hname]) fun o => ?_
    simp [emit, hk, outVariable, hname]
  | false =>
    let element : Body.OutVariable := {
      localId := n.numericId
      geometry := n.place
      negated := false
      executionOrder := data.executionOrder
      input := inputSide n.input (r.drawnPin n).toList
      expression := data.name }
    let warnings : List Warning :=
      if (r.drawnPin n).isSome then [] else [.danglingReference index n.id data.name]
    refine emit_drawnOnce_of_ok { element := some (.outVariable element), warnings } ⟨?_, ?_⟩
      fun o => ?_
    · simp [Node.isExported, hk, hname]
    · rintro _ ⟨⟩
      refine ⟨rfl, fun s hs => ?_⟩
      rw [List.mem_singleton.1 hs]
      exact Rung.sideDrawn_drawnPin (by rw [hk]; rfl)
    · simp only [emit, hk, outVariable, hname, boundPin_eq, Option.isSome_map]
      cases h : r.drawnPin n <;> simp [element, warnings, h] <;> rfl

def movePin (f : Point → Point) (p : Connector × Option InputSource) :
    Connector × Option InputSource :=
  (p.1, p.2.map (·.mapSide fun s => { s with connections := s.connections.map (·.mapPoints f) }))

theorem pinSource_drawnOnce (pin : Connector) :
    DrawnOnce (fun o => movePin o.apply)
      (fun p => p.1 = pin ∧ ∀ s, p.2 = some (.connected s) →
        r.DrawsSide n (some pin.id) pin.absolute s.connections)
      fun o => (do return (pin, ← (r.context index o).pinSource n pin) :
        Except MalformedGraph (Connector × Option InputSource)) := by
  let shown (o : Offset) (cs : List Connection) : Connector × Option InputSource := (pin,
    if cs = [] then ((r.context index o).boundExpression n pin).map .expression
    else some (.connected (inputSide (some pin) cs)))
  have hof (o : Offset) : (do return (pin, ← (r.context index o).pinSource n pin) :
      Except MalformedGraph (Connector × Option InputSource)) =
        (do return shown o (← (r.context index o).intoPin n pin)) := by
    rw [pinSource]
    cases (r.context index o).intoPin n pin with
    | error cause => rfl
    | ok cs => cases cs <;> rfl
  simp only [hof]
  refine (collect_drawnOnce r index n (some pin.id) pin.absolute).bind_pure
    (k := shown .zero) (fun o cs => ?_) fun cs hcs => ⟨rfl, fun s hs => ?_⟩
  · cases cs with
    | nil =>
      show _ = (pin, Option.map _ (Option.map _ _))
      rw [Option.map_map]
      rfl
    | cons c cs => rfl
  · cases cs with
    | nil =>
      obtain ⟨_, _, h⟩ := Option.map_eq_some_iff.1 hs
      cases h
    | cons c cs =>
      cases hs
      exact hcs

def madeBlock (n : Node) (data : BlockData) (index : Nat) (g : Geometry)
    (pins : List (Connector × Option InputSource)) : Emitted where
  element := some (.block {
    localId := n.numericId
    typeName := data.typeName
    instanceName := data.instanceName.filter (!·.isEmpty)
    executionOrder := data.executionOrder
    geometry := g
    inputs := pins.filterMap fun (pin, source) => source.map (⟨pin.id, ·⟩)
    outputs := data.outputs.map fun pin => ⟨pin.id, outputSide (some pin)⟩ })
  warnings := (pins.filter fun (_, source) => source.isNone).map
    fun (pin, _) => .danglingReference index n.id pin.id

theorem emit_block {data : BlockData} (hk : n.kind = .block data) (o : Offset) :
    (r.context index o).emit n = (do
      return madeBlock n data index (o.place n) (← (r.context index o).pins n data)) := by
  simp only [emit, hk, block, bind_assoc, pure_bind]
  rfl

theorem madeBlock_map_movePin (data : BlockData) (f : Point → Point) (g : Geometry)
    (pins : List (Connector × Option InputSource)) :
    madeBlock n data index { g with position := f g.position } (pins.map (movePin f)) =
      (madeBlock n data index g pins).mapPoints f := by
  have hinputs : (pins.map (movePin f)).filterMap
        (fun (pin, source) => source.map (Body.BlockInput.mk pin.id)) =
      (pins.filterMap fun (pin, source) => source.map (Body.BlockInput.mk pin.id)).map fun i =>
        { i with source := i.source.mapSide fun s =>
            { s with connections := s.connections.map (·.mapPoints f) } } := by
    rw [List.filterMap_map, List.map_filterMap]
    apply List.filterMap_congr
    rintro ⟨pin, source⟩ -
    cases source <;> rfl
  have hmissing : ((pins.map (movePin f)).filter fun (_, source) => source.isNone).map
        (fun (pin, _) => Warning.danglingReference index n.id pin.id) =
      (pins.filter fun (_, source) => source.isNone).map
        fun (pin, _) => .danglingReference index n.id pin.id := by
    rw [List.filter_map, List.map_map]
    simp only [Function.comp_def, movePin, Option.isNone_map]
  unfold madeBlock
  rw [hinputs, hmissing]
  rfl

theorem emit_block_drawnOnce {data : BlockData} (hk : n.kind = .block data) :
    DrawnOnce (fun o => Emitted.mapPoints o.apply) (r.EmitsDrawn n)
      fun o => (r.context index o).emit n := by
  simp only [emit_block hk]
  refine (DrawnOnce.mapM fun pin _ => pinSource_drawnOnce pin).bind_pure
    (k := madeBlock n data index n.place)
    (fun o pins => madeBlock_map_movePin data o.apply n.place pins) fun pins hpins => ⟨?_, ?_⟩
  · simp [madeBlock, Node.isExported, hk]
  · rintro _ ⟨⟩
    refine ⟨rfl, fun s hs => ?_⟩
    obtain ⟨i, hi, hs⟩ := List.mem_filterMap.1 hs
    obtain ⟨p, hp, hi⟩ := List.mem_filterMap.1 hi
    obtain ⟨source, hsource, rfl⟩ := Option.map_eq_some_iff.1 hi
    obtain ⟨pin, hpin, rfl, hdraws⟩ := exists_left_of_forall₂ hpins hp
    cases source with
    | expression text => cases hs
    | connected side =>
      cases hs
      refine .wires ?_ (hdraws side hsource)
      rw [Node.inputPlaces, hk]
      exact List.mem_map_of_mem hpin

theorem emit_drawnOnce (r : Rung) (index : Nat) (n : Node) :
    DrawnOnce (fun o => Emitted.mapPoints o.apply) (r.EmitsDrawn n)
      fun o => (r.context index o).emit n := by
  cases hk : n.kind with
  | leftRail =>
    refine emit_drawnOnce_of_ok { element := some (.leftRail {
        localId := n.numericId, geometry := n.place
        output := { outputSide n.output with formalParameter := some "" } }) } ⟨?_, ?_⟩ fun o => ?_
    · rw [Node.isExported, hk]
      rfl
    · rintro _ ⟨⟩
      exact .of_sides_eq_nil rfl rfl
    · rw [emit, hk]
      rfl
  | rightRail =>
    refine emit_drawnOnce_of_side
      (fun g s => .rightRail { localId := n.numericId, geometry := g, input := s })
      (by simp [Node.inputPlaces, hk]) (by simp [Node.isExported, hk]) (fun _ _ _ => rfl)
      (fun _ _ => rfl) (fun _ _ => rfl) fun o => ?_
    simp only [emit, hk, rightRail, bind_assoc, pure_bind]
    rfl
  | contact operand variant =>
    refine emit_drawnOnce_of_side
      (fun g s => .contact
        { localId := n.numericId, geometry := g, negated := variant = .negated,
          edge := variant.edge, input := s, output := outputSide n.output,
          operand := operandOr operand })
      (by simp [Node.inputPlaces, hk]) (by simp [Node.isExported, hk]) (fun _ _ _ => rfl)
      (fun _ _ => rfl) (fun _ _ => rfl) fun o => ?_
    simp only [emit, hk, contact, bind_assoc, pure_bind]
    rfl
  | coil operand variant =>
    refine emit_drawnOnce_of_side
      (fun g s => .coil
        { localId := n.numericId, geometry := g, negated := variant = .negated,
          edge := variant.edge, storage := variant.storage, input := s,
          output := outputSide n.output, operand := operandOr operand })
      (by simp [Node.inputPlaces, hk]) (by simp [Node.isExported, hk]) (fun _ _ _ => rfl)
      (fun _ _ => rfl) (fun _ _ => rfl) fun o => ?_
    simp only [emit, hk, coil, bind_assoc, pure_bind]
    rfl
  | block data => exact emit_block_drawnOnce hk
  | variableIn data => exact emit_inVariable_drawnOnce hk
  | variableOut data => exact emit_outVariable_drawnOnce hk
  | parallelOpen branch | parallelClose branch =>
    refine emit_drawnOnce_of_none [] (by rw [Node.isExported, hk]) fun o => ?_
    rw [emit, hk]
  | unknown =>
    refine emit_drawnOnce_of_none [.unknownNodeKind index n.id] (by rw [Node.isExported, hk])
      fun o => ?_
    rw [emit, hk]
    rfl

end RungContext

/-! ### Rungs -/

namespace Rung

variable {r : Rung}

theorem drawn_of_emitsDrawn {nodes : List Node} {emitted : List Emitted}
    (h : List.Forall₂ r.EmitsDrawn nodes emitted) :
    List.Forall₂ r.Drawn (nodes.filter (·.isExported)) (emitted.filterMap (·.element)) := by
  induction h with
  | nil => exact .nil
  | @cons n em nodes emitted hn _ ih =>
    cases he : em.element with
    | none =>
      have hx : n.isExported = false := by rw [← hn.isSome, he]; rfl
      rw [List.filter_cons_of_neg (by rw [hx]; decide), List.filterMap_cons_none he]
      exact ih
    | some e =>
      have hx : n.isExported = true := by rw [← hn.isSome, he]; rfl
      rw [List.filter_cons_of_pos hx, List.filterMap_cons_some he]
      exact .cons (hn.drawn e he) ih

theorem lower_drawnOnce (r : Rung) (index : Nat) :
    DrawnOnce (fun o => Lowered.mapPoints o.apply)
      (fun low => List.Forall₂ r.Drawn (r.nodes.filter (·.isExported)) low.elements)
      fun o => r.lower index o := by
  let made (emitted : List Emitted) : Lowered := {
    elements := emitted.filterMap (·.element)
    warnings := r.danglingWarnings index ++ emitted.flatMap (·.warnings) }
  have hlower (o : Offset) : r.lower index o = ((ofRung r).pairs >>= fun _ => do
      return made (← r.nodes.mapM (r.context index o).emit)) := rfl
  cases hp : (ofRung r).pairs with
  | error cause =>
    refine ⟨.error cause, fun o => ?_, nofun⟩
    show r.lower index o = _
    rw [hlower, hp]
    rfl
  | ok pairs =>
    have hok (o : Offset) : r.lower index o =
        (do return made (← r.nodes.mapM (r.context index o).emit)) := by
      rw [hlower, hp]
      rfl
    simp only [hok]
    refine (DrawnOnce.mapM fun n _ => RungContext.emit_drawnOnce r index n).bind_pure (k := made)
      (g := fun _ => made) (fun o emitted => ?_) fun emitted h => drawn_of_emitsDrawn h
    simp only [made, Lowered.mapPoints, List.filterMap_map, List.map_filterMap, List.flatMap_map]
    rfl

end Rung

theorem outcomesFrom_eq_mapIdx (index : Nat) (offset : Offset) (rungs : List Rung) :
    outcomesFrom index offset rungs = rungs.mapIdx fun k r =>
      ⟨index + k, r, offset.below (rungs.take k),
        r.lower (index + k) (offset.below (rungs.take k))⟩ := by
  induction rungs generalizing index offset with
  | nil => rfl
  | cons r rest ih =>
    rw [outcomesFrom, ih, List.mapIdx_cons]
    simp only [Nat.add_zero, Nat.add_assoc, Nat.add_comm 1]
    rfl

/-- **The offset is added once to every absolute `y`, and to nothing else.** To lower a rung is to
draw it in the coordinates of the editor, or to fail, and then to add the offset to the `y` of the
position of each element and of each point of its connections. The offset of a rung in a list is
that of the first, advanced over all rungs above it, whatever became of them. -/
theorem offset_added_once :
    (∀ (r : Rung) (index : Nat), ∃ drawn : Except MalformedGraph Lowered,
      (∀ offset, r.lower index offset =
        drawn.map (·.mapPoints fun p => ⟨p.x, p.y + offset.y⟩)) ∧
      ∀ low, drawn = .ok low →
        List.Forall₂ r.Drawn (r.nodes.filter (·.isExported)) low.elements) ∧
      ∀ config rungs, lower config rungs = contribution config (rungs.mapIdx fun k r =>
        let offset := (rungs.take k).foldl (fun o above => o.advance above.height) Offset.zero
        ⟨k, r, offset, r.lower k offset⟩) := by
  refine ⟨fun r index => r.lower_drawnOnce index, fun config rungs => ?_⟩
  rw [lower_eq_lowerFrom, lowerFrom, outcomesFrom_eq_mapIdx]
  simp only [Nat.zero_add]
  rfl

/-- A close marker on which no branch ends, on a canvas with a height. -/
def tallSeveredBranch : Rung where
  id := "severedBranch"
  nodes := [
    { id := "rail", numericId := 10, kind := .leftRail },
    { id := "x", numericId := 11, kind := .contact "x" .normal },
    { id := "close", numericId := 12, kind := .parallelClose { id := "up" } },
    { id := "y", numericId := 13, kind := .coil "y" .normal },
    { id := "z", numericId := 14, kind := .unknown }]
  edges := [
    ⟨"rail", "out", "x", "in"⟩, ⟨"x", "out", "close", "in"⟩, ⟨"close", "out", "y", "in"⟩]
  height := 120

/-- Below a rung that fails, the points of a rung are moved by the height of that rung. -/
theorem mixedPin_below_failed_rung :
    let rungs := [tallSeveredBranch, mixedPin]
    ∃ low : Lowered, (∃ f ∈ (lower (.ofDialect .openPlc) rungs).failures, f.rung = 0) ∧
      List.Forall₂ mixedPin.Drawn (mixedPin.nodes.filter (·.isExported)) low.elements ∧
      lower (.ofDialect .openPlc) rungs = contribution (.ofDialect .openPlc) [
        ⟨0, tallSeveredBranch, .zero, tallSeveredBranch.lower 0 .zero⟩,
        ⟨1, mixedPin, ⟨120⟩, .ok (low.mapPoints fun p => ⟨p.x, p.y + 120⟩)⟩] := by
  obtain ⟨hrung, hlist⟩ := offset_added_once
  obtain ⟨drawn, hdrawn, hP⟩ := hrung mixedPin 1
  have hbelow : Offset.zero.advance tallSeveredBranch.height = ⟨120⟩ := by decide +kernel
  have hok : (mixedPin.lower 1 ⟨120⟩).toOption.isSome = true := by decide +kernel
  rw [hdrawn] at hok
  cases drawn with
  | error cause => cases hok
  | ok low =>
    refine ⟨low, by decide +kernel, hP low rfl, ?_⟩
    rw [hlist]
    simp only [List.mapIdx_cons, List.mapIdx_nil, List.take_zero, List.foldl_nil,
      List.take_succ_cons, List.foldl_cons, hbelow, hdrawn, Nat.zero_add]
    rfl

end LadderDiagram
