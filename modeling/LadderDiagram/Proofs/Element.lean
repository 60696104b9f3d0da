import LadderDiagram.Proofs.Citation

/-!
# Elements and their nodes

The input sides of an element, each with the connector it stands at, and what
`RungContext.emit` makes of a node: an element of the same kind and the same
local id, on whose sides the connections into the node are collected. Where no
wire leads, a bound variable takes part: as the operand of a pin
(`boundExpression_eq`), or with a connection to the pin that it reports
(`boundPin_eq`).
-/

namespace LadderDiagram

open Body (Connection InputSide Element)

namespace Body.Element

def tag : Element → String
  | leftRail _ => "leftRail"
  | rightRail _ => "rightRail"
  | block _ => "block"
  | contact _ => "contact"
  | coil _ => "coil"
  | inVariable _ => "variableIn"
  | outVariable _ => "variableOut"

/-- The input sides: one of the whole element, or one for each wired pin of a block. -/
def sides : Element → List (Option String × InputSide)
  | rightRail e => [(none, e.input)]
  | contact e => [(none, e.input)]
  | coil e => [(none, e.input)]
  | outVariable e => [(none, e.input)]
  | block e => e.inputs.filterMap fun i =>
    match i.source with
    | .connected side => some (some i.formalParameter, side)
    | .expression _ => none
  | leftRail _ | inVariable _ => []

def connections (e : Element) : List Connection := e.sides.flatMap (·.2.connections)

def refs (e : Element) : List UInt64 := e.connections.map (·.refLocalId)

end Body.Element

namespace Node

/-- The input sides on which wires into the node count: any connector, or each pin of a block. -/
def sides (n : Node) : List (Option String) :=
  match n.kind with
  | .rightRail | .contact .. | .coil .. => [none]
  | .block data => data.inputs.map (some ·.id)
  | _ => []

theorem sides_of_isVariable {n : Node} (h : n.kind.isVariable = true) : n.sides = [] := by
  unfold NodeKind.isVariable at h
  unfold sides
  split at h
  · rename_i hk; rw [hk]
  · rename_i hk; rw [hk]
  · cases h

/-- The edge ends on the node where power enters it: on a block, at an input pin. -/
def Receives (n : Node) (l : Edge) : Prop :=
  match n.kind with
  | .rightRail | .contact .. | .coil .. => True
  | .block data => ∃ pin ∈ data.inputs, l.targetHandle = pin.id
  | _ => False

theorem receives_iff {n : Node} {l : Edge} :
    n.Receives l ↔ ∃ side ∈ n.sides, ∀ h ∈ side, l.targetHandle = h := by
  unfold Receives sides
  cases n.kind <;> simp

/-- The node becomes an element that wires may cite. -/
def isCitable (n : Node) : Bool := n.isWireSource && !n.kind.isParallel

theorem isCitable_iff {n : Node} : n.isCitable = true ↔
    n.kind.tag ∈ ["leftRail", "rightRail", "contact", "coil", "block"] := by
  unfold isCitable isWireSource
  cases n.kind <;> simp [NodeKind.tag, NodeKind.isParallel]

theorem isCitable_of_mem {n : Node} {tags : List String} (h : n.kind.tag ∈ tags)
    (ht : tags ⊆ ["leftRail", "rightRail", "contact", "coil", "block"]) : n.isCitable = true :=
  isCitable_iff.2 (ht h)

theorem isCitable_of_isWireSource {n : Node} (hs : n.isWireSource = true)
    (hp : n.kind.isParallel = false) : n.isCitable = true := by
  rw [isCitable, hs, hp]
  rfl

section
variable {n : Node} (h : n.isCitable = true)
include h

theorem isWireSource_of_isCitable : n.isWireSource = true := (Bool.and_eq_true_iff.1 h).1

theorem isParallel_of_isCitable : n.kind.isParallel = false := by
  simpa using (Bool.and_eq_true_iff.1 h).2

theorem isVariable_of_isCitable : n.kind.isVariable = false := by
  have hs := isWireSource_of_isCitable h
  unfold isWireSource at hs
  cases hk : n.kind with
  | variableIn | variableOut => rw [hk] at hs; cases hs
  | _ => rfl

theorem isClose_of_isCitable : n.isClose = false := by
  have hp := isParallel_of_isCitable h
  unfold isClose
  split
  · rename_i hk; rw [hk] at hp; cases hp
  · rfl

end

/-- The node becomes an element: it is no marker and of no unknown kind, and a variable has a
name. -/
def isExported (n : Node) : Bool :=
  match n.kind with
  | .variableIn data | .variableOut data => !data.name.isEmpty
  | .parallelOpen _ | .parallelClose _ | .unknown => false
  | _ => true

theorem isExported_of_isCitable {n : Node} (h : n.isCitable = true) : n.isExported = true := by
  unfold isCitable isWireSource at h
  unfold isExported
  cases hk : n.kind with
  | variableIn | variableOut | unknown => rw [hk] at h; cases h
  | parallelOpen | parallelClose => rw [hk] at h; simp [NodeKind.isParallel] at h
  | _ => rfl

theorem kind_of_tag {n : Node} (h : n.kind.tag = "leftRail") : n.kind = .leftRail := by
  cases hk : n.kind with
  | leftRail => rfl
  | _ => rw [hk] at h; simp [NodeKind.tag] at h

theorem exists_block_of_tag {n : Node} (h : n.kind.tag = "block") :
    ∃ data, n.kind = .block data := by
  cases hk : n.kind with
  | block data => exact ⟨data, rfl⟩
  | _ => rw [hk] at h; simp [NodeKind.tag] at h

end Node

namespace RungContext

/-- What each kind of node becomes. -/
inductive Emits (cx : RungContext) (n : Node) : Emitted → Prop where
  | leftRail : n.kind = .leftRail → Emits cx n { element := some (.leftRail (cx.leftRail n)) }
  | rightRail {x : Body.RightRail} : n.kind = .rightRail → cx.rightRail n = .ok x →
      Emits cx n { element := some (.rightRail x) }
  | contact {operand : String} {variant : ContactVariant} {x : Body.Contact} :
      n.kind = .contact operand variant → cx.contact n operand variant = .ok x →
      Emits cx n { element := some (.contact x) }
  | coil {operand : String} {variant : CoilVariant} {x : Body.Coil} :
      n.kind = .coil operand variant → cx.coil n operand variant = .ok x →
      Emits cx n { element := some (.coil x) }
  | block {data : BlockData} {x : Body.Block} {warnings : List Warning} :
      n.kind = .block data → cx.block n data = .ok (x, warnings) →
      Emits cx n { element := some (.block x), warnings }
  | inVariable {data : VariableData} : n.kind = .variableIn data →
      Emits cx n { element := (cx.inVariable n data).map .inVariable }
  | outVariable {data : VariableData} {x : Body.OutVariable} {warnings : List Warning} :
      n.kind = .variableOut data → cx.outVariable n data = some (x, warnings) →
      Emits cx n { element := some (.outVariable x), warnings }
  | unnamed {data : VariableData} : n.kind = .variableOut data → cx.outVariable n data = none →
      Emits cx n {}
  | marker : n.kind.isParallel = true → Emits cx n {}
  | unknown : n.kind = .unknown → Emits cx n { warnings := [.unknownNodeKind cx.index n.id] }

variable {cx : RungContext} {n : Node} {em : Emitted} {e : Element}

theorem emits_of_emit (h : cx.emit n = .ok em) : Emits cx n em := by
  unfold emit at h
  split at h
  case h_1 hk => cases h; exact .leftRail hk
  case h_2 hk =>
    obtain ⟨x, hx, h⟩ := bind_eq_ok.1 h
    cases h; exact .rightRail hk hx
  case h_3 hk =>
    obtain ⟨x, hx, h⟩ := bind_eq_ok.1 h
    cases h; exact .contact hk hx
  case h_4 hk =>
    obtain ⟨x, hx, h⟩ := bind_eq_ok.1 h
    cases h; exact .coil hk hx
  case h_5 hk =>
    obtain ⟨⟨x, ws⟩, hx, h⟩ := bind_eq_ok.1 h
    cases h; exact .block hk hx
  case h_6 hk => cases h; exact .inVariable hk
  case h_7 hk =>
    split at h
    · rename_i x ws hx
      cases h; exact .outVariable hk hx
    · rename_i hx
      cases h; exact .unnamed hk hx
  case h_8 hk => cases h; exact .marker (by rw [hk]; rfl)
  case h_9 hk => cases h; exact .marker (by rw [hk]; rfl)
  case h_10 hk => cases h; exact .unknown hk

theorem rightRail_eq_ok {x : Body.RightRail} (h : cx.rightRail n = .ok x) :
    x.localId = n.numericId ∧ cx.collect n none n.inputPoint = .ok x.input.connections := by
  obtain ⟨cs, hcs, h⟩ := bind_eq_ok.1 h
  cases h
  exact ⟨rfl, hcs⟩

theorem contact_eq_ok {operand : String} {variant : ContactVariant} {x : Body.Contact}
    (h : cx.contact n operand variant = .ok x) :
    x.localId = n.numericId ∧ cx.collect n none n.inputPoint = .ok x.input.connections := by
  obtain ⟨cs, hcs, h⟩ := bind_eq_ok.1 h
  cases h
  exact ⟨rfl, hcs⟩

theorem coil_eq_ok {operand : String} {variant : CoilVariant} {x : Body.Coil}
    (h : cx.coil n operand variant = .ok x) :
    x.localId = n.numericId ∧ cx.collect n none n.inputPoint = .ok x.input.connections := by
  obtain ⟨cs, hcs, h⟩ := bind_eq_ok.1 h
  cases h
  exact ⟨rfl, hcs⟩

theorem pinSource_eq_ok {pin : Connector} {source : Option Body.InputSource}
    (h : cx.pinSource n pin = .ok source) :
    ∃ cs, cx.collect n (some pin.id) pin.absolute = .ok cs ∧
      source = if cs = [] then (cx.boundExpression n pin).map .expression
        else some (.connected (inputSide (some pin) cs)) := by
  obtain ⟨cs, hcs, h⟩ := bind_eq_ok.1 h
  refine ⟨cs, hcs, ?_⟩
  cases cs with
  | nil => cases h; rfl
  | cons c cs => cases h; rfl

/-- The input pins of a block are those of its node that have a source, in their order. -/
theorem block_eq_ok {data : BlockData} {x : Body.Block} {warnings : List Warning}
    (h : cx.block n data = .ok (x, warnings)) :
    ∃ pins, data.inputs.mapM (fun pin => do return (pin, ← cx.pinSource n pin)) = .ok pins ∧
      x.localId = n.numericId ∧
      x.inputs = pins.filterMap (fun (pin, source) => source.map (⟨pin.id, ·⟩)) ∧
      warnings = (pins.filter fun (_, source) => source.isNone).map
        fun (pin, _) => cx.dangling n pin.id := by
  obtain ⟨pins, hpins, h⟩ := bind_eq_ok.1 h
  cases h
  exact ⟨pins, hpins, rfl, rfl, rfl⟩

theorem collect_of_block {data : BlockData} {x : Body.Block} {warnings : List Warning}
    (h : cx.block n data = .ok (x, warnings)) {pin : Connector} (hp : pin ∈ data.inputs) :
    ∃ cs, cx.collect n (some pin.id) pin.absolute = .ok cs := by
  obtain ⟨pins, hpins, -⟩ := block_eq_ok h
  obtain ⟨p, -, hb⟩ := exists_of_mapM_eq_ok hpins hp
  obtain ⟨source, hsource, -⟩ := bind_eq_ok.1 hb
  obtain ⟨cs, hcs, -⟩ := pinSource_eq_ok hsource
  exact ⟨cs, hcs⟩

/-- The input sides of a block are those of its pins into which a connection leads. -/
theorem mem_sides_block {data : BlockData} {x : Body.Block} {warnings : List Warning}
    (h : cx.block n data = .ok (x, warnings)) {side : Option String} {s : InputSide} :
    (side, s) ∈ (Element.block x).sides ↔
      ∃ pin ∈ data.inputs, side = some pin.id ∧
        ∃ cs, cx.collect n (some pin.id) pin.absolute = .ok cs ∧ cs ≠ [] ∧
          s = inputSide (some pin) cs := by
  obtain ⟨pins, hpins, -, hin, -⟩ := block_eq_ok h
  have hmem {pin : Connector} {source : Option Body.InputSource} :
      (pin, source) ∈ pins ↔ pin ∈ data.inputs ∧ cx.pinSource n pin = .ok source := by
    rw [mem_of_mapM_eq_ok hpins]
    simp only [bind_eq_ok, pure_eq_ok, Prod.mk.injEq]
    constructor
    · rintro ⟨_, hp, _, hs, rfl, rfl⟩
      exact ⟨hp, hs⟩
    · rintro ⟨hp, hs⟩
      exact ⟨pin, hp, source, hs, rfl, rfl⟩
  unfold Element.sides
  simp only [hin, List.mem_filterMap]
  constructor
  · rintro ⟨i, ⟨⟨pin, source⟩, hps, hi⟩, hs⟩
    obtain ⟨hp, hsource⟩ := hmem.1 hps
    obtain ⟨cs, hcs, rfl⟩ := pinSource_eq_ok hsource
    obtain ⟨src, hsrc, rfl⟩ := Option.map_eq_some_iff.1 hi
    by_cases hc : cs = []
    · rw [if_pos hc] at hsrc
      obtain ⟨text, -, rfl⟩ := Option.map_eq_some_iff.1 hsrc
      cases hs
    · rw [if_neg hc] at hsrc
      cases hsrc
      cases hs
      exact ⟨pin, hp, rfl, cs, hcs, hc, rfl⟩
  · rintro ⟨pin, hp, rfl, cs, hcs, hc, rfl⟩
    obtain ⟨⟨pin', source⟩, hps, hb⟩ := exists_of_mapM_eq_ok hpins hp
    obtain ⟨source', hsource, hb⟩ := bind_eq_ok.1 hb
    cases hb
    obtain ⟨cs', hcs', rfl⟩ := pinSource_eq_ok hsource
    cases hcs.symm.trans hcs'
    exact ⟨_, ⟨_, hps, by rw [if_neg hc]; rfl⟩, rfl⟩

theorem inVariable_eq_some {data : VariableData} {x : Body.InVariable}
    (h : cx.inVariable n data = some x) : x.localId = n.numericId := by
  unfold inVariable at h
  split at h
  · cases h
  · cases h; rfl

theorem outVariable_eq_some {data : VariableData} {x : Body.OutVariable} {warnings : List Warning}
    (h : cx.outVariable n data = some (x, warnings)) :
    x.localId = n.numericId ∧ x.input.connections = (cx.boundPin n).toList := by
  unfold outVariable at h
  split at h
  · cases h
  · cases h; exact ⟨rfl, rfl⟩

theorem inVariable_eq_none_iff {data : VariableData} :
    cx.inVariable n data = none ↔ data.name = "" := by
  unfold inVariable
  split <;> simp_all

theorem outVariable_eq_none_iff {data : VariableData} :
    cx.outVariable n data = none ↔ data.name = "" := by
  unfold outVariable
  split <;> simp_all

theorem warnings_of_outVariable {data : VariableData} {x : Body.OutVariable}
    {warnings : List Warning} (h : cx.outVariable n data = some (x, warnings)) :
    warnings = if (cx.boundPin n).isSome then [] else [cx.dangling n data.name] := by
  unfold outVariable at h
  split at h
  · cases h
  · cases h; rfl

theorem localId_of_emit (h : cx.emit n = .ok em) (he : em.element = some e) :
    e.localId = n.numericId ∧ e.tag = n.kind.tag := by
  cases emits_of_emit h with
  | leftRail hk => cases he; rw [hk]; exact ⟨rfl, rfl⟩
  | rightRail hk hx => cases he; rw [hk]; exact ⟨(rightRail_eq_ok hx).1, rfl⟩
  | contact hk hx => cases he; rw [hk]; exact ⟨(contact_eq_ok hx).1, rfl⟩
  | coil hk hx => cases he; rw [hk]; exact ⟨(coil_eq_ok hx).1, rfl⟩
  | block hk hx =>
    obtain ⟨_, _, hid, _⟩ := block_eq_ok hx
    cases he; rw [hk]; exact ⟨hid, rfl⟩
  | inVariable hk =>
    obtain ⟨x, hx, he⟩ := Option.map_eq_some_iff.1 he
    cases he; rw [hk]; exact ⟨inVariable_eq_some hx, rfl⟩
  | outVariable hk hx => cases he; rw [hk]; exact ⟨(outVariable_eq_some hx).1, rfl⟩
  | unnamed | marker | unknown => cases he

theorem isSome_element_of_emit (h : cx.emit n = .ok em) : em.element.isSome = n.isExported := by
  unfold Node.isExported
  cases emits_of_emit h with
  | leftRail hk | rightRail hk | contact hk | coil hk | block hk | unknown hk => rw [hk]; rfl
  | @inVariable data hk =>
    have hname : cx.inVariable n data = none ↔ data.name = "" := inVariable_eq_none_iff
    rw [hk, Option.isSome_map, Bool.eq_iff_iff, Option.isSome_iff_ne_none, ne_eq, hname]
    simp
  | outVariable hk hx =>
    have hname := mt outVariable_eq_none_iff.2 (by rw [hx]; simp)
    rw [hk]
    simp [hname]
  | unnamed hk hx =>
    rw [hk]
    simp [outVariable_eq_none_iff.1 hx]
  | marker hk =>
    unfold NodeKind.isParallel at hk
    split at hk <;> simp_all

theorem map_key_of_emit (h : cx.emit n = .ok em) :
    em.element.map (fun e => (e.tag, e.localId)) =
      if n.isExported then some (n.kind.tag, n.numericId) else none := by
  have hs := isSome_element_of_emit h
  cases he : em.element with
  | none =>
    rw [he] at hs
    simp [← hs]
  | some e =>
    rw [he] at hs
    obtain ⟨hid, htag⟩ := localId_of_emit h he
    simp [← hs, hid, htag]

/-- No node that wires may cite is left out. -/
theorem exists_element_of_emit (h : cx.emit n = .ok em) (hn : n.isExported = true) :
    ∃ e, em.element = some e :=
  Option.isSome_iff_exists.1 (by rw [isSome_element_of_emit h, hn])

/-- The sides of an element. A right rail, contact or coil has a single one, a block has those of
its pins; no wire counts on the side of a variable. -/
theorem sides_cases (h : cx.emit n = .ok em) (he : em.element = some e) :
    (∃ s target, n.sides = [none] ∧ e.sides = [(none, s)] ∧
        cx.collect n none target = .ok s.connections) ∨
      (∃ data x warnings, n.sides = data.inputs.map (some ·.id) ∧ e = .block x ∧
        cx.block n data = .ok (x, warnings)) ∨
      (n.sides = [] ∧ ∀ p ∈ e.sides, n.kind.isVariable = true ∧
        p.2.connections = (cx.boundPin n).toList) := by
  unfold Node.sides
  cases emits_of_emit h with
  | leftRail hk =>
    cases he; rw [hk]
    exact .inr (.inr ⟨rfl, fun _ hs => (List.not_mem_nil hs).elim⟩)
  | rightRail hk hx =>
    cases he; rw [hk]
    exact .inl ⟨_, _, rfl, rfl, (rightRail_eq_ok hx).2⟩
  | contact hk hx =>
    cases he; rw [hk]
    exact .inl ⟨_, _, rfl, rfl, (contact_eq_ok hx).2⟩
  | coil hk hx =>
    cases he; rw [hk]
    exact .inl ⟨_, _, rfl, rfl, (coil_eq_ok hx).2⟩
  | block hk hx =>
    cases he; rw [hk]
    exact .inr (.inl ⟨_, _, _, rfl, rfl, hx⟩)
  | inVariable hk =>
    obtain ⟨x, hx, he⟩ := Option.map_eq_some_iff.1 he
    cases he; rw [hk]
    exact .inr (.inr ⟨rfl, fun _ hs => (List.not_mem_nil hs).elim⟩)
  | outVariable hk hx =>
    cases he; rw [hk]
    refine .inr (.inr ⟨rfl, ?_⟩)
    intro p hp
    rw [List.mem_singleton.1 hp]
    exact ⟨rfl, (outVariable_eq_some hx).2⟩
  | unnamed | marker | unknown => cases he

/-- On an input side stand the connections that were collected for it, or, on the side of an
out-variable, the one of its bound pin. -/
theorem collect_of_mem_sides (h : cx.emit n = .ok em) (he : em.element = some e)
    {side : Option String} {s : InputSide} (hs : (side, s) ∈ e.sides) :
    (side ∈ n.sides ∧ ∃ target, cx.collect n side target = .ok s.connections) ∨
      (n.kind.isVariable = true ∧ s.connections = (cx.boundPin n).toList) := by
  rcases sides_cases h he with ⟨s', target, hn, hes, hc⟩ | ⟨data, x, _, hn, rfl, hx⟩ | ⟨-, hv⟩
  · rw [hes] at hs
    cases List.mem_singleton.1 hs
    rw [hn]
    exact .inl ⟨List.mem_singleton_self _, target, hc⟩
  · obtain ⟨pin, hp, rfl, cs, hcs, -, rfl⟩ := (mem_sides_block hx).1 hs
    rw [hn]
    exact .inl ⟨List.mem_map_of_mem hp, _, hcs⟩
  · exact .inr (hv _ hs)

/-- Every connection that is collected for an input side of a node stands on its element. -/
theorem exists_collect_of_emit (h : cx.emit n = .ok em) (he : em.element = some e)
    {side : Option String} (hside : side ∈ n.sides) :
    ∃ target cs, cx.collect n side target = .ok cs ∧
      ∀ c ∈ cs, ∃ s, (side, s) ∈ e.sides ∧ c ∈ s.connections := by
  rcases sides_cases h he with ⟨s, target, hn, hes, hc⟩ | ⟨data, x, _, hn, rfl, hx⟩ | ⟨hn, -⟩
  · rw [hn] at hside
    cases List.mem_singleton.1 hside
    refine ⟨target, _, hc, fun c hcs => ⟨s, ?_, hcs⟩⟩
    rw [hes]
    exact List.mem_singleton_self _
  · rw [hn] at hside
    obtain ⟨pin, hp, rfl⟩ := List.mem_map.1 hside
    obtain ⟨cs, hcs⟩ := collect_of_block hx hp
    refine ⟨_, cs, hcs, fun c hc => ⟨inputSide (some pin) cs, (mem_sides_block hx).2 ?_, hc⟩⟩
    exact ⟨pin, hp, rfl, cs, hcs, List.ne_nil_of_mem hc, rfl⟩
  · rw [hn] at hside
    cases hside

end RungContext

/-- The element cites a local id on one of its input sides, by a pin or without. -/
def Body.Element.Cites (e : Element) (side : Option String) (id : UInt64) (pin : Option String) :
    Prop :=
  ∃ s, (side, s) ∈ e.sides ∧ ∃ c ∈ s.connections, c.refLocalId = id ∧ c.formalParameter = pin

instance (e : Element) (side : Option String) (id : UInt64) (pin : Option String) :
    Decidable (e.Cites side id pin) :=
  decidable_of_iff (∃ p ∈ e.sides, p.1 = side ∧
      ∃ c ∈ p.2.connections, c.refLocalId = id ∧ c.formalParameter = pin) <| by
    constructor
    · rintro ⟨⟨_, s⟩, hs, rfl, hc⟩
      exact ⟨s, hs, hc⟩
    · rintro ⟨s, hs, hc⟩
      exact ⟨(side, s), hs, rfl, hc⟩

/-- The sides of an element cite the nodes behind those from which edges enter them. -/
theorem RungContext.cites_iff {r : Rung} {index : Nat} {offset : Offset} {n : Node} {em : Emitted}
    {e : Element} (h : (r.context index offset).emit n = .ok em) (he : em.element = some e)
    {side : Option String} (hside : side ∈ n.sides) {id : UInt64} {pin : Option String} :
    e.Cites side id pin ↔
      ∃ m l a, r.Enters m l n side ∧ r.Behind a m ∧ a.isWireSource = true ∧ a.numericId = id ∧
        Rung.pinAt a m l = pin := by
  constructor
  · rintro ⟨s, hs, hc⟩
    rcases collect_of_mem_sides h he hs with ⟨-, target, hcs⟩ | ⟨hv, -⟩
    · exact (collect_cites_iff hcs).1 hc
    · rw [Node.sides_of_isVariable hv] at hside; cases hside
  · intro hm
    obtain ⟨target, cs, hcs, hmem⟩ := exists_collect_of_emit h he hside
    obtain ⟨c, hc, hid⟩ := (collect_cites_iff hcs).2 hm
    obtain ⟨s, hs, hcs⟩ := hmem c hc
    exact ⟨s, hs, c, hcs, hid⟩

/-! ### Bound variables -/

def Body.Connection.mapPoints (f : Point → Point) (c : Connection) : Connection :=
  { c with points := c.points.map f }

namespace Node

/-- The output pin of the given name, if the node is a block that has one. -/
def outputPin? (n : Node) (pin : Option String) : Option Connector :=
  match n.kind with
  | .block data => pin.bind data.output?
  | _ => none

/-- Where a wire begins that leaves the node: at the pin of the given name or, without such a pin,
at the main output. -/
def exitPoint (n : Node) (pin : Option String) : Point :=
  (n.outputPin? pin).elim n.outputPoint (·.absolute)

end Node

namespace Rung

/-- The name of the in-variable that an id names, if it has a name. -/
def operand? (r : Rung) (id : String) : Option String := do
  let v ← r.node? id
  match v.kind with
  | .variableIn data => if data.name.isEmpty then none else some data.name
  | _ => none

theorem operand?_eq_some_iff {r : Rung} {id name : String} : r.operand? id = some name ↔
    ∃ v data, r.node? id = some v ∧ v.kind = .variableIn data ∧ data.name ≠ "" ∧
      data.name = name := by
  simp only [operand?, Option.bind_eq_bind, Option.bind_eq_some_iff]
  constructor
  · rintro ⟨v, hv, h⟩
    split at h
    · rename_i data hk
      split at h
      · cases h
      · rename_i hname
        exact ⟨v, data, hv, hk, by simpa using hname, Option.some.inj h⟩
    · cases h
  · rintro ⟨v, data, hv, hk, hname, rfl⟩
    exact ⟨v, hv, by simp [hk, hname]⟩

/-- The connection from a variable to the pin that it is bound to, in the coordinates of the
editor. -/
def drawnPin (r : Rung) (n : Node) : Option Connection := do
  let binding ← r.bindingForVariable? n.id
  let block ← r.node? binding.blockId
  match block.kind with
  | .block _ => some {
      refLocalId := block.numericId
      formalParameter := some binding.handle
      points := [n.inputPoint, block.exitPoint (some binding.handle)] }
  | _ => none

theorem drawnPin_eq_some_iff {r : Rung} {n : Node} {c : Connection} :
    r.drawnPin n = some c ↔ ∃ binding block, r.bindingForVariable? n.id = some binding ∧
      r.node? binding.blockId = some block ∧ block.kind.tag = "block" ∧
      c = ⟨block.numericId, some binding.handle,
        [n.inputPoint, block.exitPoint (some binding.handle)]⟩ := by
  simp only [drawnPin, Option.bind_eq_bind, Option.bind_eq_some_iff]
  constructor
  · rintro ⟨binding, hb, block, hv, h⟩
    split at h
    · rename_i hk
      cases h
      exact ⟨binding, block, hb, hv, by rw [hk]; rfl, rfl⟩
    · cases h
  · rintro ⟨binding, block, hb, hv, ht, rfl⟩
    obtain ⟨data, hk⟩ := Node.exists_block_of_tag ht
    exact ⟨binding, hb, block, hv, by rw [hk]⟩

end Rung

namespace RungContext

variable {r : Rung} {index : Nat} {offset : Offset} {n : Node}

theorem node?_context (id : String) : (r.context index offset).topology.node? id = r.node? id :=
  Topology.node?_ofRung r id

theorem boundExpression_eq {pin : Connector} : (r.context index offset).boundExpression n pin =
    (r.bindingForHandle? n.id pin.id).bind (r.operand? ·.variableId) := by
  simp only [boundExpression, node?_context]
  rfl

theorem boundPin_eq :
    (r.context index offset).boundPin n = (r.drawnPin n).map (·.mapPoints offset.apply) := by
  unfold boundPin Rung.drawnPin
  simp only [node?_context]
  show (r.bindingForVariable? n.id >>= _) = _
  cases r.bindingForVariable? n.id with
  | none => rfl
  | some binding =>
    show (r.node? binding.blockId >>= _) = Option.map _ (r.node? binding.blockId >>= _)
    cases r.node? binding.blockId with
    | none => rfl
    | some block =>
      simp only [Option.bind_eq_bind, Option.bind_some]
      cases hk : block.kind with
      | block data =>
        simp only [Node.exitPoint, Node.outputPin?, hk, Option.bind_some]
        cases data.output? binding.handle <;> rfl
      | _ => rfl

end RungContext

end LadderDiagram
