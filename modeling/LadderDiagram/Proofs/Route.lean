import LadderDiagram.Proofs.Backward

/-!
# Lines of wires

Which connections an input side has, in which order, and along which points each of them is drawn.
A side is entered by the edges that come from anything but variables and unknown kinds
(`Rung.arrivals`). Each of them stands for the sources that the resolver finds behind it
(`Rung.Arrives`), and each source is drawn straight, or in a step along the column of the branch
connector that its chain meets first (`Follows`).

All of this is said in the coordinates of the editor. The offset of the rung comes in at the end, as
one move of every point: `DrawnOnce` says so of anything that is computed at an offset, with a rule
for each way in which it is put together. `connections_drawn` is the case of the input sides.
-/

namespace LadderDiagram

open Body (Connection)
open LadderDiagram.Topology (ofRung mem_incoming map_edge_incoming resolves_iff)

/-! ### Drawn once, moved once -/

/-- What is computed at an offset is drawn without it, as `P` says, and then moved: whether it
fails, and why, is the same at every offset. -/
def DrawnOnce {α : Type} (move : Offset → α → α) (P : α → Prop)
    (f : Offset → Except MalformedGraph α) : Prop :=
  ∃ drawn : Except MalformedGraph α, (∀ o, f o = drawn.map (move o)) ∧ ∀ a, drawn = .ok a → P a

namespace DrawnOnce

variable {α β : Type} {move : Offset → α → α} {move' : Offset → β → β} {P : α → Prop}
  {Q : β → Prop}

/-- What no offset enters into. -/
theorem of_const {x : Except MalformedGraph α} (h : ∀ a, x = .ok a → P a) :
    DrawnOnce (fun _ a => a) P fun _ => x :=
  ⟨x, fun _ => by cases x <;> rfl, h⟩

theorem ok {a : α} (ha : P a) : DrawnOnce move P fun o => .ok (move o a) :=
  ⟨.ok a, fun _ => rfl, by rintro _ ⟨⟩; exact ha⟩

/-- What is made of something drawn once is itself drawn once, if it is moved along with it. -/
theorem bind_pure {f : Offset → Except MalformedGraph α} (h : DrawnOnce move P f)
    {g : Offset → α → β} {k : α → β} (hg : ∀ o a, g o (move o a) = move' o (k a))
    (hk : ∀ a, P a → Q (k a)) : DrawnOnce move' Q fun o => do return g o (← f o) := by
  obtain ⟨drawn, hf, hP⟩ := h
  refine ⟨drawn.map k, fun o => ?_, fun b hb => ?_⟩
  · show (f o >>= fun a => pure (g o a)) = _
    rw [hf]
    cases drawn with
    | error cause => rfl
    | ok a => exact congrArg Except.ok (hg o a)
  · cases drawn with
    | error cause => cases hb
    | ok a =>
      cases hb
      exact hk a (hP a rfl)

theorem mapM {R : α → β → Prop} {f : Offset → α → Except MalformedGraph β} {as : List α}
    (h : ∀ a ∈ as, DrawnOnce move' (R a) fun o => f o a) :
    DrawnOnce (fun o => List.map (move' o)) (List.Forall₂ R as) fun o => as.mapM (f o) := by
  induction as with
  | nil => exact ⟨.ok [], fun _ => rfl, by rintro _ ⟨⟩; exact .nil⟩
  | cons a as ih =>
    obtain ⟨drawn, hf, hR⟩ := h a List.mem_cons_self
    obtain ⟨rest, hrest, hR'⟩ := ih fun a ha => h a (List.mem_cons_of_mem _ ha)
    refine ⟨drawn >>= fun b => rest >>= fun bs => pure (b :: bs), fun o => ?_, fun bs hbs => ?_⟩
    · show (a :: as).mapM (f o) = _
      rw [List.mapM_cons, show f o a = _ from hf o, show as.mapM (f o) = _ from hrest o]
      cases drawn <;> cases rest <;> rfl
    · obtain ⟨b, hb, hbs⟩ := bind_eq_ok.1 hbs
      obtain ⟨bs, hbs', hbs⟩ := bind_eq_ok.1 hbs
      cases hbs
      exact .cons (hR b hb) (hR' bs hbs')

/-- At one offset: what comes out is drawn and moved. -/
theorem exists_of_eq_ok {f : Offset → Except MalformedGraph α} (h : DrawnOnce move P f)
    {offset : Offset} {a : α} (ha : f offset = .ok a) :
    ∃ drawn, a = move offset drawn ∧ P drawn := by
  obtain ⟨drawn, hf, hP⟩ := h
  rw [hf] at ha
  cases drawn with
  | error cause => cases ha
  | ok d =>
    cases ha
    exact ⟨d, rfl, hP d rfl⟩

end DrawnOnce

/-! ### What a side is wired to -/

/-- The points lead from a target to a source: straight, or level to a column, along the column and
level again. -/
structure Follows (target source : Point) (column : Option Connector) (points : List Point) :
    Prop where
  head : points.head? = some target
  last : points.getLast? = some source
  straight : column = none → points.length = 2
  stepped : ∀ c, column = some c → ∃ a b, points = [target, a, b, source] ∧
    a.y = target.y ∧ a.x = c.absolute.x ∧ b.x = c.absolute.x ∧ b.y = source.y

namespace Rung

/-- The edges that end on a side of a node, less those that come from variables or unknown kinds. -/
def arrivals (r : Rung) (n : Node) (side : Option String) : List Edge :=
  (r.entering n).filter fun e =>
    side.all (e.targetHandle == ·) && (r.node? e.source).any Node.isWireSource

/-- The connection cites the node of a source that was found behind the edge `e` out of `s`, and is
drawn from it to `target`. -/
structure Draws (target : Point) (e : Edge) (s : Node) (source : Source) (c : Connection) :
    Prop where
  refLocalId : c.refLocalId = source.node.numericId
  formalParameter : c.formalParameter = pinAt source.node s e
  points : Follows target (source.node.exitPoint c.formalParameter) source.column c.points

/-- The connections stand for the edge `e`: one for each source that the resolver finds behind it,
but for variables and unknown kinds. The sources are the ends of the chains that lead back from the
edge, each with the branch connector that its chain meets first (`Link.contribution`). -/
def Arrives (r : Rung) (target : Point) (e : Edge) (cs : List Connection) : Prop :=
  ∃ s res chains met, r.node? e.source = some s ∧ (ofRung r).trace e s = .ok res ∧
    r.Unwinds s chains met ∧
    res.sources = (chains.map (Link.contribution ⟨e, s⟩)).eraseDupsBy
      (fun a b => a.node.id == b.node.id) ∧
    List.Forall₂ (Draws target e s) (res.sources.filter (·.node.isWireSource)) cs

/-- The connections of a side stand for the edges that arrive there, one edge after the other. -/
def DrawsSide (r : Rung) (n : Node) (side : Option String) (target : Point)
    (cs : List Connection) : Prop :=
  ∃ parts, List.Forall₂ (r.Arrives target) (r.arrivals n side) parts ∧ cs = parts.flatten

end Rung

/-! ### One connection -/

namespace Source

def line (target start : Point) : Option Connector → List Point
  | none => [target, start]
  | some c => [target, ⟨c.absolute.x, target.y⟩, ⟨c.absolute.x, start.y⟩, start]

def drawn (target : Point) (source : Source) (pin : Option String) : Connection where
  refLocalId := source.node.numericId
  formalParameter := source.node.citedPin pin
  points := line target (source.node.exitPoint (source.node.citedPin pin)) source.column

theorem line_follows (target start : Point) (column : Option Connector) :
    Follows target start column (line target start column) where
  head := by cases column <;> rfl
  last := by cases column <;> rfl
  straight h := by rw [h]; rfl
  stepped c h := by rw [h]; exact ⟨_, _, rfl, rfl, rfl, rfl, rfl⟩

end Source

namespace RungContext

theorem route_eq (cx : RungContext) (target start : Point) (column : Option Connector) :
    cx.route target start column = (Source.line target start column).map cx.offset.apply := by
  cases column <;> rfl

theorem connection_eq (cx : RungContext) (target : Point) (s : Source) (pin : Option String) :
    cx.connection target s pin = (s.drawn target pin).mapPoints cx.offset.apply := by
  unfold connection Source.drawn Connection.mapPoints Node.citedPin Node.exitPoint Node.outputPin?
  simp only [route_eq]
  cases s.node.kind with
  | block data =>
    cases pin with
    | none => rfl
    | some pin => simp only [Option.bind_some]; cases data.output? pin <;> rfl
  | _ => rfl

/-! ### All connections of a side -/

/-- What a node stands for is left out where it comes from a variable or an unknown kind. -/
theorem collect_eq (cx : RungContext) (n : Node) (side : Option String) (target : Point) :
    cx.collect n side target = (do
      return (← ((cx.topology.incoming n side).filter (·.source.isWireSource)).mapM
        (cx.connectionsOf target)).flatten) := by
  have hskip (w : Wire) (hw : w.source.isWireSource = false) :
      cx.connectionsOf target w = .ok [] := by
    rw [connectionsOf, hw]
    rfl
  have h := flatten_mapM_filter hskip (cx.topology.incoming n side)
  rwa [map_eq_pure_bind, map_eq_pure_bind] at h

/-- The edges that arrive at a side are those of the wires into it that count. -/
theorem map_edge_arrivals (r : Rung) (n : Node) (side : Option String) :
    (((ofRung r).incoming n side).filter (·.source.isWireSource)).map (·.edge) =
      r.arrivals n side := by
  have hside : (ofRung r).incoming n side =
      ((ofRung r).incoming n).filter fun w => side.all (w.edge.targetHandle == ·) := by
    simp [Topology.incoming]
  rw [Rung.arrivals, ← map_edge_incoming, List.filter_map, hside, List.filter_filter]
  refine congrArg (List.map _) (List.filter_congr fun w hw => ?_)
  rw [Function.comp_apply, (mem_incoming.1 hw).1.source, Option.any_some, Bool.and_comm]

theorem connectionsOf_drawnOnce {r : Rung} {index : Nat} {target : Point} {w : Wire}
    (hw : r.node? w.edge.source = some w.source) (hsrc : w.source.isWireSource = true) :
    DrawnOnce (fun o => List.map (·.mapPoints o.apply)) (r.Arrives target w.edge)
      fun o => (r.context index o).connectionsOf target w := by
  have hof (o : Offset) : (r.context index o).connectionsOf target w = (do
      let res ← (ofRung r).trace w.edge w.source
      return (res.sources.filter (·.node.isWireSource)).map fun s =>
        (r.context index o).connection target s
          (if res.path.isEmpty then some w.edge.sourceHandle else s.node.output.map (·.id))) := by
    rw [connectionsOf, hsrc]
    rfl
  simp only [hof]
  refine (DrawnOnce.of_const (x := (ofRung r).trace w.edge w.source)
    (P := fun res => (ofRung r).trace w.edge w.source = .ok res) fun _ h => h).bind_pure
    (k := fun res => (res.sources.filter (·.node.isWireSource)).map fun s => s.drawn target
      (if res.path.isEmpty then some w.edge.sourceHandle else s.node.output.map (·.id)))
    (fun o res => ?_) fun res hres => ?_
  · simp only [List.map_map, connection_eq]
    rfl
  · obtain ⟨chains, met, hun, hs, hp⟩ := (resolves_iff.1 hres).unwinds rfl
    rw [Source.distinct_eq_eraseDupsBy] at hs
    refine ⟨w.source, res, chains, met, hw, hres, hun, hs, List.forall₂_map_right_iff.2 ?_⟩
    refine List.forall₂_same.2 fun s _ => ⟨rfl, ?_, Source.line_follows _ _ _⟩
    rw [Rung.pinAt, ← Bool.not_not w.source.kind.isParallel, ← (resolves_iff.1 hres).path_isEmpty]
    cases res.path.isEmpty <;> rfl

theorem collect_drawnOnce (r : Rung) (index : Nat) (n : Node) (side : Option String)
    (target : Point) :
    DrawnOnce (fun o => List.map (·.mapPoints o.apply)) (r.DrawsSide n side target)
      fun o => (r.context index o).collect n side target := by
  simp only [collect_eq]
  have hparts : DrawnOnce (fun o => List.map (List.map (·.mapPoints o.apply)))
      (List.Forall₂ (fun w cs => r.Arrives target w.edge cs)
        (((ofRung r).incoming n side).filter (·.source.isWireSource)))
      fun o => (((ofRung r).incoming n side).filter (·.source.isWireSource)).mapM
        ((r.context index o).connectionsOf target) := by
    refine DrawnOnce.mapM fun w hw => ?_
    obtain ⟨hw, hsrc⟩ := List.mem_filter.1 hw
    exact connectionsOf_drawnOnce (mem_incoming.1 hw).1.source hsrc
  refine hparts.bind_pure (g := fun _ => List.flatten) (k := List.flatten) (fun o parts => ?_)
    fun parts h => ?_
  · exact List.map_flatten.symm
  · refine ⟨parts, ?_, rfl⟩
    rw [← map_edge_arrivals, List.forall₂_map_left_iff]
    exact h

end RungContext

/-- **The connections of a side follow its wires.** Where they can be collected, they stand for the
edges that arrive at the node, or at the pin of the block, one edge after the other, and for each
edge for the sources that the resolver finds behind it, in its order. Each is drawn from where it
ends to where it begins, straight or in a step along the first branch connector on its chain, and
all points are moved by the offset of the rung. The chain begins behind the node, so a close marker
does not count the branch connector on which an edge ends. -/
theorem connections_drawn (r : Rung) (index : Nat) (offset : Offset) (n : Node) :
    (∀ cs, (r.context index offset).intoNode n = .ok cs →
      ∃ drawn, cs = drawn.map (·.mapPoints offset.apply) ∧
        r.DrawsSide n none n.inputPoint drawn) ∧
      ∀ pin cs, (r.context index offset).intoPin n pin = .ok cs →
        ∃ drawn, cs = drawn.map (·.mapPoints offset.apply) ∧
          r.DrawsSide n (some pin.id) pin.absolute drawn := by
  constructor
  · intro cs h
    exact (RungContext.collect_drawnOnce r index n none n.inputPoint).exists_of_eq_ok h
  · intro pin cs h
    exact (RungContext.collect_drawnOnce r index n (some pin.id) pin.absolute).exists_of_eq_ok h

/-- A pin of a block that is wired to a pin of another, to a group of which one side is empty, to a
variable and to a node of an unknown kind. -/
def mixedPin : Rung where
  nodes := [
    { id := "rail", numericId := 1, kind := .leftRail, output := some { id := "out" } },
    { id := "mul", numericId := 2, output := some { id := "OUT", absolute := ⟨50, 20⟩ },
      kind := .block { typeName := "MUL", outputs := [{ id := "Q", absolute := ⟨50, 40⟩ }] } },
    { id := "open", numericId := 3, kind := .parallelOpen { id := "down", absolute := ⟨20, 0⟩ } },
    { id := "a", numericId := 4, kind := .contact "a" .normal,
      input := some { id := "in", absolute := ⟨30, 60⟩ },
      output := some { id := "out", absolute := ⟨40, 60⟩ } },
    { id := "close", numericId := 5, kind := .parallelClose { id := "up", absolute := ⟨70, 0⟩ } },
    { id := "k", numericId := 6, kind := .variableIn { name := "k" } },
    { id := "note", numericId := 7, kind := .unknown },
    { id := "add", numericId := 8,
      kind := .block { typeName := "ADD", inputs := [{ id := "EN", absolute := ⟨100, 10⟩ }] } }]
  edges := [
    ⟨"mul", "Q", "add", "EN"⟩, ⟨"rail", "out", "open", "in"⟩, ⟨"open", "out", "close", "in"⟩,
    ⟨"k", "out", "add", "EN"⟩, ⟨"open", "down", "a", "in"⟩, ⟨"a", "out", "close", "up"⟩,
    ⟨"close", "out", "add", "EN"⟩, ⟨"note", "out", "add", "EN"⟩]

/-- Into the pin three connections in the order of the edges, the last of them in a step; into the
contact one, in a step along the connector by which its chain leaves the open marker. -/
theorem mixedPin_connections :
    (∃ n ∈ mixedPin.nodes, n.id = "add" ∧ ∃ cs drawn,
      (mixedPin.context 0 ⟨200⟩).intoPin n { id := "EN", absolute := ⟨100, 10⟩ } = .ok cs ∧
        cs = [⟨2, some "Q", [⟨100, 210⟩, ⟨50, 240⟩]⟩, ⟨1, none, [⟨100, 210⟩, ⟨0, 200⟩]⟩,
          ⟨4, none, [⟨100, 210⟩, ⟨70, 210⟩, ⟨70, 260⟩, ⟨40, 260⟩]⟩] ∧
        cs = drawn.map (·.mapPoints (Offset.mk 200).apply) ∧
        mixedPin.DrawsSide n (some "EN") ⟨100, 10⟩ drawn) ∧
      ∃ n ∈ mixedPin.nodes, n.id = "a" ∧ ∃ cs drawn,
        (mixedPin.context 0 ⟨200⟩).intoNode n = .ok cs ∧
          cs = [⟨1, none, [⟨30, 260⟩, ⟨20, 260⟩, ⟨20, 200⟩, ⟨0, 200⟩]⟩] ∧
          cs = drawn.map (·.mapPoints (Offset.mk 200).apply) ∧
          mixedPin.DrawsSide n none n.inputPoint drawn := by
  have hpin : (mixedPin.context 0 ⟨200⟩).intoPin mixedPin.nodes[7]
      { id := "EN", absolute := ⟨100, 10⟩ } =
        .ok [⟨2, some "Q", [⟨100, 210⟩, ⟨50, 240⟩]⟩, ⟨1, none, [⟨100, 210⟩, ⟨0, 200⟩]⟩,
          ⟨4, none, [⟨100, 210⟩, ⟨70, 210⟩, ⟨70, 260⟩, ⟨40, 260⟩]⟩] :=
    eq_ok_of_toOption (by decide +kernel)
  have hnode : (mixedPin.context 0 ⟨200⟩).intoNode mixedPin.nodes[3] =
      .ok [⟨1, none, [⟨30, 260⟩, ⟨20, 260⟩, ⟨20, 200⟩, ⟨0, 200⟩]⟩] :=
    eq_ok_of_toOption (by decide +kernel)
  obtain ⟨drawn, hdrawn, hside⟩ := (connections_drawn mixedPin 0 ⟨200⟩ _).2 _ _ hpin
  obtain ⟨drawn', hdrawn', hside'⟩ := (connections_drawn mixedPin 0 ⟨200⟩ _).1 _ hnode
  exact ⟨⟨_, List.getElem_mem _, rfl, _, drawn, hpin, rfl, hdrawn, hside⟩,
    _, List.getElem_mem _, rfl, _, drawn', hnode, rfl, hdrawn', hside'⟩

end LadderDiagram
