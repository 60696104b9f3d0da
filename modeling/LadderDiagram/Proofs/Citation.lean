import LadderDiagram.Lowering.Report
import LadderDiagram.Proofs.Chain

/-!
# What an input side cites

The connections of an input side stand for the edges that enter it: each edge for
the nodes behind the node it comes from. `cites_iff` says which local ids and
which pins are cited, for any rung and any side on which the connections can be
collected.
-/

namespace LadderDiagram

open Body (Connection)
open LadderDiagram.Topology (ofRung mem_incoming)

/-- The pin under which a node is cited: only blocks have pins. -/
def Node.citedPin (n : Node) (pin : Option String) : Option String :=
  match n.kind with
  | .block _ => pin
  | _ => none

theorem Node.isWireSource_of_isParallel {n : Node} (h : n.kind.isParallel = true) :
    n.isWireSource = true := by
  unfold NodeKind.isParallel at h
  split at h
  · rename_i hk; rw [isWireSource, hk]
  · rename_i hk; rw [isWireSource, hk]
  · cases h

namespace Rung

/-- The edge `l` from node `m` ends on an input side of `n`: on a certain connector, or on any. -/
structure Enters (r : Rung) (m : Node) (l : Edge) (n : Node) (side : Option String) : Prop where
  leads : ∃ b, r.Leads m l b
  target : l.target = n.id
  handle : ∀ h ∈ side, l.targetHandle = h

theorem enters_iff {r : Rung} {m n : Node} {l : Edge} {side : Option String} :
    r.Enters m l n side ↔ ∃ w ∈ (ofRung r).incoming n side, w.source = m ∧ w.edge = l := by
  constructor
  · rintro ⟨⟨b, hb⟩, ht, hh⟩
    exact ⟨⟨l, m, b⟩, mem_incoming.2 ⟨hb, ht, hh⟩, rfl, rfl⟩
  · rintro ⟨w, hw, rfl, rfl⟩
    obtain ⟨hl, ht, hh⟩ := mem_incoming.1 hw
    exact ⟨⟨_, hl⟩, ht, hh⟩

/-- The pin by which `a` is cited where the edge `l` enters from `m`: the one that the edge
leaves, but behind a marker the main output of `a`. -/
def pinAt (a m : Node) (l : Edge) : Option String :=
  a.citedPin (if m.kind.isParallel then a.output.map (·.id) else some l.sourceHandle)

end Rung

namespace RungContext

@[simp] theorem connection_refLocalId (cx : RungContext) (target : Point) (s : Source)
    (pin : Option String) : (cx.connection target s pin).refLocalId = s.node.numericId := rfl

@[simp] theorem connection_formalParameter (cx : RungContext) (target : Point) (s : Source)
    (pin : Option String) :
    (cx.connection target s pin).formalParameter = s.node.citedPin pin := by
  unfold connection Node.citedPin
  cases s.node.kind <;> cases pin <;> rfl

theorem connectionsOf_cites_iff {r : Rung} {index : Nat} {offset : Offset} {target : Point}
    {w : Wire} {cs : List Connection}
    (h : (r.context index offset).connectionsOf target w = .ok cs)
    (hw : r.node? w.source.id = some w.source) {id : UInt64} {p : Option String} :
    (∃ c ∈ cs, c.refLocalId = id ∧ c.formalParameter = p) ↔
      ∃ a, r.Behind a w.source ∧ a.isWireSource = true ∧ a.numericId = id ∧
        Rung.pinAt a w.source w.edge = p := by
  unfold connectionsOf at h
  split at h
  · rw [bind_eq_ok] at h
    obtain ⟨res, hres, h⟩ := h
    have hr := Topology.resolves_of_resolveFrom hres
    have hpin (s : Source) : s.node.citedPin (if res.path.isEmpty then some w.edge.sourceHandle
        else s.node.output.map (·.id)) = Rung.pinAt s.node w.source w.edge := by
      rw [hr.path_isEmpty, Rung.pinAt]
      cases w.source.kind.isParallel <;> rfl
    rw [← pure_eq_ok.1 h]
    constructor
    · rintro ⟨c, hc, rfl, rfl⟩
      obtain ⟨s, hs, rfl⟩ := List.mem_map.1 hc
      obtain ⟨hs, hsrc⟩ := List.mem_filter.1 hs
      refine ⟨s.node, (hr.mem_sources_iff hw).1 ⟨s, hs, rfl⟩, hsrc, rfl, ?_⟩
      rw [connection_formalParameter, hpin]
    · rintro ⟨a, hb, hsrc, rfl, rfl⟩
      obtain ⟨s, hs, rfl⟩ := (hr.mem_sources_iff hw).2 hb
      refine ⟨_, List.mem_map_of_mem (List.mem_filter.2 ⟨hs, hsrc⟩), rfl, ?_⟩
      rw [connection_formalParameter, hpin]
  · rename_i hsrc
    cases h
    constructor
    · rintro ⟨c, hc, -⟩
      cases hc
    · rintro ⟨a, hb, ha, -⟩
      have hk : w.source.kind.isParallel = false := by
        cases hk : w.source.kind.isParallel
        · rfl
        · exact (hsrc (Node.isWireSource_of_isParallel hk)).elim
      rw [(Rung.behind_of_not_parallel hk).1 hb] at ha
      exact (hsrc ha).elim

/-- An input side cites the nodes behind those from which edges enter it. -/
theorem collect_cites_iff {r : Rung} {index : Nat} {offset : Offset} {n : Node}
    {side : Option String} {target : Point} {cs : List Connection}
    (h : (r.context index offset).collect n side target = .ok cs) {id : UInt64}
    {p : Option String} :
    (∃ c ∈ cs, c.refLocalId = id ∧ c.formalParameter = p) ↔
      ∃ m l a, r.Enters m l n side ∧ r.Behind a m ∧ a.isWireSource = true ∧ a.numericId = id ∧
        Rung.pinAt a m l = p := by
  unfold collect at h
  rw [bind_eq_ok] at h
  obtain ⟨lists, hlists, h⟩ := h
  rw [← pure_eq_ok.1 h]
  have hnode {w : Wire} (hw : w ∈ (ofRung r).incoming n side) :
      r.node? w.source.id = some w.source := (mem_incoming.1 hw).1.node?_source
  constructor
  · rintro ⟨c, hc, hid, hp⟩
    obtain ⟨l, hl, hc⟩ := List.mem_flatten.1 hc
    obtain ⟨w, hw, hcw⟩ := (mem_of_mapM_eq_ok hlists).1 hl
    obtain ⟨a, ha⟩ := (connectionsOf_cites_iff hcw (hnode hw)).1 ⟨c, hc, hid, hp⟩
    exact ⟨w.source, w.edge, a, Rung.enters_iff.2 ⟨w, hw, rfl, rfl⟩, ha⟩
  · rintro ⟨m, l, a, hm, ha⟩
    obtain ⟨w, hw, rfl, rfl⟩ := Rung.enters_iff.1 hm
    obtain ⟨l, hl, hcw⟩ := exists_of_mapM_eq_ok hlists hw
    obtain ⟨c, hc, e⟩ := (connectionsOf_cites_iff hcw (hnode hw)).2 ⟨a, ha⟩
    exact ⟨c, List.mem_flatten.2 ⟨l, hl, hc⟩, e⟩

end RungContext

end LadderDiagram
