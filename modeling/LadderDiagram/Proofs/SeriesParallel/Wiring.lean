import LadderDiagram.Proofs.SeriesParallel.Network

/-!
# Wires of a drawn ladder

In a rung that is wired port to port, one wire at most to each, the wires at a
connector can be told. `Ladder.IsDrawn.wired` says that a ladder, drawn in any
order, is such a rung.
-/

namespace LadderDiagram

open LadderDiagram.Topology (ofRung mem_incoming)

/-- Edges run from port to port, and no two share one. -/
structure Rung.Wired (r : Rung) : Prop where
  ids : (r.nodes.map (·.id)).Nodup
  sources : (r.edges.map fun e => (e.source, e.sourceHandle)).Nodup
  targets : (r.edges.map fun e => (e.target, e.targetHandle)).Nodup
  handles : ∀ e ∈ r.edges, ∀ n ∈ r.nodes, e.target = n.id →
    e.targetHandle = n.inputId ∨ n.isClose = true ∧ e.targetHandle = n.branchId

structure Rung.Joins (r : Rung) (s t : Port) : Prop where
  source : s.node ∈ r.nodes
  target : t.node ∈ r.nodes
  edge : s.wire t ∈ r.edges

namespace Port

/-- The wire from one port to another, with its ends. -/
def joined (s t : Port) : Wire := ⟨s.wire t, s.node, t.node⟩

end Port

theorem eq_singleton_of_nodup {α : Type} {l : List α} {x : α} (hl : l.Nodup)
    (h : ∀ y, y ∈ l ↔ y = x) : l = [x] := by
  refine List.perm_singleton.1 ((List.perm_ext_iff_of_nodup hl (List.nodup_singleton x)).2 ?_)
  intro y
  rw [h, List.mem_singleton]

namespace Topology

theorem nodup_wires {r : Rung} (hd : r.edges.Nodup) :
    (r.edges.filterMap (wire? (indexNodes r.nodes))).Nodup := by
  apply hd.filterMap
  intro e e' w h h'
  rw [← (wire?_eq_some.1 h).1, ← (wire?_eq_some.1 h').1]

end Topology

namespace Rung.Wired

variable {r : Rung} {s t : Port} (h : r.Wired)
include h

theorem node? {n : Node} (hn : n ∈ r.nodes) : r.node? n.id = some n := node?_of_mem h.ids hn

theorem leads (hj : r.Joins s t) : r.Leads s.node (s.wire t) t.node :=
  ⟨hj.edge, h.node? hj.source, h.node? hj.target⟩

theorem nodup_incoming (n : Node) : ((ofRung r).incoming n).Nodup := by
  rw [Topology.incoming_ofRung]
  exact ((Topology.nodup_wires h.targets.of_map).filter _).filter _

theorem nodup_outgoing (n : Node) (c : String) : ((ofRung r).outgoing n c).Nodup := by
  rw [Topology.outgoing_ofRung]
  exact ((Topology.nodup_wires h.sources.of_map).filter _).filter _

/-- A wire is known by its edge. -/
theorem eq_joined {w : Wire} (hj : r.Joins s t) (hw : r.Leads w.source w.edge w.target)
    (he : w.edge = s.wire t) : w = s.joined t := by
  obtain ⟨e, a, b⟩ := w
  subst he
  have ha : a = s.node := Option.some.inj (hw.source.symm.trans (h.node? hj.source))
  have hb : b = t.node := Option.some.inj (hw.target.symm.trans (h.node? hj.target))
  rw [ha, hb]
  rfl

theorem eq_joined_of_target {w : Wire} (hj : r.Joins s t) (hw : r.Leads w.source w.edge w.target)
    (ht : w.edge.target = t.node.id) (hh : w.edge.targetHandle = t.handle) : w = s.joined t :=
  h.eq_joined hj hw (List.inj_on_of_nodup_map h.targets hw.mem hj.edge (Prod.ext ht hh))

theorem eq_joined_of_source {w : Wire} (hj : r.Joins s t) (hw : r.Leads w.source w.edge w.target)
    (hs : w.edge.source = s.node.id) (hh : w.edge.sourceHandle = s.handle) : w = s.joined t :=
  h.eq_joined hj hw (List.inj_on_of_nodup_map h.sources hw.mem hj.edge (Prod.ext hs hh))

/-- Into what is no close marker leads one wire. -/
theorem incoming_eq {n : Node} (hj : r.Joins s n.inPort) (hn : n.isClose = false) :
    (ofRung r).incoming n = [s.joined n.inPort] := by
  apply eq_singleton_of_nodup (h.nodup_incoming n)
  intro w
  rw [mem_incoming]
  constructor
  · rintro ⟨hl, ht, -⟩
    refine h.eq_joined_of_target hj hl ht ?_
    rcases h.handles _ hl.mem n hj.target ht with hh | ⟨hc, -⟩
    · exact hh
    · rw [hn] at hc; cases hc
  · rintro rfl
    exact ⟨h.leads hj, rfl, nofun⟩

/-- Into a close marker lead two wires, which are told apart by their connectors. -/
theorem partition_incoming {n : Node} {branch : Connector} {p : Port}
    (hk : n.kind = .parallelClose branch) (hne : n.inputId ≠ n.branchId)
    (hs : r.Joins s n.inPort) (hp : r.Joins p n.branchPort) :
    ((ofRung r).incoming n).partition (·.edge.targetHandle == branch.id) =
      ([p.joined n.branchPort], [s.joined n.inPort]) := by
  have hb : n.branchId = branch.id := by rw [Node.branchId, hk]
  rw [List.partition_eq_filter_filter]
  refine Prod.ext ?_ ?_
  · apply eq_singleton_of_nodup ((h.nodup_incoming n).filter _)
    intro w
    rw [List.mem_filter, mem_incoming, beq_iff_eq, ← hb]
    constructor
    · rintro ⟨⟨hl, ht, -⟩, hh⟩
      exact h.eq_joined_of_target hp hl ht hh
    · rintro rfl
      exact ⟨⟨h.leads hp, rfl, fun _ hm => (Option.not_mem_none _ hm).elim⟩, rfl⟩
  · apply eq_singleton_of_nodup ((h.nodup_incoming n).filter _)
    intro w
    simp only [List.mem_filter, mem_incoming, Function.comp, Bool.not_eq_true', beq_eq_false_iff_ne,
      ← hb]
    constructor
    · rintro ⟨⟨hl, ht, -⟩, hh⟩
      refine h.eq_joined_of_target hs hl ht ?_
      rcases h.handles _ hl.mem n hs.target ht with hi | ⟨-, hi⟩
      · exact hi
      · exact (hh hi).elim
    · rintro rfl
      exact ⟨⟨h.leads hs, rfl, fun _ hm => (Option.not_mem_none _ hm).elim⟩, hne⟩

/-- Out of a port leads one wire. -/
theorem forward_eq (hj : r.Joins s t) (hv : t.node.kind.isVariable = false) :
    (ofRung r).forward s.node s.handle = [s.joined t] := by
  have ho : (ofRung r).outgoing s.node s.handle = [s.joined t] := by
    apply eq_singleton_of_nodup (h.nodup_outgoing s.node s.handle)
    intro w
    rw [Topology.mem_outgoing]
    constructor
    · rintro ⟨hl, ht, hh⟩
      exact h.eq_joined_of_source hj hl ht hh
    · rintro rfl
      exact ⟨h.leads hj, rfl, rfl⟩
  rw [Topology.forward, ho]
  simp [Port.joined, hv]

end Rung.Wired

/-- The network is part of a rung, starting at the port `s`. -/
structure Network.Laid (N : Network) (r : Rung) (s : Port) : Prop where
  start : s.node ∈ r.nodes
  nodes : ∀ n ∈ N.nodes, n ∈ r.nodes
  edges : ∀ e ∈ N.edges s, e ∈ r.edges

namespace Network.Laid

variable {r : Rung} {s : Port} {a b : Network} {n o c : Node}

theorem joins (h : (element n).Laid r s) : r.Joins s n.inPort :=
  ⟨h.start, h.nodes n (List.mem_singleton_self n), h.edges _ (List.mem_singleton_self _)⟩

theorem exit_mem {N : Network} (h : N.Laid r s) : (N.exit s).node ∈ r.nodes := by
  induction N generalizing s with
  | empty => exact h.start
  | element n => exact h.nodes n (List.mem_singleton_self n)
  | series a b iha ihb =>
    obtain ⟨hs, hn, he⟩ := h
    refine ihb ⟨iha ⟨hs, fun n hm => ?_, fun e hm => ?_⟩, fun n hm => ?_, fun e hm => ?_⟩
    · exact hn n (List.mem_append_left _ hm)
    · exact he e (List.mem_append_left _ hm)
    · exact hn n (List.mem_append_right _ hm)
    · exact he e (List.mem_append_right _ hm)
  | parallel o c a b => exact h.nodes c (by simp [Network.nodes])

theorem left (h : (series a b).Laid r s) : a.Laid r s :=
  ⟨h.start, fun n hm => h.nodes n (List.mem_append_left _ hm),
    fun e hm => h.edges e (List.mem_append_left _ hm)⟩

theorem right (h : (series a b).Laid r s) : b.Laid r (a.exit s) :=
  ⟨h.left.exit_mem, fun n hm => h.nodes n (List.mem_append_right _ hm),
    fun e hm => h.edges e (List.mem_append_right _ hm)⟩

section
variable (h : (parallel o c a b).Laid r s)
include h

theorem opener : r.Joins s o.inPort :=
  ⟨h.start, h.nodes o (by simp [Network.nodes]), h.edges _ (by simp [Network.edges])⟩

theorem serial : a.Laid r o.outPort :=
  ⟨h.opener.target, fun n hm => h.nodes n (by simp [Network.nodes, hm]),
    fun e hm => h.edges e (by simp [Network.edges, hm])⟩

theorem branch : b.Laid r o.branchPort :=
  ⟨h.opener.target, fun n hm => h.nodes n (by simp [Network.nodes, hm]),
    fun e hm => h.edges e (by simp [Network.edges, hm])⟩

theorem close : r.Joins (a.exit o.outPort) c.inPort :=
  ⟨h.serial.exit_mem, h.nodes c (by simp [Network.nodes]), h.edges _ (by simp [Network.edges])⟩

theorem rejoin : r.Joins (b.exit o.branchPort) c.branchPort :=
  ⟨h.branch.exit_mem, h.close.target, h.edges _ (by simp [Network.edges])⟩

end

end Network.Laid

theorem Ladder.map_source_edges (l : Ladder) :
    l.edges.map (fun e => (e.source, e.sourceHandle)) =
      (l.left.outPort :: l.network.outPorts).map Port.key := by
  rw [edges, List.map_append]
  exact Network.map_source_edges l.left.outPort

theorem Ladder.map_target_edges (l : Ladder) :
    l.edges.map (fun e => (e.target, e.targetHandle)) =
      (l.network.inPorts ++ [l.right.inPort]).map Port.key := by
  rw [edges, List.map_append, Network.map_target_edges, List.map_append]
  rfl

namespace Ladder.IsDrawn

variable {l : Ladder} {r : Rung} (h : l.IsDrawn r)
include h

theorem mem_nodes {n : Node} : n ∈ r.nodes ↔ n = l.left ∨ n = l.right ∨ n ∈ l.network.nodes := by
  rw [h.nodes.mem_iff, Ladder.nodes, List.mem_cons, List.mem_cons]

theorem laid : l.network.Laid r l.left.outPort :=
  ⟨h.mem_nodes.2 (.inl rfl), fun _ hn => h.mem_nodes.2 (.inr (.inr hn)),
    fun _ he => h.edges.mem_iff.2 (List.mem_append_left _ he)⟩

theorem joins_right : r.Joins (l.network.exit l.left.outPort) l.right.inPort :=
  ⟨h.laid.exit_mem, h.mem_nodes.2 (.inr (.inl rfl)),
    h.edges.mem_iff.2 (List.mem_append_right _ (List.mem_singleton_self _))⟩

theorem mem_nodes_of_mem_outPorts {p : Port} (hp : p ∈ l.left.outPort :: l.network.outPorts) :
    p.node ∈ r.nodes := by
  rcases List.mem_cons.1 hp with rfl | hp
  · exact h.laid.start
  · exact h.laid.nodes _ (Network.mem_nodes_of_mem_outPorts hp)

theorem mem_nodes_of_mem_inPorts {p : Port} (hp : p ∈ l.network.inPorts ++ [l.right.inPort]) :
    p.node ∈ r.nodes := by
  rcases List.mem_append.1 hp with hp | hp
  · exact h.laid.nodes _ (Network.mem_nodes_of_mem_inPorts hp)
  · rw [List.mem_singleton.1 hp]
    exact h.joins_right.target

theorem ids : (r.nodes.map (·.id)).Nodup := ((h.nodes.map _).nodup_iff).2 l.nodup

theorem wired : r.Wired where
  ids := h.ids
  sources := by
    have hn := l.nodup
    simp only [List.map_cons, List.nodup_cons, List.mem_cons] at hn
    rw [((h.edges.map _).nodup_iff), Ladder.map_source_edges, List.map_cons, List.nodup_cons]
    refine ⟨fun hm => ?_, Network.nodup_outPorts l.wellFormed hn.2.2⟩
    exact hn.1 (.inr (Network.fst_mem_of_mem_keys (fun _ => Network.mem_nodes_of_mem_outPorts) hm))
  targets := by
    have hn := l.nodup
    simp only [List.map_cons, List.nodup_cons, List.mem_cons] at hn
    rw [((h.edges.map _).nodup_iff), Ladder.map_target_edges, List.map_append, List.nodup_append]
    refine ⟨Network.nodup_inPorts l.wellFormed hn.2.2, List.nodup_singleton _, ?_⟩
    rintro k hk _ hk' rfl
    cases List.mem_singleton.1 hk'
    exact hn.2.1 (Network.fst_mem_of_mem_keys (fun _ => Network.mem_nodes_of_mem_inPorts) hk)
  handles := by
    intro e he n hn ht
    have hk := List.mem_map_of_mem (f := fun e : Edge => (e.target, e.targetHandle))
      (h.edges.mem_iff.1 he)
    rw [Ladder.map_target_edges] at hk
    obtain ⟨p, hp, hpe⟩ := List.mem_map.1 hk
    obtain ⟨hid, hh⟩ := Prod.mk.inj hpe
    have hpn : p.node = n :=
      List.inj_on_of_nodup_map h.ids (h.mem_nodes_of_mem_inPorts hp) hn (hid.trans ht)
    rw [← hh, ← hpn]
    rcases List.mem_append.1 hp with hp | hp
    · exact Network.handle_of_mem_inPorts l.wellFormed hp
    · cases List.mem_singleton.1 hp
      exact .inl rfl

theorem leads {e : Edge} (he : e ∈ r.edges) : ∃ a b, r.Leads a e b := by
  have hs := List.mem_map_of_mem (f := fun e : Edge => (e.source, e.sourceHandle))
    (h.edges.mem_iff.1 he)
  have ht := List.mem_map_of_mem (f := fun e : Edge => (e.target, e.targetHandle))
    (h.edges.mem_iff.1 he)
  rw [Ladder.map_source_edges] at hs
  rw [Ladder.map_target_edges] at ht
  obtain ⟨p, hp, hpe⟩ := List.mem_map.1 hs
  obtain ⟨q, hq, hqe⟩ := List.mem_map.1 ht
  have hp' := h.wired.node? (h.mem_nodes_of_mem_outPorts hp)
  have hq' := h.wired.node? (h.mem_nodes_of_mem_inPorts hq)
  rw [(Prod.mk.inj hpe).1] at hp'
  rw [(Prod.mk.inj hqe).1] at hq'
  exact ⟨p.node, q.node, he, hp', hq'⟩

end Ladder.IsDrawn

end LadderDiagram
