import LadderDiagram.Graph.Positions
import Mathlib.Data.List.Forall2
import Mathlib.Data.List.Induction
import Mathlib.Data.List.Nodup

/-!
# The index against a scan

An index is built once and then asked. `Rung.scan` answers the same questions from the rung alone,
going through all edges, and through all nodes for the ends of each. A `Topology` answers as the
scan does, and so does a `PositionIndex` in whatever order the arcs at a node are found
(`index_answers_scan`), also for what no editor should draw: several nodes with one id, edges from
a node to itself, edges drawn twice, edges with a missing end.

The loop over the nodes keeps `Numbers`, which holds the two numberings apart. The loop over the
edges makes one arc for each wire, in the order of the edges (`forall₂_stands`).
-/

namespace LadderDiagram

open LadderDiagram.Topology (ofRung wire? indexNodes getElem?_indexNodes node?_ofRung
  incoming_ofRung outgoing_ofRung)

namespace Rung

/-- The wire that an edge is, each end looked for among all nodes. -/
def wireOf? (r : Rung) (e : Edge) : Option Wire := do
  return ⟨e, ← r.nodes.find? (·.id == e.source), ← r.nodes.find? (·.id == e.target)⟩

/-- The wires of the edges that satisfy a condition. -/
def scan (r : Rung) (p : Edge → Bool) : List Wire := (r.edges.filter p).filterMap r.wireOf?

theorem edge_of_wireOf? {r : Rung} {e : Edge} {w : Wire} (h : r.wireOf? e = some w) :
    w.edge = e := by
  simp only [wireOf?, Option.bind_eq_bind, Option.bind_eq_some_iff] at h
  obtain ⟨a, -, b, -, h⟩ := h
  cases h
  rfl

theorem isSome_wireOf? (r : Rung) (e : Edge) : (r.wireOf? e).isSome =
    (r.nodes.any (·.id == e.source) && r.nodes.any (·.id == e.target)) := by
  rw [← List.isSome_find?, ← List.isSome_find?, wireOf?]
  cases r.nodes.find? (·.id == e.source) <;> cases r.nodes.find? (·.id == e.target) <;> rfl

theorem scan_eq_filter (r : Rung) (p : Edge → Bool) :
    r.scan p = (r.edges.filterMap r.wireOf?).filter (p ·.edge) := by
  rw [scan, List.filter_filterMap, List.filterMap_filter]
  apply List.filterMap_congr
  intro e _
  cases hw : r.wireOf? e with
  | none => simp
  | some w => simp [Option.filter, edge_of_wireOf? hw]

theorem scan_and (r : Rung) (p q : Edge → Bool) :
    r.scan (fun e => p e && q e) = ((r.edges.filterMap r.wireOf?).filter (p ·.edge)).filter
      (q ·.edge) := by
  rw [scan_eq_filter, List.filter_filter]
  simp only [Bool.and_comm]

end Rung

theorem wire?_indexNodes (r : Rung) (e : Edge) : wire? (indexNodes r.nodes) e = r.wireOf? e := by
  rw [wire?, getElem?_indexNodes, getElem?_indexNodes]
  rfl

/-! ### Lists -/

theorem pairwise_zipIdx_snd {α : Type} (l : List α) (k : Nat) :
    (l.zipIdx k).Pairwise (·.2 < ·.2) := by
  rw [← List.pairwise_map (f := Prod.snd), List.zipIdx_map_snd]
  exact List.pairwise_lt_range'

/-- Items in whatever order, once sorted, are in the order of their keys. -/
theorem mergeSort_eq_of_perm {α : Type} (key : α → Nat) {found l : List α} (h : found.Perm l)
    (hl : l.Pairwise (key · < key ·)) : found.mergeSort (key · ≤ key ·) = l := by
  have hsorted : (found.mergeSort (key · ≤ key ·)).Pairwise (key · ≤ key ·) := by
    have htrans (a b c : α) : decide (key a ≤ key b) → decide (key b ≤ key c) →
        decide (key a ≤ key c) := by
      simp only [decide_eq_true_eq]
      exact Nat.le_trans
    have htotal (a b : α) : decide (key a ≤ key b) || decide (key b ≤ key a) := by
      simp only [Bool.or_eq_true, decide_eq_true_eq]
      exact Nat.le_total _ _
    simpa using List.pairwise_mergeSort htrans htotal found
  have hperm := (List.mergeSort_perm found (key · ≤ key ·)).trans h
  have hnodup := List.pairwise_map.2 (hl.imp Nat.ne_of_lt)
  exact hperm.eq_of_pairwise (fun a b ha hb hab hba =>
    List.inj_on_of_nodup_map hnodup (hperm.mem_iff.1 ha) hb (Nat.le_antisymm hab hba)) hsorted
      (hl.imp Nat.le_of_lt)

theorem mapM_eq_some_of_forall₂ {α β : Type} {f : α → Option β} {as : List α} {bs : List β}
    (h : List.Forall₂ (fun b a => f a = some b) bs as) : as.mapM f = some bs := by
  induction h with
  | nil => rfl
  | cons hab _ ih => simp [List.mapM_cons, hab, ih]

namespace PositionIndex

/-! ### The loop over the nodes -/

/-- The ids that are numbered are those of the nodes, and the position that is kept under the
number of an id is that of the first node with the id. -/
structure Numbers (nodes : List Node) (numbered : Std.TreeMap String Nat × Digraph) : Prop where
  isSome (id : String) : numbered.1[id]?.isSome = (nodes.find? (·.id == id)).isSome
  first {id : String} {i : Nat} (h : numbered.1[id]? = some i) :
    ∃ k, numbered.2.weights[i]? = some k ∧ nodes[k]? = nodes.find? (·.id == id)
  arcs : numbered.2.arcs = []

/-- A further node is first with no id that is numbered. -/
theorem Numbers.first_append {nodes : List Node} {numbered : Std.TreeMap String Nat × Digraph}
    (h : Numbers nodes numbered) (n : Node) {id : String} {i : Nat}
    (hi : numbered.1[id]? = some i) :
    ∃ k, numbered.2.weights[i]? = some k ∧
      (nodes ++ [n])[k]? = (nodes ++ [n]).find? (·.id == id) := by
  obtain ⟨k, hw, hk⟩ := h.first hi
  have hsome : (nodes.find? (·.id == id)).isSome := by rw [← h.isSome, hi]; rfl
  obtain ⟨m, hm⟩ := Option.isSome_iff_exists.1 hsome
  rw [hm] at hk
  refine ⟨k, hw, ?_⟩
  rw [List.getElem?_append_left (List.getElem?_eq_some_iff.1 hk).1, hk, List.find?_append, hm]
  rfl

theorem Numbers.addNode {nodes : List Node} {numbered : Std.TreeMap String Nat × Digraph}
    (h : Numbers nodes numbered) (n : Node) :
    Numbers (nodes ++ [n]) (addNode numbered (n, nodes.length)) := by
  unfold PositionIndex.addNode
  cases hn : numbered.1[n.id]? with
  | some j =>
    refine ⟨fun id => ?_, h.first_append n, h.arcs⟩
    rw [h.isSome, List.find?_append, Option.isSome_or]
    by_cases hid : n.id = id
    · subst hid
      simp [← h.isSome, hn]
    · simp [hid]
  | none =>
    refine ⟨fun id => ?_, fun {id i} hi => ?_, h.arcs⟩
    · rw [List.find?_append, Option.isSome_or, ← h.isSome, Std.TreeMap.getElem?_insert]
      by_cases hid : n.id = id
      · subst hid
        simp
      · simp [hid]
    · rw [Std.TreeMap.getElem?_insert] at hi
      by_cases hid : n.id = id
      · subst hid
        have hnone : nodes.find? (·.id == n.id) = none := by
          rw [← Option.not_isSome_iff_eq_none, ← h.isSome, hn]
          simp
        refine ⟨nodes.length, ?_, ?_⟩
        · have hi : numbered.2.weights.length = i := by simpa [Digraph.addNode] using hi
          simp [Digraph.addNode, ← hi]
        · simp [List.find?_append, hnone]
      · obtain ⟨k, hw, hk⟩ := h.first_append n (by simpa [hid] using hi)
        refine ⟨k, ?_, hk⟩
        simp only [Digraph.addNode]
        rw [List.getElem?_append_left (List.getElem?_eq_some_iff.1 hw).1, hw]

theorem numbers_foldl_addNode (nodes : List Node) :
    Numbers nodes (nodes.zipIdx.foldl addNode (∅, {})) := by
  induction nodes using List.reverseRecOn with
  | nil => exact ⟨by simp, by simp, rfl⟩
  | append_singleton nodes n ih =>
    rw [List.zipIdx_append, List.foldl_append]
    simpa using ih.addNode n

/-! ### The loop over the edges -/

def arcOf? (numbers : Std.TreeMap String Nat) (p : Edge × Nat) : Option Arc := do
  return ⟨← numbers[p.1.source]?, ← numbers[p.1.target]?, p.2⟩

theorem foldl_addEdge (numbers : Std.TreeMap String Nat) (es : List (Edge × Nat))
    (drawn : Digraph × List Edge) :
    es.foldl (addEdge numbers) drawn =
      ({ drawn.1 with arcs := drawn.1.arcs ++ es.filterMap (arcOf? numbers) },
        drawn.2 ++ (es.filter fun p => (arcOf? numbers p).isNone).map (·.1)) := by
  induction es generalizing drawn with
  | nil => simp
  | cons p es ih =>
    rw [List.foldl_cons, ih, List.filterMap_cons, List.filter_cons]
    cases hs : numbers[p.1.source]? <;> cases ht : numbers[p.1.target]? <;>
      simp [addEdge, arcOf?, hs, ht, Digraph.addArc]

theorem numbers_build (r : Rung) :
    Numbers r.nodes ((build r).numbers, { (build r).graph with arcs := [] }) := by
  have h := numbers_foldl_addNode r.nodes
  simp only [build, foldl_addEdge]
  exact ⟨h.isSome, h.first, rfl⟩

theorem arcs_build (r : Rung) :
    (build r).graph.arcs = r.edges.zipIdx.filterMap (arcOf? (build r).numbers) := by
  simp [build, foldl_addEdge, (numbers_foldl_addNode r.nodes).arcs]

theorem dangling_build (r : Rung) : (build r).dangling =
    (r.edges.zipIdx.filter fun p => (arcOf? (build r).numbers p).isNone).map (·.1) := by
  simp [build, foldl_addEdge]

theorem pairwise_arcs_build (r : Rung) : (build r).graph.arcs.Pairwise (·.edge < ·.edge) := by
  rw [arcs_build]
  refine List.pairwise_filterMap.2 ((pairwise_zipIdx_snd r.edges 0).imp ?_)
  intro p q hlt a ha b hb
  simp only [arcOf?, Option.bind_eq_bind, Option.bind_eq_some_iff] at ha hb
  obtain ⟨_, -, _, -, ha⟩ := ha
  obtain ⟨_, -, _, -, hb⟩ := hb
  cases ha
  cases hb
  exact hlt

/-! ### Answers -/

theorem find?_of_numbers_eq_none {r : Rung} {id : String} (h : (build r).numbers[id]? = none) :
    r.nodes.find? (·.id == id) = none := by
  rw [← Option.not_isSome_iff_eq_none, ← (numbers_build r).isSome]
  simp [h]

theorem exists_nodeAt?_build {r : Rung} {id : String} {i : Nat}
    (h : (build r).numbers[id]? = some i) :
    ∃ n, r.nodes.find? (·.id == id) = some n ∧ (build r).nodeAt? i = some n := by
  have hsome : (r.nodes.find? (·.id == id)).isSome := by
    rw [← (numbers_build r).isSome]
    simp [h]
  obtain ⟨n, hn⟩ := Option.isSome_iff_exists.1 hsome
  obtain ⟨k, hw, hk⟩ := (numbers_build r).first h
  have hw : (build r).graph.weights[i]? = some k := hw
  refine ⟨n, hn, ?_⟩
  rw [nodeAt?, hw, ← hn, ← hk]
  rfl

theorem node?_build (r : Rung) (id : String) :
    (build r).node? id = some (r.nodes.find? (·.id == id)) := by
  rw [node?]
  cases h : (build r).numbers[id]? with
  | none => simp [find?_of_numbers_eq_none h]
  | some i =>
    obtain ⟨n, hn, hat⟩ := exists_nodeAt?_build h
    simp [hn, hat]

theorem numbers_build_inj {r : Rung} {id id' : String} {i : Nat}
    (h : (build r).numbers[id]? = some i) (h' : (build r).numbers[id']? = some i) : id = id' := by
  obtain ⟨n, hn, hat⟩ := exists_nodeAt?_build h
  obtain ⟨n', hn', hat'⟩ := exists_nodeAt?_build h'
  obtain rfl : n = n' := Option.some.inj (hat.symm.trans hat')
  have hid := List.find?_some hn
  have hid' := List.find?_some hn'
  simp only [beq_iff_eq] at hid hid'
  exact hid.symm.trans hid'

end PositionIndex

namespace Direction

def nearId : Direction → Edge → String
  | incoming, e => e.target
  | outgoing, e => e.source

def farNode : Direction → Wire → Node
  | incoming, w => w.source
  | outgoing, w => w.target

end Direction

namespace PositionIndex

/-- An arc stands for a wire of the rung. -/
structure Stands (r : Rung) (w : Wire) (a : Arc) : Prop where
  edge : r.edges[a.edge]? = some w.edge
  near (d : Direction) : (build r).numbers[d.nearId w.edge]? = some (a.near d)
  far (d : Direction) : (build r).nodeAt? (a.far d) = some (d.farNode w)

theorem stands_of_edge {r : Rung} {p : Edge × Nat} (hp : r.edges[p.2]? = some p.1) :
    Option.Rel (Stands r) (r.wireOf? p.1) (arcOf? (build r).numbers p) := by
  unfold Rung.wireOf? arcOf?
  cases hs : (build r).numbers[p.1.source]? with
  | none => simpa only [find?_of_numbers_eq_none hs] using .none
  | some i =>
    obtain ⟨a, ha, hai⟩ := exists_nodeAt?_build hs
    cases ht : (build r).numbers[p.1.target]? with
    | none => simpa only [ha, find?_of_numbers_eq_none ht] using .none
    | some j =>
      obtain ⟨b, hb, hbj⟩ := exists_nodeAt?_build ht
      simp only [ha, hb]
      refine .some ⟨hp, fun d => ?_, fun d => ?_⟩ <;> cases d <;> assumption

/-- The arcs stand for the wires, in the order of the edges. -/
theorem forall₂_stands (r : Rung) :
    List.Forall₂ (Stands r) (r.edges.filterMap r.wireOf?) (build r).graph.arcs := by
  rw [arcs_build]
  have hself : List.Forall₂ (fun e p => p.1 = e ∧ r.edges[p.2]? = some p.1)
      (r.edges.zipIdx.map (·.1)) r.edges.zipIdx :=
    List.forall₂_map_left_iff.2 (List.forall₂_same.2 fun p hp =>
      ⟨rfl, List.mem_zipIdx_iff_getElem?.1 hp⟩)
  rw [List.zipIdx_map_fst] at hself
  refine List.rel_filterMap (fun e p h => ?_) hself
  obtain ⟨rfl, hp⟩ := h
  exact stands_of_edge hp

theorem isNone_arcOf? {r : Rung} {p : Edge × Nat} (hp : p ∈ r.edges.zipIdx) :
    (arcOf? (build r).numbers p).isNone = (r.wireOf? p.1).isNone := by
  have hrel := stands_of_edge (r := r) (List.mem_zipIdx_iff_getElem?.1 hp)
  generalize r.wireOf? p.1 = w at hrel ⊢
  generalize arcOf? (build r).numbers p = a at hrel ⊢
  cases hrel <;> rfl

theorem dangling_build_eq_filter (r : Rung) :
    (build r).dangling = r.edges.filter fun e => (r.wireOf? e).isNone := by
  have hmap : r.edges.filter (fun e => (r.wireOf? e).isNone) =
      (r.edges.zipIdx.filter fun p => (r.wireOf? p.1).isNone).map (·.1) := by
    conv_lhs => rw [← List.zipIdx_map_fst 0 r.edges, List.filter_map]
    rfl
  rw [dangling_build, hmap, List.filter_congr fun p hp => isNone_arcOf? hp]

/-- The arcs that are picked stand for the wires of a scan, if they are picked for what the edges
are. -/
theorem forall₂_stands_scan {r : Rung} {p : Edge → Bool} {q : Arc → Bool}
    (h : ∀ w a, Stands r w a → (p w.edge = true ↔ q a = true)) :
    List.Forall₂ (Stands r) (r.scan p) ((build r).graph.arcs.filter q) := by
  rw [Rung.scan_eq_filter]
  exact List.rel_filter (fun w a hst => h w a hst) (forall₂_stands r)

theorem Stands.near_eq_iff {r : Rung} {w : Wire} {a : Arc} {d : Direction} {id : String} {i : Nat}
    (h : Stands r w a) (hi : (build r).numbers[id]? = some i) :
    d.nearId w.edge = id ↔ a.near d = i := by
  have hnear := h.near d
  constructor
  · rintro rfl
    exact Option.some.inj (hnear.symm.trans hi)
  · rintro rfl
    exact numbers_build_inj hnear hi

theorem adjacent_build {find : Finding} (h : find.Exact) (r : Rung) (n : Node) (d : Direction)
    (keep : Edge → Bool) : (build r).adjacent find n d keep =
      some ((r.scan fun e => d.nearId e == n.id && keep e).map fun w => (w.edge, d.farNode w)) := by
  rw [adjacent]
  cases hn : (build r).numbers[n.id]? with
  | none =>
    have hnone := forall₂_stands_scan (r := r) (p := fun e => d.nearId e == n.id && keep e)
      (q := fun _ => false) fun w a hst => by
        have hid : d.nearId w.edge ≠ n.id := by
          intro hid
          simpa [hid, hn] using hst.near d
        simp [hid]
    rw [List.filter_false, List.forall₂_nil_right_iff] at hnone
    rw [hnone]
    rfl
  | some i =>
    have hkept := forall₂_stands_scan (r := r) (p := fun e => d.nearId e == n.id && keep e)
      (q := fun a => r.edges[a.edge]?.all keep && a.near d == i) fun w a hst => by
        simp [hst.edge, hst.near_eq_iff hn, and_comm]
    rw [← List.filter_filter] at hkept
    have hperm := ((h (build r).graph i d).filter fun a => r.edges[a.edge]?.all keep).map
      fun a => (a.edge, a.far d)
    have hlt := ((pairwise_arcs_build r).filter (·.near d == i)).filter fun a =>
      r.edges[a.edge]?.all keep
    have hrung : (build r).rung = r := rfl
    simp only [hrung, mergeSort_eq_of_perm Prod.fst hperm (List.pairwise_map.2 hlt)]
    refine mapM_eq_some_of_forall₂ (List.forall₂_map_left_iff.2 (List.forall₂_map_right_iff.2
      (hkept.imp fun w a hst => ?_)))
    simp [hst.edge, hst.far d]

end PositionIndex

open PositionIndex (build) in
/-- **The index answers as a scan does.** An id names the first node that has it; the dangling edges
are those of which an end names no node. The edges into a node or one of its connectors, and those
out of a connector, are those of a scan, each as often as it is drawn and in the order of the edges,
with the first node that has the id at the other end. No position is out of range, and in whatever
order the arcs at a node are found, the answers are those of the index by ids. -/
theorem index_answers_scan (r : Rung) {find : Finding} (h : find.Exact) :
    (∀ id, (build r).node? id = some (r.nodes.find? (·.id == id)) ∧
        (ofRung r).node? id = r.nodes.find? (·.id == id)) ∧
      ((build r).dangling = (ofRung r).dangling ∧ (ofRung r).dangling = r.edges.filter fun e =>
        !(r.nodes.any (·.id == e.source) && r.nodes.any (·.id == e.target))) ∧
      (∀ n c, (build r).incoming find n c =
          some (((ofRung r).incoming n c).map fun w => (w.edge, w.source)) ∧
        (ofRung r).incoming n c =
          r.scan fun e => e.target == n.id && c.all (e.targetHandle == ·)) ∧
      ∀ n c, (build r).outgoing find n c =
          some (((ofRung r).outgoing n c).map fun w => (w.edge, w.target)) ∧
        (ofRung r).outgoing n c =
          r.scan fun e => e.source == n.id && e.sourceHandle == c := by
  have hdangling : (ofRung r).dangling = r.edges.filter fun e => (r.wireOf? e).isNone := by
    simp only [← wire?_indexNodes]
    rfl
  have hin (n : Node) (c : Option String) : (ofRung r).incoming n c =
      r.scan fun e => e.target == n.id && c.all (e.targetHandle == ·) := by
    simp only [incoming_ofRung, wire?_indexNodes, Rung.scan_and]
  have hout (n : Node) (c : String) : (ofRung r).outgoing n c =
      r.scan fun e => e.source == n.id && e.sourceHandle == c := by
    simp only [outgoing_ofRung, wire?_indexNodes, Rung.scan_and]
  refine ⟨fun id => ⟨PositionIndex.node?_build r id, node?_ofRung r id⟩, ⟨?_, ?_⟩,
    fun n c => ⟨?_, hin n c⟩, fun n c => ⟨?_, hout n c⟩⟩
  · rw [PositionIndex.dangling_build_eq_filter, hdangling]
  · simp only [hdangling, ← Rung.isSome_wireOf?, Option.not_isSome]
  · rw [hin]
    exact PositionIndex.adjacent_build h r n .incoming _
  · rw [hout]
    exact PositionIndex.adjacent_build h r n .outgoing _

/-- Two nodes with one id, a contact wired to itself, a wire drawn twice, and an edge without an
end. -/
def tangledContact : Rung where
  nodes := [
    { id := "rail", numericId := 1, kind := .leftRail },
    { id := "rail", numericId := 3, kind := .rightRail },
    { id := "a", numericId := 2, kind := .contact "a" .normal }]
  edges := [
    ⟨"rail", "out", "a", "in"⟩, ⟨"a", "out", "gone", "in"⟩, ⟨"a", "out", "a", "in"⟩,
    ⟨"a", "out", "a", "down"⟩, ⟨"rail", "out", "a", "in"⟩]

def newestFirst : Finding := fun g i d => (g.arcs.filter (·.near d == i)).reverse

/-- Three of the edges into the contact end on its connector. Their positions are found from the
last to the first. -/
theorem tangledContact_answers_scan :
    newestFirst.Exact ∧
      (newestFirst (PositionIndex.build tangledContact).graph 1 .incoming).map (·.edge) =
        [4, 3, 2, 0] ∧
      (PositionIndex.build tangledContact).incoming newestFirst tangledContact.nodes[2]
          (some "in") =
        some [(⟨"rail", "out", "a", "in"⟩, tangledContact.nodes[0]),
          (⟨"a", "out", "a", "in"⟩, tangledContact.nodes[2]),
          (⟨"rail", "out", "a", "in"⟩, tangledContact.nodes[0])] := by
  have hexact : newestFirst.Exact := fun g i d => List.reverse_perm _
  obtain ⟨-, -, hin, -⟩ := index_answers_scan tangledContact hexact
  refine ⟨hexact, by decide +kernel, ?_⟩
  rw [(hin _ _).1, (hin _ _).2]
  decide +kernel

end LadderDiagram
