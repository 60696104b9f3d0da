import LadderDiagram.Proofs.Element
import LadderDiagram.Proofs.Pairs

/-!
# Series-parallel ladders

A network is made of contacts and coils, in series and in parallel; a ladder is a
network between two rails. `edges` draws the wires the way an editor does: a
network starts at a port, through which power enters it, and ends at another.
-/

namespace LadderDiagram

namespace Node

def inputId (n : Node) : String := n.input.elim "" (·.id)

def outputId (n : Node) : String := n.output.elim "" (·.id)

theorem isOpen_of_isCitable {n : Node} (h : n.isCitable = true) : n.isOpen = false := by
  have hp := isParallel_of_isCitable h
  unfold isOpen
  split
  · rename_i hk; rw [hk] at hp; cases hp
  · rfl

end Node

structure Port where
  node : Node
  handle : String

namespace Port

def key (p : Port) : String × String := (p.node.id, p.handle)

def wire (s t : Port) : Edge := ⟨s.node.id, s.handle, t.node.id, t.handle⟩

end Port

namespace Node

def inPort (n : Node) : Port := ⟨n, n.inputId⟩

def outPort (n : Node) : Port := ⟨n, n.outputId⟩

/-- Where a branch leaves or rejoins. -/
def branchPort (n : Node) : Port := ⟨n, n.branchId⟩

end Node

/-- Contacts and coils, in series and in parallel. -/
inductive Network where
  | empty
  | element (n : Node)
  | series (a b : Network)
  /-- The serial side `a` and the branch `b`, between two markers. -/
  | parallel (opener close : Node) (a b : Network)

/-- Two markers that a group can stand between. -/
structure Markers (opener close : Node) : Prop where
  opener_kind : ∃ branch, opener.kind = .parallelOpen branch
  opener_input : opener.input.isSome
  opener_output : opener.output.isSome
  opener_handles : opener.outputId ≠ opener.branchId
  close_kind : ∃ branch, close.kind = .parallelClose branch
  close_input : close.input.isSome
  close_output : close.output.isSome
  close_handles : close.inputId ≠ close.branchId

namespace Network

/-- Every node is of its kind and has its connectors. -/
def WellFormed : Network → Prop
  | empty => True
  | element n => n.kind.tag ∈ ["contact", "coil"] ∧ n.input.isSome ∧ n.output.isSome
  | series a b => a.WellFormed ∧ b.WellFormed
  | parallel opener close a b => Markers opener close ∧ a.WellFormed ∧ b.WellFormed

def nodes : Network → List Node
  | empty => []
  | element n => [n]
  | series a b => a.nodes ++ b.nodes
  | parallel opener close a b => opener :: close :: (a.nodes ++ b.nodes)

/-- The port at which the network ends, if it starts at `s`. -/
def exit (s : Port) : Network → Port
  | empty => s
  | element n => n.outPort
  | series a b => b.exit (a.exit s)
  | parallel _ close _ _ => close.outPort

/-- The wires of the network, if it starts at `s`; the wire at its end is none of them. -/
def edges (s : Port) : Network → List Edge
  | empty => []
  | element n => [s.wire n.inPort]
  | series a b => a.edges s ++ b.edges (a.exit s)
  | parallel opener close a b =>
    s.wire opener.inPort ::
      (a.edges opener.outPort ++ (a.exit opener.outPort).wire close.inPort ::
        (b.edges opener.branchPort ++ [(b.exit opener.branchPort).wire close.branchPort]))

def pairs : Network → List MarkerPair
  | empty | element _ => []
  | series a b => a.pairs ++ b.pairs
  | parallel opener close a b => ⟨opener, close⟩ :: (a.pairs ++ b.pairs)

/-- The elements at the end of the network, if those in `feed` are at its start: of a group those
at the end of either side, of which the first occurrences are kept. -/
def ends (feed : List Node) : Network → List Node
  | empty => feed
  | element n => [n]
  | series a b => b.ends (a.ends feed)
  | parallel _ _ a b => (a.ends feed ++ b.ends feed).eraseDups

/-- Each element of the network, with the elements that it has to cite. -/
def citations (feed : List Node) : Network → List (Node × List Node)
  | empty => []
  | element n => [(n, feed)]
  | series a b => a.citations feed ++ b.citations (a.ends feed)
  | parallel _ _ a b => a.citations feed ++ b.citations feed

/-- Ports of the network, in its order: one of each element, and three of each group, the first
before its serial side, the second before its branch and the third after. -/
def ports (single : Node → Port) (group : Node → Node → Port × Port × Port) : Network → List Port
  | empty => []
  | element n => [single n]
  | series a b => a.ports single group ++ b.ports single group
  | parallel opener close a b =>
    let (first, second, last) := group opener close
    first :: (a.ports single group ++ second :: (b.ports single group ++ [last]))

def inPorts : Network → List Port :=
  ports Node.inPort fun opener close => (opener.inPort, close.inPort, close.branchPort)

def outPorts : Network → List Port :=
  ports Node.outPort fun opener close => (opener.outPort, opener.branchPort, close.outPort)

end Network

/-- A network between two rails, each node named by an id of its own. -/
structure Ladder where
  left : Node
  network : Network
  right : Node
  left_kind : left.kind = .leftRail
  left_output : left.output.isSome
  right_kind : right.kind = .rightRail
  right_input : right.input.isSome
  wellFormed : network.WellFormed
  nodup : ((left :: right :: network.nodes).map (·.id)).Nodup

namespace Ladder

def nodes (l : Ladder) : List Node := l.left :: l.right :: l.network.nodes

def edges (l : Ladder) : List Edge :=
  l.network.edges l.left.outPort ++ [(l.network.exit l.left.outPort).wire l.right.inPort]

/-- Each element that wires lead to, with the elements that it has to cite. -/
def citations (l : Ladder) : List (Node × List Node) :=
  l.network.citations [l.left] ++ [(l.right, l.network.ends [l.left])]

/-- The rung lists the nodes and the edges of the ladder, in any order. -/
structure IsDrawn (l : Ladder) (r : Rung) : Prop where
  nodes : r.nodes.Perm l.nodes
  edges : r.edges.Perm l.edges

end Ladder

namespace Network

variable {N : Network}

theorem map_target_edges (s : Port) :
    (N.edges s).map (fun e => (e.target, e.targetHandle)) = N.inPorts.map Port.key := by
  unfold inPorts
  induction N generalizing s with
  | empty | element n => rfl
  | series a b iha ihb => rw [edges, ports, List.map_append, List.map_append, iha, ihb]
  | parallel o c a b iha ihb =>
    simp only [edges, ports, List.map_cons, List.map_append, List.map_nil, iha, ihb]
    rfl

theorem map_source_edges (s : Port) :
    (N.edges s).map (fun e => (e.source, e.sourceHandle)) ++ [(N.exit s).key] =
      s.key :: N.outPorts.map Port.key := by
  unfold outPorts
  induction N generalizing s with
  | empty | element n => rfl
  | series a b iha ihb =>
    rw [edges, exit, List.map_append, List.append_assoc, ihb, List.append_cons, iha, ports,
      List.map_append, List.cons_append]
  | parallel o c a b iha ihb =>
    have ha := iha o.outPort
    have hb := ihb o.branchPort
    simp only [edges, exit, ports, Port.wire, List.map_cons, List.map_append, List.map_nil,
      List.cons_append, List.append_assoc, List.nil_append] at ha hb ⊢
    show s.key :: _ = _
    rw [List.append_cons, ← Port.key, ha, List.append_cons, ← Port.key, hb]
    simp

theorem nodup_interleave {α : Type} {ka kb : List α} {x y z : α} (h : [x, y, z].Nodup)
    (ha : ka.Nodup) (hb : kb.Nodup) (hab : ∀ k ∈ ka, k ∉ kb)
    (hk : ∀ k ∈ [x, y, z], k ∉ ka ∧ k ∉ kb) : (x :: (ka ++ y :: (kb ++ [z]))).Nodup := by
  have hz : (ka ++ (kb ++ [z])).Perm (z :: (ka ++ kb)) := by
    rw [← List.append_assoc]
    exact List.perm_append_singleton z (ka ++ kb)
  have hp : (x :: (ka ++ y :: (kb ++ [z]))).Perm ([x, y, z] ++ (ka ++ kb)) :=
    (List.perm_middle.cons x).trans ((hz.cons y).cons x)
  refine hp.nodup_iff.2 (List.nodup_append.2 ⟨h, List.nodup_append.2 ⟨ha, hb, ?_⟩, ?_⟩)
  · rintro k hka _ hkb rfl
    exact hab k hka hkb
  · rintro k hkm _ hkab rfl
    rcases List.mem_append.1 hkab with hka | hkb
    · exact (hk k hkm).1 hka
    · exact (hk k hkm).2 hkb

section
variable {single : Node → Port} {group : Node → Node → Port × Port × Port}

theorem mem_ports_parallel {o c : Node} {a b : Network} {p : Port} :
    p ∈ (parallel o c a b).ports single group ↔
      p = (group o c).1 ∨ p ∈ a.ports single group ∨ p = (group o c).2.1 ∨
        p ∈ b.ports single group ∨ p = (group o c).2.2 := by
  simp [ports]

/-- The ports of a network are on its nodes, if those of each group are on its markers. -/
theorem mem_nodes_of_mem_ports (hs : ∀ n, (single n).node = n)
    (hg : ∀ o c, ∀ p ∈ [(group o c).1, (group o c).2.1, (group o c).2.2], p.node = o ∨ p.node = c)
    {p : Port} (h : p ∈ N.ports single group) : p.node ∈ N.nodes := by
  induction N with
  | empty => cases h
  | element n =>
    rw [List.mem_singleton.1 h, hs]
    exact List.mem_singleton_self n
  | series a b iha ihb =>
    rcases List.mem_append.1 h with h | h
    · exact List.mem_append_left _ (iha h)
    · exact List.mem_append_right _ (ihb h)
  | parallel o c a b iha ihb =>
    have hmarker {q : Port} (hq : q ∈ [(group o c).1, (group o c).2.1, (group o c).2.2]) :
        q.node ∈ (parallel o c a b).nodes := by
      rcases hg o c q hq with h | h <;> simp [nodes, h]
    rcases mem_ports_parallel.1 h with rfl | h | rfl | h | rfl
    · exact hmarker (by simp)
    · exact .tail _ (.tail _ (List.mem_append_left _ (iha h)))
    · exact hmarker (by simp)
    · exact .tail _ (.tail _ (List.mem_append_right _ (ihb h)))
    · exact hmarker (by simp)

theorem fst_mem_of_mem_keys {ports : List Port} {nodes : List Node}
    (h : ∀ p ∈ ports, p.node ∈ nodes) {k : String × String} (hk : k ∈ ports.map Port.key) :
    k.1 ∈ nodes.map (·.id) := by
  obtain ⟨p, hp, rfl⟩ := List.mem_map.1 hk
  exact List.mem_map_of_mem (h p hp)

/-- No port of a network is met twice, if no port of a group is. -/
theorem nodup_ports (hs : ∀ n, (single n).node = n)
    (hg : ∀ o c, ∀ p ∈ [(group o c).1, (group o c).2.1, (group o c).2.2], p.node = o ∨ p.node = c)
    (hk : ∀ o c, Markers o c → o.id ≠ c.id →
      ([(group o c).1, (group o c).2.1, (group o c).2.2].map Port.key).Nodup)
    (hw : N.WellFormed) (hd : (N.nodes.map (·.id)).Nodup) :
    ((N.ports single group).map Port.key).Nodup := by
  have hmem (N : Network) (k : String × String) (h : k ∈ (N.ports single group).map Port.key) :
      k.1 ∈ N.nodes.map (·.id) :=
    fst_mem_of_mem_keys (fun _ => mem_nodes_of_mem_ports hs hg) h
  induction N with
  | empty => exact .nil
  | element n => exact List.nodup_singleton _
  | series a b iha ihb =>
    rw [nodes, List.map_append, List.nodup_append] at hd
    obtain ⟨ha, hb, hab⟩ := hd
    rw [ports, List.map_append, List.nodup_append]
    refine ⟨iha hw.1 ha, ihb hw.2 hb, fun x hx y hy e => ?_⟩
    subst e
    exact hab _ (hmem a x hx) _ (hmem b x hy) rfl
  | parallel o c a b iha ihb =>
    obtain ⟨hm, hwa, hwb⟩ := hw
    simp only [nodes, List.map_cons, List.map_append, List.nodup_cons, List.mem_cons,
      List.mem_append, List.nodup_append] at hd
    obtain ⟨ho, hc, ha, hb, hab⟩ := hd
    -- The keys of the group name its markers, so none of them is met inside its sides.
    have hkey : ∀ k ∈ [(group o c).1, (group o c).2.1, (group o c).2.2].map Port.key,
        k ∉ (a.ports single group).map Port.key ∧ k ∉ (b.ports single group).map Port.key := by
      intro k hk
      obtain ⟨p, hp, rfl⟩ := List.mem_map.1 hk
      rcases hg o c p hp with h | h
      · exact ⟨fun hka => ho (.inr (.inl (h ▸ hmem a _ hka))),
          fun hkb => ho (.inr (.inr (h ▸ hmem b _ hkb)))⟩
      · exact ⟨fun hka => hc (.inl (h ▸ hmem a _ hka)), fun hkb => hc (.inr (h ▸ hmem b _ hkb))⟩
    simp only [ports, List.map_cons, List.map_append, List.map_nil]
    refine nodup_interleave (hk o c hm fun e => ho (.inl e)) (iha hwa ha) (ihb hwb hb) ?_ hkey
    exact fun k hka hkb => hab _ (hmem a k hka) _ (hmem b k hkb) rfl

end

theorem mem_nodes_of_mem_inPorts {p : Port} (h : p ∈ N.inPorts) : p.node ∈ N.nodes :=
  mem_nodes_of_mem_ports (fun _ => rfl) (by simp [Node.inPort, Node.branchPort]) h

theorem mem_nodes_of_mem_outPorts {p : Port} (h : p ∈ N.outPorts) : p.node ∈ N.nodes :=
  mem_nodes_of_mem_ports (fun _ => rfl) (by simp [Node.outPort, Node.branchPort]) h

theorem nodup_inPorts (hw : N.WellFormed) (hd : (N.nodes.map (·.id)).Nodup) :
    (N.inPorts.map Port.key).Nodup := by
  refine nodup_ports (fun _ => rfl) (by simp [Node.inPort, Node.branchPort]) ?_ hw hd
  intro o c hm hne
  have hh := hm.close_handles
  simp [Port.key, Node.inPort, Node.branchPort, hne, hh]

theorem nodup_outPorts (hw : N.WellFormed) (hd : (N.nodes.map (·.id)).Nodup) :
    (N.outPorts.map Port.key).Nodup := by
  refine nodup_ports (fun _ => rfl) (by simp [Node.outPort, Node.branchPort]) ?_ hw hd
  intro o c hm hne
  have hh := hm.opener_handles
  simp [Port.key, Node.outPort, Node.branchPort, hne, hh]

/-- A wire ends where power enters a node or, at a close marker, where a branch rejoins. -/
theorem handle_of_mem_inPorts (hw : N.WellFormed) {p : Port} (h : p ∈ N.inPorts) :
    p.handle = p.node.inputId ∨ p.node.isClose = true ∧ p.handle = p.node.branchId := by
  induction N with
  | empty => cases h
  | element n =>
    cases List.mem_singleton.1 h
    exact .inl rfl
  | series a b iha ihb => exact (List.mem_append.1 h).elim (iha hw.1) (ihb hw.2)
  | parallel o c a b iha ihb =>
    obtain ⟨hm, hwa, hwb⟩ := hw
    rcases mem_ports_parallel.1 h with rfl | h | rfl | h | rfl
    · exact .inl rfl
    · exact iha hwa h
    · exact .inl rfl
    · exact ihb hwb h
    · obtain ⟨branch, hk⟩ := hm.close_kind
      exact .inr ⟨by show c.isClose = true; rw [Node.isClose, hk], rfl⟩

theorem markers_of_mem_pairs (hw : N.WellFormed) {p : MarkerPair} (hp : p ∈ N.pairs) :
    Markers p.opener p.close := by
  induction N with
  | empty | element n => cases hp
  | series a b iha ihb => exact (List.mem_append.1 hp).elim (iha hw.1) (ihb hw.2)
  | parallel o c a b iha ihb =>
    rcases List.mem_cons.1 hp with rfl | hp
    · exact hw.1
    · exact (List.mem_append.1 hp).elim (iha hw.2.1) (ihb hw.2.2)

theorem isCitable_of_element {n : Node} (hw : (element n).WellFormed) : n.isCitable = true :=
  Node.isCitable_of_mem hw.1 (by decide)

/-- The nodes of a network that are no contacts or coils are the markers of its groups. -/
theorem filter_nodes (hw : N.WellFormed) {f : Node → Bool}
    (hf : ∀ n : Node, n.isCitable = true → f n = false) :
    N.nodes.filter f = N.pairs.flatMap fun p => [p.opener, p.close].filter f := by
  induction N with
  | empty => rfl
  | element n =>
    have hn : f n = false := hf n (isCitable_of_element hw)
    rw [nodes, List.filter_cons_of_neg (by rw [hn]; decide)]
    rfl
  | series a b iha ihb =>
    rw [nodes, List.filter_append, iha hw.1, ihb hw.2, pairs, List.flatMap_append]
  | parallel o c a b iha ihb =>
    have hn : (parallel o c a b).nodes = [o, c] ++ (a.nodes ++ b.nodes) := rfl
    rw [hn, List.filter_append, List.filter_append, iha hw.2.1, ihb hw.2.2, pairs,
      List.flatMap_cons, List.flatMap_append]

theorem filter_isOpen_nodes (hw : N.WellFormed) :
    N.nodes.filter Node.isOpen = N.pairs.map (·.opener) := by
  rw [filter_nodes hw fun _ => Node.isOpen_of_isCitable, List.map_eq_flatMap]
  apply List.flatMap_congr
  intro p hp
  have hm := markers_of_mem_pairs hw hp
  obtain ⟨ob, ho⟩ := hm.opener_kind
  obtain ⟨cb, hc⟩ := hm.close_kind
  simp [Node.isOpen, ho, hc]

theorem filter_isClose_nodes (hw : N.WellFormed) :
    N.nodes.filter Node.isClose = N.pairs.map (·.close) := by
  rw [filter_nodes hw fun _ => Node.isClose_of_isCitable, List.map_eq_flatMap]
  apply List.flatMap_congr
  intro p hp
  have hm := markers_of_mem_pairs hw hp
  obtain ⟨ob, ho⟩ := hm.opener_kind
  obtain ⟨cb, hc⟩ := hm.close_kind
  simp [Node.isClose, ho, hc]

end Network

end LadderDiagram
