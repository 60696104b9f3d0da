import LadderDiagram.Graph.Basic
import Std.Data.TreeMap

/-!
# Index of a rung

A `Topology` answers which node an id names and which wires arrive at or leave a
node. Of several nodes with one id the first counts. An edge with an end that
names no node is dangling and is no wire. Wires are listed in the order of the
rung's edges.
-/

namespace LadderDiagram

/-- An edge with the nodes at its ends. -/
structure Wire where
  edge : Edge
  source : Node
  target : Node
  deriving DecidableEq

structure Topology where
  rung : Rung
  /-- The ids of the rung's nodes. -/
  ids : List String
  /-- The first node with each id. -/
  first : Std.TreeMap String Node
  /-- The wires into each node. -/
  arriving : Std.TreeMap String (List Wire)
  /-- The wires out of each node. -/
  leaving : Std.TreeMap String (List Wire)
  dangling : List Edge

namespace Topology

/-- The first node with each id. -/
def indexNodes (nodes : List Node) : Std.TreeMap String Node :=
  nodes.foldl (fun index n => index.insertIfNew n.id n) ∅

theorem getElem?_foldl_insertIfNew (nodes : List Node) (index : Std.TreeMap String Node)
    (id : String) :
    (nodes.foldl (fun index n => index.insertIfNew n.id n) index)[id]? =
      (index[id]? <|> nodes.find? (·.id == id)) := by
  induction nodes generalizing index with
  | nil => rw [List.foldl_nil, List.find?_nil]; cases index[id]? <;> rfl
  | cons n rest ih =>
    rw [List.foldl_cons, ih, Std.TreeMap.getElem?_insertIfNew]
    by_cases h : n.id = id
    · subst h
      by_cases hm : n.id ∈ index
      · rw [if_neg (by simp [hm]), Std.TreeMap.getElem?_eq_some_getElem hm]
        simp
      · rw [if_pos ⟨Std.compare_eq_iff_eq.2 rfl, hm⟩, Std.TreeMap.getElem?_eq_none hm]
        simp
    · rw [if_neg fun e => h (Std.compare_eq_iff_eq.1 e.1)]
      simp [h]

theorem getElem?_indexNodes (nodes : List Node) (id : String) :
    (indexNodes nodes)[id]? = nodes.find? (·.id == id) := by
  rw [indexNodes, getElem?_foldl_insertIfNew]
  simp

/-- The wire that an edge is, when both its ends name nodes. -/
def wire? (index : Std.TreeMap String Node) (e : Edge) : Option Wire := do
  return ⟨e, ← index[e.source]?, ← index[e.target]?⟩

/-- Wires grouped by a key, each group in order. -/
def groupWires (key : Wire → String) (wires : List Wire) : Std.TreeMap String (List Wire) :=
  wires.foldr (fun w groups => groups.alter (key w) fun ws => some (w :: ws.getD [])) ∅

theorem getD_groupWires (key : Wire → String) (wires : List Wire) (k : String) :
    (groupWires key wires)[k]?.getD [] = wires.filter (key · == k) := by
  induction wires with
  | nil => simp [groupWires]
  | cons w rest ih =>
    rw [groupWires] at ih ⊢
    rw [List.foldr_cons, Std.TreeMap.getElem?_alter]
    by_cases h : key w = k
    · subst h; simp [ih]
    · simp [h, ih]

def ofRung (r : Rung) : Topology :=
  let first := indexNodes r.nodes
  let wires := r.edges.filterMap (wire? first)
  { rung := r
    ids := r.nodes.map (·.id)
    first
    arriving := groupWires (·.edge.target) wires
    leaving := groupWires (·.edge.source) wires
    dangling := r.edges.filter fun e => (wire? first e).isNone }

def node? (t : Topology) (id : String) : Option Node := t.first[id]?

theorem node?_ofRung (r : Rung) (id : String) : (ofRung r).node? id = r.node? id :=
  getElem?_indexNodes r.nodes id

/-- The wires into a node, or only those that end on one of its connectors. -/
def incoming (t : Topology) (n : Node) (connector : Option String := none) : List Wire :=
  (t.arriving[n.id]?.getD []).filter fun w => connector.all (w.edge.targetHandle == ·)

theorem incoming_ofRung (r : Rung) (n : Node) (connector : Option String) :
    (ofRung r).incoming n connector =
      ((r.edges.filterMap (wire? (indexNodes r.nodes))).filter (·.edge.target == n.id)).filter
        fun w => connector.all (w.edge.targetHandle == ·) := by
  rw [incoming, ofRung, getD_groupWires]

def outgoing (t : Topology) (n : Node) (connector : String) : List Wire :=
  (t.leaving[n.id]?.getD []).filter fun w => w.edge.sourceHandle == connector

theorem outgoing_ofRung (r : Rung) (n : Node) (connector : String) :
    (ofRung r).outgoing n connector =
      ((r.edges.filterMap (wire? (indexNodes r.nodes))).filter (·.edge.source == n.id)).filter
        (·.edge.sourceHandle == connector) := by
  rw [outgoing, ofRung, getD_groupWires]

def without (ids : List String) (id : String) : List String := ids.filter (· ≠ id)

theorem mem_without {ids : List String} {id id' : String} :
    id ∈ without ids id' ↔ id ∈ ids ∧ id ≠ id' := by
  simp [without]

theorem length_without_lt {ids : List String} {id : String} (h : id ∈ ids) :
    (without ids id).length < ids.length :=
  List.length_filter_lt_length_iff_exists.2 ⟨id, h, by simp⟩

end Topology

end LadderDiagram
