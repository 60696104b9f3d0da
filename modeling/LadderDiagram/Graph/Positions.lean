import LadderDiagram.Graph.Topology

/-!
# Index of a rung by positions

The index as a directed graph. Its nodes carry the position of a node of the rung and are made for
the first node with each id only, so their numbers are not these positions. Its arcs carry the
position of an edge. An answer takes the arcs at a node as they are found, puts them in the order of
the edges and turns positions into edges and nodes again.

A position out of range ends the program. It is told apart as `none`.
-/

namespace LadderDiagram

inductive Direction where
  | incoming
  | outgoing
  deriving DecidableEq

/-- The numbers of the nodes at both ends, and the position of an edge. -/
structure Arc where
  source : Nat
  target : Nat
  edge : Nat
  deriving DecidableEq

namespace Arc

/-- The end at which the arc is found. -/
def near (a : Arc) : Direction → Nat
  | .incoming => a.target
  | .outgoing => a.source

def far (a : Arc) : Direction → Nat
  | .incoming => a.source
  | .outgoing => a.target

end Arc

/-- The nodes are numbered in the order in which they are added. -/
structure Digraph where
  weights : List Nat := []
  arcs : List Arc := []

namespace Digraph

def addNode (g : Digraph) (position : Nat) : Nat × Digraph :=
  (g.weights.length, { g with weights := g.weights ++ [position] })

def addArc (g : Digraph) (source target edge : Nat) : Digraph :=
  { g with arcs := g.arcs ++ [⟨source, target, edge⟩] }

end Digraph

/-- How the arcs at a node of a graph are found. -/
abbrev Finding := Digraph → Nat → Direction → List Arc

/-- Each arc at a node is found once, in some order. -/
def Finding.Exact (find : Finding) : Prop :=
  ∀ g i d, (find g i d).Perm (g.arcs.filter (·.near d == i))

structure PositionIndex where
  rung : Rung
  graph : Digraph
  /-- The number of the first node with each id. -/
  numbers : Std.TreeMap String Nat
  dangling : List Edge

namespace PositionIndex

def addNode (numbered : Std.TreeMap String Nat × Digraph) (p : Node × Nat) :
    Std.TreeMap String Nat × Digraph :=
  match numbered.1[p.1.id]? with
  | some _ => numbered
  | none =>
    let (i, graph) := numbered.2.addNode p.2
    (numbered.1.insert p.1.id i, graph)

def addEdge (numbers : Std.TreeMap String Nat) (drawn : Digraph × List Edge) (p : Edge × Nat) :
    Digraph × List Edge :=
  match numbers[p.1.source]?, numbers[p.1.target]? with
  | some i, some j => (drawn.1.addArc i j p.2, drawn.2)
  | _, _ => (drawn.1, drawn.2 ++ [p.1])

def build (r : Rung) : PositionIndex :=
  let (numbers, nodes) := r.nodes.zipIdx.foldl addNode (∅, {})
  let (graph, dangling) := r.edges.zipIdx.foldl (addEdge numbers) (nodes, [])
  { rung := r, graph, numbers, dangling }

/-- The node of the rung for which a node of the graph stands. -/
def nodeAt? (t : PositionIndex) (i : Nat) : Option Node := do
  t.rung.nodes[← t.graph.weights[i]?]?

def node? (t : PositionIndex) (id : String) : Option (Option Node) :=
  match t.numbers[id]? with
  | some i => (t.nodeAt? i).map some
  | none => some none

/-- The edges at a node that are kept, each with the node at its other end. -/
def adjacent (find : Finding) (t : PositionIndex) (n : Node) (d : Direction)
    (keep : Edge → Bool) : Option (List (Edge × Node)) :=
  match t.numbers[n.id]? with
  | none => some []
  | some i =>
    -- An edge out of range is kept here, so that the answer ends at it below.
    let found := (find t.graph i d).filter fun a => t.rung.edges[a.edge]?.all keep
    let sorted := (found.map fun a => (a.edge, a.far d)).mergeSort (·.1 ≤ ·.1)
    sorted.mapM fun p => do return (← t.rung.edges[p.1]?, ← t.nodeAt? p.2)

def incoming (find : Finding) (t : PositionIndex) (n : Node)
    (connector : Option String := none) : Option (List (Edge × Node)) :=
  t.adjacent find n .incoming fun e => connector.all (e.targetHandle == ·)

def outgoing (find : Finding) (t : PositionIndex) (n : Node) (connector : String) :
    Option (List (Edge × Node)) :=
  t.adjacent find n .outgoing (·.sourceHandle == connector)

end PositionIndex

end LadderDiagram
