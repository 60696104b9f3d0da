import LadderDiagram.Proofs.Isolation
import LadderDiagram.Proofs.Renaming.Alike

/-!
# Lowering renamed rungs

Renaming the rungs of a list renames the report and does nothing else to it (`lower_map_rename`):
ids of nodes are compared and told of, local ids are copied and compared.
-/

namespace LadderDiagram

open Body (Element)
open LadderDiagram.Topology (ofRung wire? indexNodes getElem?_indexNodes)

variable (ρ : Renaming)

theorem Rung.node?_rename (r : Rung) (id : String) :
    (r.rename ρ).node? (ρ.id id) = (r.node? id).map (·.rename ρ) := by
  rw [Rung.node?, Rung.rename, List.find?_map]
  simp [Function.comp_def, Rung.node?]

namespace Topology

/-- An edge is a wire after the renaming if it was one before: no other end comes to name a
node. -/
theorem wire?_rename (r : Rung) (e : Edge) :
    wire? (indexNodes (r.rename ρ).nodes) (e.rename ρ) =
      (wire? (indexNodes r.nodes) e).map (·.rename ρ) := by
  have hnode (id : String) : (indexNodes (r.rename ρ).nodes)[ρ.id id]? =
      (indexNodes r.nodes)[id]?.map (·.rename ρ) := by
    rw [getElem?_indexNodes, getElem?_indexNodes]
    exact r.node?_rename ρ id
  simp only [wire?, Edge.rename, hnode]
  cases (indexNodes r.nodes)[e.source]? with
  | none => rfl
  | some a => cases (indexNodes r.nodes)[e.target]? <;> rfl

theorem wires_rename (r : Rung) :
    (r.rename ρ).edges.filterMap (wire? (indexNodes (r.rename ρ).nodes)) =
      (r.edges.filterMap (wire? (indexNodes r.nodes))).map (·.rename ρ) := by
  have hedges : (r.rename ρ).edges = r.edges.map (·.rename ρ) := rfl
  rw [hedges, List.filterMap_map, List.map_filterMap]
  exact List.filterMap_congr fun e _ => wire?_rename ρ r e

theorem alike_rename (r : Rung) : (ofRung r).Alike ρ (ofRung (r.rename ρ)) where
  nodes := rfl
  bindings := rfl
  ids := by simp [ofRung, Rung.rename, Function.comp_def]
  node? id := by
    rw [node?_ofRung, node?_ofRung]
    exact r.node?_rename ρ id
  incoming n c := by
    rw [incoming_ofRung, incoming_ofRung, wires_rename]
    simp [List.filter_map, Function.comp_def, Edge.rename]
  outgoing n c := by
    rw [outgoing_ofRung, outgoing_ofRung, wires_rename]
    simp [List.filter_map, Function.comp_def, Edge.rename]

end Topology

def Lowered.rename (l : Lowered) : Lowered where
  elements := l.elements.map (·.rename ρ)
  warnings := l.warnings.map (·.rename ρ)

def Outcome.rename (o : Outcome) : Outcome :=
  { o with rung := o.rung.rename ρ, result := ρ.outcome (·.rename ρ) o.result }

namespace Rung

theorem danglingWarnings_rename (r : Rung) (index : Nat) :
    (r.rename ρ).danglingWarnings index = (r.danglingWarnings index).map (·.rename ρ) := by
  have hdangling : (fun e => (wire? (indexNodes (r.rename ρ).nodes) e).isNone) ∘ (·.rename ρ) =
      fun e => (wire? (indexNodes r.nodes) e).isNone := by
    funext e
    rw [Function.comp_apply, Topology.wire?_rename, Option.isNone_map]
  show ((r.edges.map (·.rename ρ)).filter _).map _ = ((r.edges.filter _).map _).map _
  rw [List.filter_map, hdangling, List.map_map, List.map_map]
  rfl

theorem lower_rename (r : Rung) (index : Nat) (offset : Offset) :
    (r.rename ρ).lower index offset = ρ.outcome (·.rename ρ) (r.lower index offset) := by
  rw [lower_eq_emission, lower_eq_emission, emission_alike (Topology.alike_rename ρ r)]
  apply ρ.outcome_bind
  intro emitted
  apply congrArg Except.ok
  simp [Lowered.rename, Emitted.rename, danglingWarnings_rename, List.filterMap_map,
    List.map_filterMap, List.flatMap_map, List.map_flatMap]

end Rung

theorem outcomesFrom_rename (index : Nat) (offset : Offset) (rungs : List Rung) :
    outcomesFrom index offset (rungs.map (·.rename ρ)) =
      (outcomesFrom index offset rungs).map (·.rename ρ) := by
  induction rungs generalizing index offset with
  | nil => rfl
  | cons r rest ih =>
    rw [List.map_cons, outcomesFrom, outcomesFrom, List.map_cons, r.lower_rename ρ, ih]
    rfl

namespace Outcome

theorem elements_rename (o : Outcome) :
    (o.rename ρ).elements = o.elements.map (·.rename ρ) := by
  obtain ⟨index, rung, offset, result⟩ := o
  cases result <;> rfl

theorem warnings_rename (o : Outcome) :
    (o.rename ρ).warnings = o.warnings.map (·.rename ρ) := by
  obtain ⟨index, rung, offset, result⟩ := o
  cases result <;> rfl

theorem failure?_rename (o : Outcome) :
    (o.rename ρ).failure? = o.failure?.map (·.rename ρ) := by
  obtain ⟨index, rung, offset, result⟩ := o
  cases result <;> rfl

end Outcome

/-- **Lowering commutes with renaming.** Whatever the rungs and the configuration, lowering the
renamed rungs gives the report of the rungs, renamed: the same body with each local id and each
cited local id exchanged, and the same warnings and failures in the same order, with the ids of
nodes exchanged in them. -/
theorem lower_map_rename (config : Config) (rungs : List Rung) :
    lower config (rungs.map (·.rename ρ)) = (lower config rungs).rename ρ := by
  have ho : outcomes (rungs.map (·.rename ρ)) = (outcomes rungs).map (·.rename ρ) := by
    rw [outcomes_eq_outcomesFrom, outcomesFrom_rename, ← outcomes_eq_outcomesFrom]
  have hbody : Body.ofElements ((outcomes (rungs.map (·.rename ρ))).flatMap (·.elements)) =
      (Body.ofElements ((outcomes rungs).flatMap (·.elements))).rename ρ := by
    rw [ho, List.flatMap_map, ← Body.ofElements_rename, List.map_flatMap]
    simp only [Outcome.elements_rename]
  simp only [lower, Report.rename, Report.mk.injEq, hbody, Body.adapt_rename, true_and]
  constructor
  · rw [ho, List.flatMap_map, List.map_flatMap]
    simp only [Outcome.warnings_rename]
  · rw [ho, List.filterMap_map, List.map_filterMap]
    exact List.filterMap_congr fun o _ => o.failure?_rename ρ

/-- A prefix before each id, and local ids moved up. -/
def Renaming.moved : Renaming where
  id id := "n" ++ id
  localId n := n + 100
  id_injective _ _ h := String.append_right_inj _ |>.1 h
  localId_injective _ _ h := UInt64.add_left_inj _ |>.1 h

/-- The coil is cited by its new local id, an edge without an end is told of by its new ids, also
by the one that names no node, and the marker that closes a cycle by its own. -/
theorem lower_moved :
    let rungs := [{ contactAndCoil 120 1 with
      edges := [⟨"x", "out", "y", "in"⟩, ⟨"gone", "out", "x", "in"⟩] }, loopedCoil]
    let report := lower (.ofDialect .openPlc) (rungs.map (·.rename .moved))
    report = (lower (.ofDialect .openPlc) rungs).rename .moved ∧
      report.body.coils.map (fun c => (c.localId, c.input.connections.map (·.refLocalId))) =
        [(103, [102])] ∧
      report.warnings = [.danglingEdge 0 "ngone" "nx"] ∧
      report.failures = [⟨1, "loopedCoil", .markerCycle "nclose"⟩] := by
  intro rungs report
  have hreport : report = (lower (.ofDialect .openPlc) rungs).rename .moved :=
    lower_map_rename .moved (.ofDialect .openPlc) rungs
  rw [hreport]
  exact ⟨rfl, by decide +kernel, by decide +kernel, by decide +kernel⟩

end LadderDiagram
