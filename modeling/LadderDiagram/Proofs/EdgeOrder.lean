import LadderDiagram.Proofs.Failure
import LadderDiagram.Proofs.Isolation
import LadderDiagram.Proofs.PowerFlow
import LadderDiagram.Proofs.Renaming.Alike

/-!
# The order of edges

Of the order of a rung's edges only that matters in which the edges into one node are listed, and
of its edges only those with both ends: rungs that agree in these (`Rung.SameArrivals`) are
lowered alike (`lower_sameArrivals`). What is told of edges with a missing end is all that may
differ.

The wires of two such rungs are the same up to their order, so their topologies are alike under
the renaming that leaves everything as it is.
-/

namespace LadderDiagram

open Body (Element)
open LadderDiagram.Topology (ofRung wire? wire?_eq_some indexNodes isSome_wire?)

/-- The rungs differ only in their edges, and the edges that enter a node are the same in both,
in the same order. -/
structure Rung.SameArrivals (r r' : Rung) : Prop where
  id : r'.id = r.id
  nodes : r'.nodes = r.nodes
  bindings : r'.bindings = r.bindings
  height : r'.height = r.height
  entering : ∀ n ∈ r.nodes, r'.entering n = r.entering n

namespace Rung

theorem isComplete_congr {r r' : Rung} (h : r'.nodes = r.nodes) : r'.isComplete = r.isComplete := by
  funext e
  simp only [isComplete, node?, h]

theorem exists_target {r : Rung} {e : Edge} (h : r.isComplete e) :
    ∃ n ∈ r.nodes, n.id = e.target := by
  obtain ⟨-, n, hn⟩ := by
    simpa only [isComplete, Bool.and_eq_true, Option.isSome_iff_exists] using h
  exact ⟨n, List.mem_of_find?_eq_some hn, by simpa using List.find?_some hn⟩

theorem entering_eq_nil {r : Rung} {n : Node} (h : ¬ ∃ m ∈ r.nodes, m.id = n.id) :
    r.entering n = [] := by
  apply List.filter_eq_nil_iff.2
  rintro e - he
  obtain ⟨hc, ht⟩ := by simpa only [Bool.and_eq_true, beq_iff_eq] using he
  exact h (ht ▸ exists_target hc)

theorem wires_into (r : Rung) (n : Node) :
    (r.edges.filterMap (wire? (indexNodes r.nodes))).filter (·.edge.target == n.id) =
      (r.entering n).filterMap (wire? (indexNodes r.nodes)) := by
  rw [entering]
  induction r.edges with
  | nil => rfl
  | cons e rest ih =>
    have hc := isSome_wire? (r := r) (e := e)
    cases hw : wire? (indexNodes r.nodes) e with
    | none =>
      rw [hw, Option.isSome_none] at hc
      simp [hw, ← hc, ih]
    | some w =>
      rw [hw, Option.isSome_some] at hc
      obtain ⟨he, -⟩ := wire?_eq_some.1 hw
      by_cases ht : e.target = n.id <;> simp [hw, ← hc, he, ht, ih]

theorem wires_eq (r : Rung) :
    r.edges.filterMap (wire? (indexNodes r.nodes)) =
      (r.edges.filter r.isComplete).filterMap (wire? (indexNodes r.nodes)) := by
  rw [List.filterMap_filter]
  apply List.filterMap_congr
  intro e _
  rw [← isSome_wire?]
  cases wire? (indexNodes r.nodes) e <;> rfl

namespace SameArrivals

theorem refl (r : Rung) : r.SameArrivals r := ⟨rfl, rfl, rfl, rfl, fun _ _ => rfl⟩

/-- Leaving out the edges with a missing end changes no arrivals. -/
theorem of_filter_isComplete (r : Rung) :
    r.SameArrivals { r with edges := r.edges.filter r.isComplete } := by
  refine ⟨rfl, rfl, rfl, rfl, fun n _ => ?_⟩
  show (r.edges.filter r.isComplete).filter (fun e => r.isComplete e && _) = _
  rw [List.filter_filter, Rung.entering]
  apply List.filter_congr
  intro e _
  cases r.isComplete e <;> simp

/-- Neither does exchanging neighbouring edges into different nodes. -/
theorem of_swap (r : Rung) {a b : List Edge} {e e' : Edge} (h : e.target ≠ e'.target) :
    { r with edges := a ++ e :: e' :: b }.SameArrivals { r with edges := a ++ e' :: e :: b } := by
  refine ⟨rfl, rfl, rfl, rfl, fun n _ => ?_⟩
  show (a ++ e' :: e :: b).filter (fun e => r.isComplete e && _) =
    (a ++ e :: e' :: b).filter (fun e => r.isComplete e && _)
  simp only [List.filter_append, List.filter_cons]
  by_cases he : e.target = n.id
  · have he' : e'.target ≠ n.id := fun he' => h (he.trans he'.symm)
    simp [he']
  · simp [he]

variable {r r' : Rung} (h : r.SameArrivals r')
include h

theorem entering_eq (n : Node) : r'.entering n = r.entering n := by
  by_cases hn : ∃ m ∈ r.nodes, m.id = n.id
  · obtain ⟨m, hm, hid⟩ := hn
    have hm := h.entering m hm
    rwa [Rung.entering, Rung.entering, hid] at hm
  · rw [entering_eq_nil hn, entering_eq_nil (h.nodes ▸ hn)]

/-- Both rungs have the same complete edges, each as often: as often as it is listed among those
that enter its node. -/
theorem complete_perm :
    (r'.edges.filter r'.isComplete).Perm (r.edges.filter r.isComplete) := by
  apply List.perm_iff_count.2
  intro e
  by_cases he : r.isComplete e
  · obtain ⟨n, hn, ht⟩ := exists_target he
    have hcount (q : Rung) :
        (q.edges.filter q.isComplete).count e = (q.entering n).count e := by
      have hfilter : q.entering n = (q.edges.filter q.isComplete).filter (·.target == n.id) := by
        simp only [Rung.entering, List.filter_filter, Bool.and_comm]
      rw [hfilter]
      exact (List.count_filter (by simp [ht])).symm
    rw [hcount, hcount, h.entering n hn]
  · have he' : ¬ r'.isComplete e := by rwa [isComplete_congr h.nodes]
    rw [List.count_eq_zero_of_not_mem, List.count_eq_zero_of_not_mem]
    · exact fun hm => he (List.mem_filter.1 hm).2
    · exact fun hm => he' (List.mem_filter.1 hm).2

theorem wires_perm :
    (r'.edges.filterMap (wire? (indexNodes r'.nodes))).Perm
      (r.edges.filterMap (wire? (indexNodes r.nodes))) := by
  rw [wires_eq, wires_eq r, h.nodes]
  exact h.complete_perm.filterMap _

theorem alike : (ofRung r).Alike .refl (ofRung r') where
  nodes := h.nodes.trans (List.map_id' _).symm
  bindings := h.bindings.trans (List.map_id' _).symm
  ids := (congrArg (List.map Node.id) h.nodes).trans (List.map_id' _).symm
  node? id := by
    rw [Topology.node?_ofRung, Topology.node?_ofRung, node?, h.nodes]
    exact Option.map_id'.symm
  incoming n c := by
    rw [Topology.incoming_ofRung, Topology.incoming_ofRung]
    have hinto : (r'.edges.filterMap (wire? (indexNodes r'.nodes))).filter
          (·.edge.target == n.id) =
        (r.edges.filterMap (wire? (indexNodes r.nodes))).filter (·.edge.target == n.id) := by
      rw [wires_into, wires_into, h.nodes, h.entering_eq]
    exact (congrArg (List.filter _) hinto).trans (List.map_id' _).symm
  outgoing n c := by
    rw [Topology.outgoing_ofRung, Topology.outgoing_ofRung]
    refine List.Perm.trans ?_ (.of_eq (List.map_id' _).symm)
    exact (h.wires_perm.filter _).filter _

end SameArrivals

end Rung

/-! ## The renaming that leaves everything as it is -/

@[simp] theorem Renaming.localId_refl (id : UInt64) : Renaming.refl.localId id = id := rfl

@[simp] theorem MalformedGraph.rename_refl (cause : MalformedGraph) :
    cause.rename .refl = cause := by
  cases cause <;> rfl

@[simp] theorem Warning.rename_refl (w : Warning) : w.rename .refl = w := by
  cases w <;> rfl

@[simp] theorem Body.InputSide.rename_refl (s : InputSide) : s.rename .refl = s := by
  obtain ⟨point, connections⟩ := s
  exact congrArg (InputSide.mk point) (List.map_id' connections)

@[simp] theorem Body.Block.rename_refl (b : Block) : b.rename .refl = b := by
  have hpin (i : BlockInput) : { i with source := i.source.mapSide (·.rename .refl) } = i := by
    obtain ⟨pin, side | text⟩ := i <;> simp [InputSource.mapSide]
  simp only [Block.rename, Block.mapInputs, hpin, List.map_id']
  rfl

@[simp] theorem Body.Element.rename_refl (e : Element) : e.rename .refl = e := by
  cases e with
  | block b => exact congrArg Element.block b.rename_refl
  | _ => simp [rename, LeftRail.rename, RightRail.rename, Contact.rename, Coil.rename,
      InVariable.rename, OutVariable.rename]

@[simp] theorem Emitted.rename_refl (e : Emitted) : e.rename .refl = e := by
  simp [rename]

theorem Renaming.outcome_refl {α : Type} {f : α → α} (hf : ∀ a, f a = a)
    (x : Except MalformedGraph α) : Renaming.refl.outcome f x = x := by
  cases x <;> simp [hf]

/-! ## Rungs with the same arrivals -/

def Warning.isDanglingEdge : Warning → Bool
  | danglingEdge .. => true
  | _ => false

namespace Rung.SameArrivals

variable {r r' : Rung} (h : r.SameArrivals r')
include h

theorem emission (index : Nat) (offset : Offset) :
    r'.emission index offset = r.emission index offset := by
  rw [emission_alike h.alike]
  exact Renaming.outcome_refl (by simp) _

end Rung.SameArrivals

namespace Outcome

/-- Two outcomes differ at most in what is told of edges with a missing end. -/
structure SameButDangling (o o' : Outcome) : Prop where
  elements : o'.elements = o.elements
  failure? : o'.failure? = o.failure?
  warnings : o'.warnings.filter (!·.isDanglingEdge) = o.warnings.filter (!·.isDanglingEdge)

theorem sameButDangling_all {os os' : List Outcome} (h : List.Forall₂ SameButDangling os os') :
    os'.flatMap (·.elements) = os.flatMap (·.elements) ∧
      os'.filterMap (·.failure?) = os.filterMap (·.failure?) ∧
      (os'.flatMap (·.warnings)).filter (!·.isDanglingEdge) =
        (os.flatMap (·.warnings)).filter (!·.isDanglingEdge) := by
  induction h with
  | nil => exact ⟨rfl, rfl, rfl⟩
  | cons ho _ ih =>
    obtain ⟨he, hf, hw⟩ := ih
    refine ⟨?_, ?_, ?_⟩
    · rw [List.flatMap_cons, List.flatMap_cons, ho.elements, he]
    · rw [List.filterMap_cons, List.filterMap_cons, ho.failure?, hf]
    · rw [List.flatMap_cons, List.flatMap_cons, List.filter_append, List.filter_append,
        ho.warnings, hw]

end Outcome

theorem Rung.filter_danglingWarnings (r : Rung) (index : Nat) :
    (r.danglingWarnings index).filter (!·.isDanglingEdge) = [] := by
  simp [danglingWarnings, Warning.isDanglingEdge]

theorem Rung.SameArrivals.outcome {r r' : Rung} (h : r.SameArrivals r') (index : Nat)
    (offset : Offset) :
    Outcome.SameButDangling ⟨index, r, offset, r.lower index offset⟩
      ⟨index, r', offset, r'.lower index offset⟩ := by
  rw [lower_eq_emission, lower_eq_emission, h.emission]
  cases r.emission index offset with
  | error cause => exact ⟨rfl, by simp [Outcome.failure?, h.id, bind, Except.bind], rfl⟩
  | ok emitted =>
    refine ⟨rfl, rfl, ?_⟩
    show List.filter _ (_ ++ _) = List.filter _ (_ ++ _)
    rw [List.filter_append, List.filter_append, filter_danglingWarnings, filter_danglingWarnings]

theorem outcomesFrom_sameArrivals {rungs rungs' : List Rung}
    (h : List.Forall₂ Rung.SameArrivals rungs rungs') (index : Nat) (offset : Offset) :
    List.Forall₂ Outcome.SameButDangling (outcomesFrom index offset rungs)
      (outcomesFrom index offset rungs') := by
  induction h generalizing index offset with
  | nil => exact .nil
  | cons hr _ ih =>
    rw [outcomesFrom, outcomesFrom, hr.height]
    exact .cons (hr.outcome index offset) (ih _ _)

/-- **Only the order of edges into one node matters.** If two lists of rungs agree, rung by rung,
in all but their edges, and in the edges that enter each node and their order, then they are
lowered to the same body, with the same failures and the same warnings but for those of edges with
a missing end. -/
theorem lower_sameArrivals (config : Config) {rungs rungs' : List Rung}
    (h : List.Forall₂ Rung.SameArrivals rungs rungs') :
    (lower config rungs').body = (lower config rungs).body ∧
      (lower config rungs').failures = (lower config rungs).failures ∧
      (lower config rungs').warnings.filter (!·.isDanglingEdge) =
        (lower config rungs).warnings.filter (!·.isDanglingEdge) := by
  have ho := outcomesFrom_sameArrivals h 0 .zero
  rw [← outcomes_eq_outcomesFrom, ← outcomes_eq_outcomesFrom] at ho
  obtain ⟨he, hf, hw⟩ := Outcome.sameButDangling_all ho
  exact ⟨congrArg (fun es => (Body.ofElements es).adapt config) he, hf, hw⟩

/-- The rung of `parallelContacts` with its edges in another order and one that leads nowhere. -/
def parallelContacts.shuffled : Rung :=
  { parallelContacts with
    edges := [
      ⟨"close", "out", "y", "in"⟩, ⟨"b", "out", "close", "in"⟩, ⟨"open", "down", "c", "in"⟩,
      ⟨"c", "out", "nowhere", "in"⟩, ⟨"c", "out", "close", "up"⟩, ⟨"rail", "out", "open", "in"⟩,
      ⟨"open", "out", "b", "in"⟩] }

theorem lower_shuffled :
    List.Forall₂ Rung.SameArrivals [singleContact, parallelContacts]
      [singleContact, parallelContacts.shuffled] ∧
    (lower (.ofDialect .codesys) [singleContact, parallelContacts.shuffled]).body =
      (lower (.ofDialect .codesys) [singleContact, parallelContacts]).body := by
  have h : List.Forall₂ Rung.SameArrivals [singleContact, parallelContacts]
      [singleContact, parallelContacts.shuffled] :=
    .cons (.refl _) (.cons ⟨rfl, rfl, rfl, rfl, by decide +kernel⟩ .nil)
  exact ⟨h, (lower_sameArrivals (.ofDialect .codesys) h).1⟩

end LadderDiagram
