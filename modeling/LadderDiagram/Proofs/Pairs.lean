import LadderDiagram.Graph.Pairing
import LadderDiagram.Proofs.Success

/-!
# Pairs of markers

Pairing goes through the nodes and follows the branch of each open marker. It succeeds if every
branch ends on a close marker, no two on the same, and every close marker is found
(`Topology.pairs_eq_ok_iff`). Where the branch of one marker ends (`Topology.pairOf`) depends on no
other.
-/

namespace LadderDiagram

namespace Node

def isOpen (n : Node) : Bool :=
  match n.kind with
  | .parallelOpen _ => true
  | _ => false

/-- The connector through which a branch leaves an open marker or rejoins at a close one. -/
def branchId (n : Node) : String :=
  match n.kind with
  | .parallelOpen branch | .parallelClose branch => branch.id
  | _ => ""

theorem isOpen_iff {n : Node} : n.isOpen = true ↔ ∃ branch, n.kind = .parallelOpen branch := by
  unfold isOpen
  split
  · rename_i branch hk
    exact iff_of_true rfl ⟨branch, hk⟩
  · rename_i hk
    exact iff_of_false Bool.false_ne_true fun ⟨branch, h⟩ => hk branch h

end Node

namespace Topology

variable {t : Topology}

section
variable {opener : Node} {fresh : List String} {w : Wire}

theorem branchEnd_singleton (t : Topology) (opener : Node) (fresh : List String) (w : Wire) :
    t.branchEnd opener fresh [w] =
      if w.target.id ∈ fresh then
        if w.endsBranch then .ok w.target
        else
          match w.target.output with
          | some out => t.branchEnd opener (without fresh w.target.id) (t.forward w.target out.id)
          | none => .error (.unclosedOpen opener.id)
      else .error (.markerCycle opener.id) := by
  rw [branchEnd]
  exact dite_eq_ite

theorem branchEnd_ends (hw : w.target.id ∈ fresh) (he : w.endsBranch = true) :
    t.branchEnd opener fresh [w] = .ok w.target := by
  rw [branchEnd_singleton, if_pos hw, if_pos he]

theorem branchEnd_passes {out : Connector} (hw : w.target.id ∈ fresh) (he : w.endsBranch = false)
    (ho : w.target.output = some out) : t.branchEnd opener fresh [w] =
      t.branchEnd opener (without fresh w.target.id) (t.forward w.target out.id) := by
  rw [branchEnd_singleton, if_pos hw, he, ho]
  rfl

theorem branchEnd_without_output (hw : w.target.id ∈ fresh) (he : w.endsBranch = false)
    (ho : w.target.output = none) :
    t.branchEnd opener fresh [w] = .error (.unclosedOpen opener.id) := by
  rw [branchEnd_singleton, if_pos hw, he, ho]
  rfl

theorem branchEnd_met (hw : w.target.id ∉ fresh) :
    t.branchEnd opener fresh [w] = .error (.markerCycle opener.id) := by
  rw [branchEnd_singleton, if_neg hw]

theorem branchEnd_of_ne_singleton {next : List Wire} (h : ∀ w, next ≠ [w]) :
    t.branchEnd opener fresh next = .error (.unclosedOpen opener.id) :=
  branchEnd.eq_2 _ _ _ _ h

end

/-- The pair that the branch of an open marker makes. -/
def pairOf (t : Topology) (opener : Node) : Except MalformedGraph MarkerPair := do
  return ⟨opener, ← t.branchEnd opener t.ids (t.forward opener opener.branchId)⟩

theorem opener_of_pairOf {o : Node} {p : MarkerPair} (h : t.pairOf o = .ok p) : p.opener = o := by
  obtain ⟨close, -, he⟩ := bind_eq_ok.1 h
  rw [← pure_eq_ok.1 he]

theorem pairFrom_skip {made : List MarkerPair} {n : Node} {rest : List Node}
    (h : n.isOpen = false) : t.pairFrom made (n :: rest) = t.pairFrom made rest := by
  rw [pairFrom]
  split
  · rename_i hk
    rw [Node.isOpen, hk] at h
    cases h
  · rfl

theorem pairFrom_open {made : List MarkerPair} {n : Node} {rest : List Node}
    (h : n.isOpen = true) : t.pairFrom made (n :: rest) = (do
      let p ← t.pairOf n
      match made.find? (·.close.id == p.close.id) with
      | some q => throw (.sharedClose p.close.id q.opener.id n.id)
      | none => t.pairFrom (made ++ [p]) rest) := by
  obtain ⟨branch, hk⟩ := Node.isOpen_iff.1 h
  simp only [pairFrom, pairOf, Node.branchId, hk]
  cases t.branchEnd n t.ids (t.forward n branch.id) <;> rfl

theorem pairFrom_cons_eq_ok_iff {made result : List MarkerPair} {n : Node}
    {rest : List Node} (h : n.isOpen = true) :
    t.pairFrom made (n :: rest) = .ok result ↔ ∃ p, t.pairOf n = .ok p ∧
      (∀ q ∈ made, q.close.id ≠ p.close.id) ∧ t.pairFrom (made ++ [p]) rest = .ok result := by
  rw [pairFrom_open h, bind_eq_ok]
  refine exists_congr fun p => and_congr_right fun _ => ?_
  cases hfind : made.find? (·.close.id == p.close.id) with
  | some q =>
    refine iff_of_false nofun fun hfree => hfree.1 q (List.mem_of_find?_eq_some hfind) ?_
    simpa using List.find?_some hfind
  | none => exact (and_iff_right fun q hq => by simpa using List.find?_eq_none.1 hfind q hq).symm

theorem pairFrom_cons_eq_error {made : List MarkerPair} {n : Node} {rest : List Node}
    {cause : MalformedGraph} (h : n.isOpen = true)
    (he : t.pairFrom made (n :: rest) = .error cause) :
    t.pairOf n = .error cause ∨ ∃ p, t.pairOf n = .ok p ∧
      ((∃ q ∈ made, q.close.id = p.close.id ∧
          cause = .sharedClose p.close.id q.opener.id n.id) ∨
        t.pairFrom (made ++ [p]) rest = .error cause) := by
  rw [pairFrom_open h, bind_eq_error] at he
  refine he.imp_right fun ⟨p, hp, he⟩ => ⟨p, hp, ?_⟩
  split at he
  · rename_i q hq
    cases he
    exact .inl ⟨q, List.mem_of_find?_eq_some hq, by simpa using List.find?_some hq, rfl⟩
  · exact .inr he

/-- Going through the nodes adds the pairs of the open ones among them, in order, as long as no
close marker is taken twice. -/
theorem pairFrom_eq_ok_iff {nodes : List Node} {made result : List MarkerPair} :
    t.pairFrom made nodes = .ok result ↔ ∃ ps, (nodes.filter Node.isOpen).mapM t.pairOf = .ok ps ∧
      result = made ++ ps ∧ (ps.map (·.close.id)).Nodup ∧
      ∀ p ∈ ps, ∀ q ∈ made, q.close.id ≠ p.close.id := by
  induction nodes generalizing made with
  | nil =>
    simp only [pairFrom, List.filter_nil, List.mapM_nil, pure_eq_ok, Except.ok.injEq]
    constructor
    · rintro rfl
      exact ⟨[], rfl, (List.append_nil _).symm, List.nodup_nil, List.forall_mem_nil _⟩
    · rintro ⟨-, rfl, rfl, -⟩
      exact (List.append_nil _).symm
  | cons n rest ih =>
    cases ho : n.isOpen with
    | false => rw [pairFrom_skip ho, ih, List.filter_cons_of_neg (by rw [ho]; decide)]
    | true =>
      rw [pairFrom_cons_eq_ok_iff ho, List.filter_cons_of_pos ho]
      simp only [List.mapM_cons, bind_eq_ok, pure_eq_ok, ih]
      constructor
      · rintro ⟨p, hp, hfree, ps, hps, rfl, hnd, hnew⟩
        refine ⟨p :: ps, ⟨p, hp, ps, hps, rfl⟩, by simp, ?_, ?_⟩
        · refine List.nodup_cons.2 ⟨fun hm => ?_, hnd⟩
          obtain ⟨q, hq, he⟩ := List.mem_map.1 hm
          exact hnew q hq p (by simp) he.symm
        · exact List.forall_mem_cons.2
            ⟨hfree, fun q hq q' hq' => hnew q hq q' (List.mem_append_left _ hq')⟩
      · rintro ⟨-, ⟨p, hp, ps, hps, rfl⟩, rfl, hnd, hnew⟩
        obtain ⟨hp', hnd⟩ := List.nodup_cons.1 hnd
        obtain ⟨hfree, hnew⟩ := List.forall_mem_cons.1 hnew
        refine ⟨p, hp, hfree, ps, hps, by simp, hnd, fun q hq q' hq' => ?_⟩
        rcases List.mem_append.1 hq' with hq' | hq'
        · exact hnew q hq q' hq'
        · rw [List.mem_singleton.1 hq']
          intro he
          exact hp' (List.mem_map.2 ⟨q, hq, he.symm⟩)

/-- Pairing succeeds if every open marker makes a pair, no two of them with one close marker, and no
close marker is left over. -/
theorem pairs_eq_ok_iff {ps : List MarkerPair} :
    t.pairs = .ok ps ↔ (t.rung.nodes.filter Node.isOpen).mapM t.pairOf = .ok ps ∧
      (ps.map (·.close.id)).Nodup ∧
      ∀ k ∈ t.rung.nodes, k.isClose = true → k.id ∈ ps.map (·.close.id) := by
  have hleft : t.rung.nodes.find? (fun n => n.isClose && !ps.any (·.close.id == n.id)) = none ↔
      ∀ k ∈ t.rung.nodes, k.isClose = true → k.id ∈ ps.map (·.close.id) := by
    rw [List.find?_eq_none]
    refine forall₂_congr fun k _ => ?_
    cases k.isClose <;> simp
  rw [pairs, bind_eq_ok, ← hleft]
  simp only [pairFrom_eq_ok_iff, List.nil_append]
  constructor
  · rintro ⟨made, ⟨ps', hps, rfl, hnd, -⟩, h⟩
    split at h
    · cases h
    · rename_i hfind
      obtain rfl := pure_eq_ok.1 h
      exact ⟨hps, hnd, hfind⟩
  · rintro ⟨hps, hnd, hfind⟩
    refine ⟨ps, ⟨ps, hps, rfl, hnd, fun _ _ _ hq => (List.not_mem_nil hq).elim⟩, ?_⟩
    rw [hfind]
    rfl

end Topology

end LadderDiagram
