import LadderDiagram.Proofs.Chain
import LadderDiagram.Proofs.Pairs
import Mathlib.Data.List.Dedup
import Mathlib.Data.List.Perm.Subperm
import Mathlib.Logic.Relation

/-!
# Walks that end

The walk along a branch and the resolver take every id that they meet out of the ids they may still
meet, and so they end. Here both are set beside the same walks without such a list, which only keep
what they have met: `Topology.branchRounds` goes along a branch round by round, and
`Topology.Call.runWithin` makes the calls of the resolver, one inside the other. Nothing but a count
stops them, and `walks_end` says how far the count has to go, whatever cycles the rung has.
-/

namespace LadderDiagram

open LadderDiagram.Topology (ofRung)

namespace Rung

def distinctIds (r : Rung) : List String := (r.nodes.map (·.id)).dedup

def markerIds (r : Rung) : List String := ((r.nodes.filter (·.kind.isParallel)).map (·.id)).dedup

theorem mem_markerIds {r : Rung} {n : Node} (hn : n ∈ r.nodes) (hp : n.kind.isParallel = true) :
    n.id ∈ r.markerIds :=
  List.mem_dedup.2 (List.mem_map_of_mem (List.mem_filter.2 ⟨hn, hp⟩))

end Rung

namespace Topology

/-! ### Ids that have not been met -/

def unmet (ids met : List String) : List String := ids.filter (· ∉ met)

theorem unmet_nil (ids : List String) : unmet ids [] = ids := by
  simp [unmet]

theorem mem_unmet {ids met : List String} {id : String} :
    id ∈ unmet ids met ↔ id ∈ ids ∧ id ∉ met := by
  simp [unmet]

theorem without_unmet (ids met : List String) (id : String) :
    without (unmet ids met) id = unmet ids (met ++ [id]) := by
  rw [without, unmet, unmet, List.filter_filter]
  apply List.filter_congr
  intro a _
  simp [and_comm]

theorem length_unmet_lt {ids met : List String} {id : String} (hid : id ∈ ids) (hm : id ∉ met) :
    (unmet ids (met ++ [id])).length < (unmet ids met).length := by
  rw [← without_unmet]
  exact length_without_lt (mem_unmet.2 ⟨hid, hm⟩)

/-! ### Along a branch -/

/-- The walk along a branch before a round: the ids that it has met, and the wires on which it could
go on. -/
structure Stage where
  visited : List String
  next : List Wire

/-- One round of the walk: it goes on, or it ends with a close marker or a failure. -/
def branchRound (t : Topology) (opener : Node) (s : Stage) : Stage ⊕ Except MalformedGraph Node :=
  match s.next with
  | [w] =>
    if w.target.id ∈ s.visited then .inr (.error (.markerCycle opener.id))
    else if w.endsBranch then .inr (.ok w.target)
    else
      match w.target.output with
      | some out => .inl ⟨s.visited ++ [w.target.id], t.forward w.target out.id⟩
      | none => .inr (.error (.unclosedOpen opener.id))
  | _ => .inr (.error (.unclosedOpen opener.id))

/-- Goes on until the walk ends, for at most the given number of rounds. -/
def branchRounds (t : Topology) (opener : Node) : Nat → Stage → Option (Except MalformedGraph Node)
  | 0, _ => none
  | rounds + 1, s =>
    match t.branchRound opener s with
    | .inl s' => t.branchRounds opener rounds s'
    | .inr result => some result

theorem branchRound_eq_inl {t : Topology} {opener : Node} {s s' : Stage}
    (h : t.branchRound opener s = .inl s') : ∃ (w : Wire) (out : Connector), s.next = [w] ∧
      w.target.id ∉ s.visited ∧ s' = ⟨s.visited ++ [w.target.id], t.forward w.target out.id⟩ := by
  unfold branchRound at h
  split at h
  · rename_i w hw
    split at h
    · cases h
    rename_i hv
    split at h
    · cases h
    split at h
    · rename_i out _
      cases h
      exact ⟨w, out, hw, hv, rfl⟩
    · cases h
  · cases h

/-- The walk with a list of the ids that it may still meet does in each round what the walk without
one does. -/
theorem branchEnd_eq_round {t : Topology} {opener : Node} {s : Stage}
    (hs : ∀ w ∈ s.next, w.target.id ∈ t.ids) :
    t.branchEnd opener (unmet t.ids s.visited) s.next =
      match t.branchRound opener s with
      | .inl s' => t.branchEnd opener (unmet t.ids s'.visited) s'.next
      | .inr result => result := by
  obtain ⟨visited, next⟩ := s
  rcases next with _ | ⟨w, _ | ⟨w', rest⟩⟩
  · rw [branchEnd_of_ne_singleton (by simp), branchRound]
  · have hid : w.target.id ∈ t.ids := hs w (List.mem_singleton_self w)
    rw [branchEnd_singleton, branchRound]
    by_cases hv : w.target.id ∈ visited
    · simp [hv, mem_unmet]
    · simp only [mem_unmet, hid, hv, not_false_eq_true, and_self, ↓reduceIte, without_unmet]
      cases w.endsBranch with
      | true => rfl
      | false => cases w.target.output <;> rfl
  · rw [branchEnd_of_ne_singleton (by simp), branchRound]

theorem target_mem_of_forward {r : Rung} {n : Node} {handle : String} {w : Wire}
    (h : w ∈ (ofRung r).forward n handle) : w.target ∈ r.nodes :=
  Rung.mem_of_node? (mem_outgoing.1 (List.mem_filter.1 h).1).1.target

/-- With a round for each id that has not been met, and one more, the walk ends. -/
theorem branchRounds_eq {r : Rung} {opener : Node} {s : Stage} {rounds : Nat}
    (hs : ∀ w ∈ s.next, w.target ∈ r.nodes)
    (h : (unmet r.distinctIds s.visited).length < rounds) :
    (ofRung r).branchRounds opener rounds s =
      some ((ofRung r).branchEnd opener (unmet (ofRung r).ids s.visited) s.next) := by
  induction rounds generalizing s with
  | zero => exact (Nat.not_lt_zero _ h).elim
  | succ rounds ih =>
    rw [branchRounds, branchEnd_eq_round fun w hw => List.mem_map_of_mem (hs w hw)]
    cases hround : (ofRung r).branchRound opener s with
    | inr result => rfl
    | inl s' =>
      obtain ⟨w, out, hw, hv, rfl⟩ := branchRound_eq_inl hround
      have hid : w.target.id ∈ r.distinctIds :=
        List.mem_dedup.2 (List.mem_map_of_mem (hs w (hw ▸ List.mem_singleton_self w)))
      exact ih (fun _ => target_mem_of_forward)
        (Nat.lt_of_lt_of_le (length_unmet_lt hid hv) (Nat.lt_succ_iff.1 h))

theorem isClose_of_branchEnd {t : Topology} {opener close : Node} {fresh : List String}
    {next : List Wire} (h : t.branchEnd opener fresh next = .ok close) : close.isClose = true := by
  induction fresh, next using branchEnd.induct t with
  | case1 fresh w hf he =>
    rw [branchEnd_ends hf he] at h
    cases h
    unfold Wire.endsBranch at he
    split at he
    · rename_i hk
      rw [Node.isClose, hk]
    · cases he
  | case2 fresh w hf he out ho ih =>
    rw [branchEnd_passes hf (Bool.eq_false_iff.2 he) ho] at h
    exact ih h
  | case3 fresh w hf he ho =>
    rw [branchEnd_without_output hf (Bool.eq_false_iff.2 he) ho] at h
    cases h
  | case4 fresh w hf =>
    rw [branchEnd_met hf] at h
    cases h
  | case5 fresh next hne =>
    rw [branchEnd_of_ne_singleton hne] at h
    cases h

/-! ### Behind a marker -/

/-- A call of the resolver: the ids of the markers that the calls around it are for, the connector
through which the node is left, if it is known, and the node. -/
structure Call where
  trail : List String
  leaving : Option String
  node : Node
  deriving DecidableEq

namespace Call

def start (leaving : Option String) (n : Node) : Call := ⟨[], leaving, n⟩

/-- The call for what feeds a wire into the marker. -/
def behind (c : Call) (w : Wire) : Call :=
  ⟨c.trail ++ [c.node.id], some w.edge.sourceHandle, w.source⟩

/-- The calls that a call makes, unless it fails at once. -/
def inner (t : Topology) (c : Call) : Except MalformedGraph (List Call) :=
  match c.node.kind with
  | .parallelOpen _ =>
    if c.node.id ∈ c.trail then .error (.markerCycle c.node.id)
    else
      match t.incoming c.node with
      | [w] => .ok [c.behind w]
      | wires => .error (.markerCardinality c.node.id .serial wires.length)
  | .parallelClose branch =>
    if c.node.id ∈ c.trail then .error (.markerCycle c.node.id)
    else
      let (parallel, serial) := (t.incoming c.node).partition (·.edge.targetHandle == branch.id)
      match serial, parallel with
      | [s], [p] => .ok [c.behind s, c.behind p]
      | [_], parallel => .error (.markerCardinality c.node.id .parallel parallel.length)
      | serial, _ => .error (.markerCardinality c.node.id .serial serial.length)
  | _ => .ok []

/-- What a call makes of the answers to the calls that it made. -/
def conclude (c : Call) (answers : List Resolution) : Resolution :=
  match c.node.kind, answers with
  | .parallelOpen branch, [feed] => .behindOpen c.node branch (c.leaving == some branch.id) feed
  | .parallelClose branch, [serial, parallel] => .behindClose c.node branch serial parallel
  | _, _ => .direct c.node

/-- Carries out a call, with the calls that it makes one after the other until one fails. There is
no answer if more than the given number of calls are one inside the other. -/
def runWithin (t : Topology) : Nat → Call → ExceptT MalformedGraph Option Resolution
  | 0, _ => .mk none
  | depth + 1, c => do
    let calls ← ExceptT.mk (some (c.inner t))
    let answers ← calls.mapM (runWithin t depth)
    return c.conclude answers

/-- The answer of the resolver, which may still meet what is not on the trail. -/
def answer (t : Topology) (c : Call) : Except MalformedGraph Resolution :=
  t.resolveFrom (unmet t.ids c.trail) c.leaving c.node

theorem answer_start (t : Topology) (leaving : Option String) (n : Node) :
    (start leaving n).answer t = t.resolveFrom t.ids leaving n := by
  rw [answer, start, unmet_nil]

/-- The second call is made inside the first, maybe with others between them. -/
def Makes (t : Topology) : Call → Call → Prop :=
  Relation.ReflTransGen fun c c' => ∃ calls, c.inner t = .ok calls ∧ c' ∈ calls

/-- A call is made for a wire into a marker that is not on the trail. -/
theorem of_inner {t : Topology} {c c' : Call} {calls : List Call} (h : c.inner t = .ok calls)
    (hc : c' ∈ calls) : c.node.kind.isParallel = true ∧ c.node.id ∉ c.trail ∧
      ∃ w ∈ t.incoming c.node, c' = c.behind w := by
  unfold inner at h
  split at h
  · rename_i hk
    split at h
    · cases h
    rename_i hm
    split at h
    · rename_i w hw
      cases h
      exact ⟨by rw [hk]; rfl, hm, w, hw ▸ List.mem_singleton_self w, List.mem_singleton.1 hc⟩
    · cases h
  · rename_i branch hk
    split at h
    · cases h
    rename_i hm
    split at h
    rename_i parallel serial hpart
    split at h
    · rename_i s p
      cases h
      refine ⟨by rw [hk]; rfl, hm, ?_⟩
      have hmem (w : Wire) : w ∈ t.incoming c.node ↔ w = p ∨ w = s := by
        rw [List.mem_partition (p := (·.edge.targetHandle == branch.id)), hpart,
          List.mem_singleton, List.mem_singleton]
      rcases List.mem_cons.1 hc with rfl | hc
      · exact ⟨s, (hmem s).2 (.inr rfl), rfl⟩
      · exact ⟨p, (hmem p).2 (.inl rfl), List.mem_singleton.1 hc⟩
    · cases h
    · cases h
  · cases h
    cases hc

theorem mapM_of_answers {ε α β : Type} {f : α → Except ε β} {g : α → ExceptT ε Option β}
    {as : List α} (h : ∀ a ∈ as, g a = .mk (some (f a))) :
    as.mapM g = .mk (some (as.mapM f)) := by
  induction as with
  | nil => rfl
  | cons a as ih =>
    rw [List.mapM_cons, List.mapM_cons, h a List.mem_cons_self,
      ih fun b hb => h b (List.mem_cons_of_mem _ hb)]
    cases f a with
    | error e => rfl
    | ok b => cases as.mapM f <;> rfl

/-- A call fails at once, or makes its inner calls and concludes from what they give. -/
def answerFrom (t : Topology) (c : Call) (answers : Call → Except MalformedGraph Resolution) :
    Except MalformedGraph Resolution := do
  let calls ← c.inner t
  return c.conclude (← calls.mapM answers)

section
variable {t : Topology} {c : Call} {answers : Call → Except MalformedGraph Resolution}

theorem answerFrom_error {cause : MalformedGraph} (h : c.inner t = .error cause) :
    c.answerFrom t answers = .error cause := by
  rw [answerFrom, h]
  rfl

theorem answerFrom_nil (h : c.inner t = .ok []) :
    c.answerFrom t answers = .ok (c.conclude []) := by
  rw [answerFrom, h]
  rfl

theorem answerFrom_one {feed : Call} (h : c.inner t = .ok [feed]) :
    c.answerFrom t answers = do return c.conclude [← answers feed] := by
  rw [answerFrom, h]
  show List.mapM answers [feed] >>= _ = _
  rw [List.mapM_cons, List.mapM_nil]
  cases answers feed <;> rfl

theorem answerFrom_two {serial parallel : Call} (h : c.inner t = .ok [serial, parallel]) :
    c.answerFrom t answers = do return c.conclude [← answers serial, ← answers parallel] := by
  rw [answerFrom, h]
  show List.mapM answers [serial, parallel] >>= _ = _
  rw [List.mapM_cons, List.mapM_cons, List.mapM_nil]
  cases answers serial with
  | error cause => rfl
  | ok feed => cases answers parallel <;> rfl

end

/-- The resolver answers a call from its answers to the calls that this makes. -/
theorem answer_eq {t : Topology} {c : Call} (h : c.node.id ∈ t.ids) :
    c.answer t = c.answerFrom t (answer t) := by
  have hfresh : c.node.id ∈ unmet t.ids c.trail ↔ c.node.id ∉ c.trail :=
    mem_unmet.trans (and_iff_right h)
  have hbehind (w : Wire) : t.resolveFrom (without (unmet t.ids c.trail) c.node.id)
      (some w.edge.sourceHandle) w.source = (c.behind w).answer t := by
    rw [without_unmet]
    rfl
  rw [answer]
  fun_cases resolveFrom t (unmet t.ids c.trail) c.leaving c.node with
  | case1 branch hk hm w hw =>
    have hcalls : c.inner t = .ok [c.behind w] := by simp [inner, hk, hfresh.1 hm, hw]
    simp [answerFrom_one hcalls, hbehind, conclude, hk]
  | case4 branch hk hm s p hpart =>
    have hcalls : c.inner t = .ok [c.behind s, c.behind p] := by
      simp only [inner, hk, hfresh.1 hm, ↓reduceIte, hpart]
    simp [answerFrom_two hcalls, hbehind, conclude, hk]
  | case8 ho hc =>
    have hcalls : c.inner t = .ok [] := by
      unfold inner
      split
      · exact (ho _ ‹_›).elim
      · exact (hc _ ‹_›).elim
      · rfl
    have hdirect : c.conclude [] = .direct c.node := by
      unfold conclude
      split
      · exact (ho _ ‹_›).elim
      · exact (hc _ ‹_›).elim
      · rfl
    rw [answerFrom_nil hcalls, hdirect]
  | case2 branch hk hm hw =>
    refine (answerFrom_error ?_).symm
    simp [inner, hk, hfresh.1 hm]
  | case3 branch hk hm | case7 branch hk hm =>
    refine (answerFrom_error ?_).symm
    simp only [inner, hk, not_not.1 (mt hfresh.2 hm), ↓reduceIte]
  | case5 branch hk hm w parallel hw hpart =>
    refine (answerFrom_error ?_).symm
    simp only [inner, hk, hfresh.1 hm, ↓reduceIte, hpart]
  | case6 branch hk hm parallel serial hw hs hpart =>
    refine (answerFrom_error ?_).symm
    simp only [inner, hk, hfresh.1 hm, ↓reduceIte, hpart]

theorem runWithin_succ {t : Topology} {c : Call} {depth : Nat}
    {answers : Call → Except MalformedGraph Resolution}
    (h : ∀ calls, c.inner t = .ok calls →
      ∀ c' ∈ calls, c'.runWithin t depth = .mk (some (answers c'))) :
    c.runWithin t (depth + 1) = .mk (some (c.answerFrom t answers)) := by
  rw [runWithin]
  cases hcalls : c.inner t with
  | error cause =>
    rw [answerFrom_error hcalls]
    rfl
  | ok calls =>
    show (calls.mapM (runWithin t depth) >>= fun as => pure (c.conclude as)) = _
    rw [mapM_of_answers (h calls hcalls), answerFrom, hcalls]
    show _ = ExceptT.mk (some (calls.mapM answers >>= fun as => pure (c.conclude as)))
    cases calls.mapM answers <;> rfl

theorem node_mem_of_inner {r : Rung} {c c' : Call} {calls : List Call}
    (h : c.inner (ofRung r) = .ok calls) (hc : c' ∈ calls) : c'.node ∈ r.nodes := by
  obtain ⟨-, -, w, hw, rfl⟩ := of_inner h hc
  exact Rung.mem_of_node? (mem_incoming.1 hw).1.source

/-- With a call for each marker id that is not on the trail, and one more, the resolver answers. -/
theorem runWithin_eq {r : Rung} {c : Call} {depth : Nat} (hc : c.node ∈ r.nodes)
    (h : (unmet r.markerIds c.trail).length < depth) :
    c.runWithin (ofRung r) depth = .mk (some (c.answer (ofRung r))) := by
  induction depth generalizing c with
  | zero => exact (Nat.not_lt_zero _ h).elim
  | succ depth ih =>
    rw [answer_eq (List.mem_map_of_mem hc)]
    apply runWithin_succ
    intro calls hcalls c' hc'
    refine ih (node_mem_of_inner hcalls hc') ?_
    obtain ⟨hp, hm, w, -, rfl⟩ := of_inner hcalls hc'
    exact Nat.lt_of_lt_of_le (length_unmet_lt (Rung.mem_markerIds hc hp) hm) (Nat.lt_succ_iff.1 h)

/-- No marker is twice on the trail of a call, and all of them but the first are markers of the
rung. -/
theorem trail_of_makes {r : Rung} {leaving : Option String} {n : Node} {c : Call}
    (h : (start leaving n).Makes (ofRung r) c) :
    c.trail.Nodup ∧ c.trail ⊆ n.id :: r.markerIds ∧ (c = start leaving n ∨ c.node ∈ r.nodes) := by
  induction h with
  | refl => exact ⟨List.nodup_nil, List.nil_subset _, .inl rfl⟩
  | @tail c c' _ hstep ih =>
    obtain ⟨hnodup, hsub, hnode⟩ := ih
    obtain ⟨calls, hcalls, hc'⟩ := hstep
    have hmem := node_mem_of_inner hcalls hc'
    obtain ⟨hp, hm, w, -, rfl⟩ := of_inner hcalls hc'
    have hpushed : (c.trail ++ [c.node.id]).Nodup := by
      rw [← List.concat_eq_append]
      exact hnodup.concat hm
    have hid : c.node.id ∈ n.id :: r.markerIds := by
      rcases hnode with rfl | hnode
      · exact List.mem_cons_self
      · exact List.mem_cons_of_mem _ (Rung.mem_markerIds hnode hp)
    refine ⟨hpushed, List.append_subset.2 ⟨hsub, ?_⟩, .inr hmem⟩
    rw [List.cons_subset]
    exact ⟨hid, List.nil_subset _⟩

theorem length_trail_of_makes {r : Rung} {leaving : Option String} {n : Node} {c : Call}
    (h : (start leaving n).Makes (ofRung r) c) : c.trail.length ≤ r.markerIds.length + 1 := by
  obtain ⟨hnodup, hsub, -⟩ := trail_of_makes h
  exact (hnodup.subperm hsub).length_le

end Call

/-- **Both walks end on every rung.** The walk along a branch is at its end after a round for each
node id and one more, and finds a close marker or fails. The resolver, called for any node, never
has a marker twice on its trail and is done with no more than two calls inside one another beyond
one for each marker id; for a node of the rung it then has the resolution of the node, or of an edge
from it. -/
theorem walks_end (r : Rung) :
    (∀ opener handle,
      let next := (ofRung r).forward opener handle
      let result := (ofRung r).branchEnd opener (ofRung r).ids next
      (∀ rounds, r.distinctIds.length + 1 ≤ rounds →
        (ofRung r).branchRounds opener rounds ⟨[], next⟩ = some result) ∧
      ∀ close, result = .ok close → close.isClose = true) ∧
    ∀ leaving n,
      (∀ c, (Call.start leaving n).Makes (ofRung r) c →
        c.trail.Nodup ∧ c.trail.length ≤ r.markerIds.length + 1) ∧
      ∃ result,
        (∀ depth, r.markerIds.length + 2 ≤ depth →
          ((Call.start leaving n).runWithin (ofRung r) depth).run = some result) ∧
        (n ∈ r.nodes → (leaving = none → result = (ofRung r).resolve n) ∧
          ∀ e : Edge, leaving = some e.sourceHandle → result = (ofRung r).trace e n) := by
  refine ⟨fun opener handle => ⟨fun rounds hrounds => ?_, fun close => isClose_of_branchEnd⟩,
    fun leaving n => ⟨fun c hc => ⟨(Call.trail_of_makes hc).1, Call.length_trail_of_makes hc⟩, ?_⟩⟩
  · rw [branchRounds_eq fun _ => target_mem_of_forward, unmet_nil]
    rwa [unmet_nil]
  · refine ⟨(Call.start leaving n).answerFrom (ofRung r) (Call.answer (ofRung r)), ?_, fun hn => ?_⟩
    · intro depth hdepth
      cases depth with
      | zero => omega
      | succ depth =>
        rw [Call.runWithin_succ fun calls hcalls c hc =>
          Call.runWithin_eq (Call.node_mem_of_inner hcalls hc)
            (Nat.lt_of_le_of_lt (List.length_filter_le _ _) (by omega))]
        rfl
    · rw [← Call.answer_eq (List.mem_map_of_mem hn), Call.answer_start]
      constructor
      · rintro rfl
        rfl
      · rintro e rfl
        rfl

/-- An open marker that its close marker feeds. The branch of the open one runs into a circle, and
the branch into the close one comes from somewhere else. -/
def tangledGroup : Rung where
  nodes := [
    { id := "open", numericId := 1, kind := .parallelOpen { id := "down" } },
    { id := "a", numericId := 2, kind := .contact "a" .normal, output := some { id := "out" } },
    { id := "b", numericId := 3, kind := .contact "b" .normal, output := some { id := "out" } },
    { id := "c", numericId := 4, kind := .contact "c" .normal, output := some { id := "out" } },
    { id := "close", numericId := 5, kind := .parallelClose { id := "up" } }]
  edges := [
    ⟨"open", "down", "a", "in"⟩, ⟨"a", "out", "b", "in"⟩, ⟨"b", "out", "a", "in"⟩,
    ⟨"c", "out", "close", "up"⟩, ⟨"open", "out", "close", "in"⟩, ⟨"close", "out", "open", "in"⟩]

theorem tangledGroup_walks_end :
    let t := ofRung tangledGroup
    let opener := tangledGroup.nodes[0]
    let contact := tangledGroup.nodes[3]
    let close := tangledGroup.nodes[4]
    let back : Edge := ⟨"close", "out", "open", "in"⟩
    let again : Call := ⟨["close", "open"], some "out", close⟩
    t.branchRounds opener 6 ⟨[], t.forward opener "down"⟩ = some (.error (.markerCycle "open")) ∧
      t.branchEnd contact t.ids (t.forward contact "out") = .ok close ∧ close.isClose = true ∧
      (Call.start none close).Makes t again ∧ again.trail.Nodup ∧ again.trail.length ≤ 3 ∧
      ((Call.start none close).runWithin t 4).run = some (.error (.markerCycle "close")) ∧
      t.resolve close = .error (.markerCycle "close") ∧
      ((Call.start (some "out") close).runWithin t 4).run = some (t.trace back close) := by
  intro t opener contact close back again
  obtain ⟨hbranch, hbehind⟩ := walks_end tangledGroup
  obtain ⟨hrounds, -⟩ := hbranch opener "down"
  obtain ⟨-, hclose⟩ := hbranch contact "out"
  obtain ⟨htrail, _, hdepth, hresult⟩ := hbehind none close
  obtain ⟨-, _, hdepth', hresult'⟩ := hbehind (some "out") close
  have hmem : close ∈ tangledGroup.nodes := List.getElem_mem _
  have hcircle : t.branchEnd opener t.ids (t.forward opener "down") =
      .error (.markerCycle "open") := by decide +kernel
  have hend : t.branchEnd contact t.ids (t.forward contact "out") = .ok close := by decide +kernel
  have hcycle : t.resolve close = .error (.markerCycle "close") := by decide +kernel
  have hfirst : (Call.start none close).inner t =
      .ok [⟨["close"], some "out", opener⟩, ⟨["close"], some "out", contact⟩] := by decide +kernel
  have hsecond : (Call.mk ["close"] (some "out") opener).inner t = .ok [again] := by
    decide +kernel
  have hmakes : (Call.start none close).Makes t again :=
    .tail (.tail .refl ⟨_, hfirst, List.mem_cons_self⟩) ⟨_, hsecond, List.mem_cons_self⟩
  refine ⟨?_, hend, hclose close hend, hmakes, (htrail again hmakes).1, (htrail again hmakes).2,
    ?_, hcycle, ?_⟩
  · rw [hrounds 6 (by decide +kernel), ← hcircle]
  · rw [hdepth 4 (by decide +kernel), (hresult hmem).1 rfl, hcycle]
  · rw [hdepth' 4 (by decide +kernel), (hresult' hmem).2 back rfl]

end Topology

end LadderDiagram
