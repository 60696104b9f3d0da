import LadderDiagram.Proofs.Branch

/-!
# What a failure tells of

A failure names a marker of the rung that it tells of, and a cause. `Rung.Suffers` says, read off
the drawing, what is wrong with that marker, for each cause: how many edges enter it, or where the
walk along its branch comes to. A marker is said to be on a cycle for two reasons, since branches
are walked forward and sources are looked for backward.

`failures_tell_true` says that the rung is as its failure tells. The walk along a branch is followed
by `Rung.Underway`; behind a marker, what has been met on the way leads on to where the resolver is
(`Topology.Trail`).
-/

namespace LadderDiagram

open LadderDiagram.Topology (ofRung without mem_without mem_incoming filter_entering_of_partition
  leads_of_mem_incoming)

namespace Rung

/-- The edges that enter a marker on one of its sides: all of them are serial at an open marker; at
a close marker those that land on its branch connector are not. -/
def enteringOn (r : Rung) (n : Node) : MarkerSide → Option (List Edge)
  | .serial =>
    match n.kind with
    | .parallelOpen _ => some (r.entering n)
    | .parallelClose branch => some ((r.entering n).filter (·.targetHandle != branch.id))
    | _ => none
  | .parallel =>
    match n.kind with
    | .parallelClose branch => some ((r.entering n).filter (·.targetHandle == branch.id))
    | _ => none

/-- The walk along the branch of `opener` has passed the nodes `path`, the last of them `k`, and is
to leave `k` through the connector `handle`. -/
inductive Underway (r : Rung) (opener : Node) : List Node → Node → String → Prop where
  | start {branch : Connector} :
      opener.kind = .parallelOpen branch → Underway r opener [] opener branch.id
  | passes {path : List Node} {k m : Node} {handle : String} {e : Edge} {out : Connector} :
      Underway r opener path k handle → r.GoesOn k handle e m → ¬ Rejoins e m →
      m.output = some out → Underway r opener (path ++ [m]) m out.id

/-- The walk along the branch of the open marker comes to where not exactly one edge goes on, or to
a node without an output connector. -/
def Stuck (r : Rung) (opener : Node) : Prop :=
  ∃ path k handle, r.Underway opener path k handle ∧
    ((r.onward k handle).length ≠ 1 ∨
      ∃ e m, r.GoesOn k handle e m ∧ ¬ Rejoins e m ∧ m.output = none)

/-- The walk along the branch of the open marker comes back to a node that it has passed. -/
def Returns (r : Rung) (opener : Node) : Prop :=
  ∃ path k handle e m, r.Underway opener path k handle ∧ r.GoesOn k handle e m ∧ m ∈ path

/-- The drawing of the rung has the defect that a cause tells of. -/
def Suffers (r : Rung) : MalformedGraph → Prop
  | .markerCardinality marker side found => found ≠ 1 ∧
      ∃ n ∈ r.nodes, n.id = marker ∧ (r.enteringOn n side).map List.length = some found
  | .unclosedOpen opener => ∃ o ∈ r.nodes, o.id = opener ∧ r.Stuck o
  | .sharedClose close first second => first ≠ second ∧
      ∃ k o o', k.id = close ∧ o.id = first ∧ o'.id = second ∧ [o, o'].Sublist r.nodes ∧
        r.GoodWalk o k ∧ r.GoodWalk o' k
  | .unmatchedClose close => ∃ k ∈ r.nodes, k.id = close ∧ k.isClose = true ∧
      ∀ o ∈ r.nodes, ¬ r.BranchReaches o k
  | .markerCycle marker => ∃ n ∈ r.nodes, n.id = marker ∧
      (r.Returns n ∨ n.kind.isParallel = true ∧ r.OnCycle n)

section
variable {r : Rung} {n : Node} {branch : Connector}

theorem enteringOn_opener (hk : n.kind = .parallelOpen branch) :
    r.enteringOn n .serial = some (r.entering n) := by rw [enteringOn, hk]

theorem enteringOn_close_serial (hk : n.kind = .parallelClose branch) : r.enteringOn n .serial =
    some ((r.entering n).filter (·.targetHandle != branch.id)) := by rw [enteringOn, hk]

theorem enteringOn_close_parallel (hk : n.kind = .parallelClose branch) :
    r.enteringOn n .parallel = some ((r.entering n).filter (·.targetHandle == branch.id)) := by
  rw [enteringOn, hk]

end

end Rung

namespace Topology

variable {r : Rung} {cause : MalformedGraph}

/-! ### Behind a marker -/

/-- The markers that have been met, whose ids are no longer `fresh`, are those that `n` leads on to
by way of markers. -/
def Trail (r : Rung) (fresh : List String) (n : Node) : Prop :=
  ∀ k, r.node? k.id = some k → k.id ∉ fresh → k.kind.isParallel = true ∧ ∃ e l, r.Chain n e l k

theorem trail_ids (n : Node) : Trail r (ofRung r).ids n := fun _ hk hf =>
  (hf (List.mem_map_of_mem (Rung.mem_of_node? hk))).elim

theorem Trail.step {fresh : List String} {m n : Node} {l : Edge} (h : Trail r fresh n)
    (hn : n.kind.isParallel = true) (hl : r.Leads m l n) : Trail r (without fresh n.id) m := by
  intro k hk hf
  by_cases he : k.id = n.id
  · obtain rfl : k = n := by
      have hsome := hl.node?_target
      rw [← he, hk] at hsome
      exact Option.some.inj hsome
    exact ⟨hn, l, l, .edge hl⟩
  · obtain ⟨hp, e, f, hc⟩ := h k hk fun hm => hf (mem_without.2 ⟨hm, he⟩)
    exact ⟨hp, l, f, hc.cons hl hn⟩

theorem suffers_of_wires {n : Node} {side : MarkerSide} {ws : List Wire}
    (hn : r.node? n.id = some n) (hside : r.enteringOn n side = some (ws.map (·.edge)))
    (hws : ∀ w, ws ≠ [w]) : r.Suffers (.markerCardinality n.id side ws.length) := by
  refine ⟨fun hone => ?_, n, Rung.mem_of_node? hn, rfl, ?_⟩
  · obtain ⟨w, hw⟩ := List.length_eq_one_iff.1 hone
    exact hws w hw
  · rw [hside, Option.map_some, List.length_map]

/-- If the resolver fails on the way back from a node, it tells of a defect. -/
theorem suffers_of_resolveFrom {fresh : List String} {leaving : Option String} {n : Node}
    (hn : r.node? n.id = some n) (ht : Trail r fresh n)
    (h : (ofRung r).resolveFrom fresh leaving n = .error cause) : r.Suffers cause := by
  induction fresh, leaving, n using resolveFrom.induct (ofRung r) with
  | case1 fresh leaving n branch hk hf w hw ih =>
    rw [resolveFrom_opener hk hf hw, bind_pure_eq_error] at h
    have hl := leads_of_mem_incoming hn (hw ▸ List.mem_singleton_self w)
    exact ih hl.node?_source (ht.step (by rw [hk]; rfl) hl) h
  | case2 fresh leaving n branch hk hf hw =>
    rw [resolveFrom_opener_wires hk hf hw] at h
    cases h
    refine suffers_of_wires hn ?_ hw
    rw [Rung.enteringOn_opener hk, map_edge_incoming]
  | case4 fresh leaving n branch hk hf s p hpart ihs ihp =>
    have hp : n.kind.isParallel = true := by rw [hk]; rfl
    have hleads {w : Wire} (hw : w = s ∨ w = p) : r.Leads w.source w.edge n := by
      apply leads_of_mem_incoming (c := none) hn
      rw [List.mem_partition (p := (·.edge.targetHandle == branch.id)), hpart]
      simpa [or_comm] using hw
    rw [resolveFrom_close hk hf hpart, bind_eq_error] at h
    rcases h with h | ⟨serial, -, h⟩
    · have hl := hleads (.inl rfl)
      exact ihs hl.node?_source (ht.step hp hl) h
    · have hl := hleads (.inr rfl)
      exact ihp hl.node?_source (ht.step hp hl) (bind_pure_eq_error.1 h)
  | case5 fresh leaving n branch hk hf w parallel hw hpart =>
    rw [resolveFrom_close_parallel hk hf hpart hw] at h
    cases h
    obtain ⟨hparallel, -⟩ := filter_entering_of_partition hpart
    refine suffers_of_wires hn ?_ hw
    rw [Rung.enteringOn_close_parallel hk, hparallel]
  | case6 fresh leaving n branch hk hf parallel serial hw _ hpart =>
    rw [resolveFrom_close_serial hk hf hpart hw] at h
    cases h
    obtain ⟨-, hserial⟩ := filter_entering_of_partition hpart
    refine suffers_of_wires hn ?_ hw
    rw [Rung.enteringOn_close_serial hk, hserial]
  | case3 fresh leaving n branch hk hf | case7 fresh leaving n branch hk hf =>
    rw [resolveFrom_met (by rw [hk]; rfl) hf] at h
    cases h
    exact ⟨n, Rung.mem_of_node? hn, rfl, .inr (ht n hn hf)⟩
  | case8 fresh leaving n ho hc =>
    rw [resolveFrom_direct (Node.isParallel_eq_false ho hc)] at h
    cases h

theorem suffers_of_trace {e : Edge} {n : Node} (hn : r.node? n.id = some n)
    (h : (ofRung r).trace e n = .error cause) : r.Suffers cause :=
  suffers_of_resolveFrom hn (trail_ids n) h

/-! ### Along a branch -/

/-- If the walk along a branch fails, it tells of a defect. -/
theorem suffers_of_branchEnd {opener k : Node} {fresh : List String} {path : List Node}
    {handle : String} (ho : opener ∈ r.nodes) (hk : r.node? k.id = some k)
    (hw : r.Underway opener path k handle)
    (hpath : ∀ m, r.node? m.id = some m → m.id ∉ fresh → m ∈ path)
    (h : (ofRung r).branchEnd opener fresh ((ofRung r).forward k handle) = .error cause) :
    r.Suffers cause := by
  generalize hnext : (ofRung r).forward k handle = next at h
  induction fresh, next using branchEnd.induct (ofRung r) generalizing k path handle with
  | case1 fresh w hf he =>
    rw [branchEnd_ends hf he] at h
    cases h
  | case2 fresh w hf he out hout ih =>
    have hg : r.GoesOn k handle w.edge w.target := (goesOn_iff hk).2 ⟨w, hnext, rfl, rfl⟩
    rw [branchEnd_passes hf (Bool.eq_false_iff.2 he) hout] at h
    have hpassed := hw.passes hg (mt endsBranch_iff.2 he) hout
    refine ih hg.node?_target hpassed (fun m hm hnew => ?_) rfl h
    rw [List.mem_append, List.mem_singleton]
    by_cases hid : m.id = w.target.id
    · rw [hid, hg.node?_target] at hm
      exact .inr (Option.some.inj hm).symm
    · exact .inl (hpath m hm fun hmem => hnew (mem_without.2 ⟨hmem, hid⟩))
  | case3 fresh w hf he hout =>
    have hg : r.GoesOn k handle w.edge w.target := (goesOn_iff hk).2 ⟨w, hnext, rfl, rfl⟩
    rw [branchEnd_without_output hf (Bool.eq_false_iff.2 he) hout] at h
    cases h
    exact ⟨opener, ho, rfl, path, k, handle, hw,
      .inr ⟨w.edge, w.target, hg, mt endsBranch_iff.2 he, hout⟩⟩
  | case4 fresh w hf =>
    have hg : r.GoesOn k handle w.edge w.target := (goesOn_iff hk).2 ⟨w, hnext, rfl, rfl⟩
    rw [branchEnd_met hf] at h
    cases h
    exact ⟨opener, ho, rfl, .inl ⟨path, k, handle, w.edge, w.target, hw, hg,
      hpath _ hg.node?_target hf⟩⟩
  | case5 fresh next hne =>
    rw [branchEnd_of_ne_singleton hne] at h
    cases h
    refine ⟨opener, ho, rfl, path, k, handle, hw, .inl fun hone => ?_⟩
    rw [← map_edge_forward hk, List.length_map] at hone
    obtain ⟨w, hone⟩ := List.length_eq_one_iff.1 hone
    exact hne w (hnext.symm.trans hone)

theorem suffers_of_pairOf (hd : (r.nodes.map (·.id)).Nodup) {opener : Node} (ho : opener ∈ r.nodes)
    (hopen : opener.isOpen = true) (h : (ofRung r).pairOf opener = .error cause) :
    r.Suffers cause := by
  obtain ⟨branch, hk⟩ := Node.isOpen_iff.1 hopen
  rw [pairOf, bind_pure_eq_error, Node.branchId, hk] at h
  refine suffers_of_branchEnd ho (Rung.node?_of_mem hd ho) (.start hk) (fun m hm hf => ?_) h
  exact (hf (List.mem_map_of_mem (Rung.mem_of_node? hm))).elim

/-! ### Pairs -/

/-- Going through the nodes ends at an open marker whose branch leads nowhere, or to a close marker
that is taken. -/
theorem suffers_of_pairFrom (hd : (r.nodes.map (·.id)).Nodup) {before rest : List Node}
    {made : List MarkerPair} (hnodes : before ++ rest = r.nodes)
    (hmade : ∀ p ∈ made, p.opener ∈ before ∧ r.GoodWalk p.opener p.close)
    (h : (ofRung r).pairFrom made rest = .error cause) : r.Suffers cause := by
  induction rest generalizing before made with
  | nil => cases h
  | cons n rest ih =>
    have hnodes' : (before ++ [n]) ++ rest = r.nodes := by rw [← hnodes]; simp
    have hearlier : ∀ p ∈ made, p.opener ∈ before ++ [n] ∧ r.GoodWalk p.opener p.close :=
      fun p hp => ⟨List.mem_append_left _ (hmade p hp).1, (hmade p hp).2⟩
    cases hopen : n.isOpen with
    | false =>
      rw [pairFrom_skip hopen] at h
      exact ih hnodes' hearlier h
    | true =>
      have hn : n ∈ r.nodes := by rw [← hnodes]; simp
      rcases pairFrom_cons_eq_error hopen h with h | ⟨p, hp, ⟨q, hq, hid, rfl⟩ | hrest⟩
      · exact suffers_of_pairOf hd hn hopen h
      · obtain ⟨rfl, hgood⟩ := (pairOf_eq_ok_iff hd hn hopen).1 hp
        obtain ⟨hbefore, hgood'⟩ := hmade q hq
        have hclose : q.close = p.close := List.inj_on_of_nodup_map hd
          hgood'.mem_and_isClose.1 hgood.mem_and_isClose.1 hid
        have hsub : [q.opener, p.opener].Sublist r.nodes := by
          rw [← hnodes]
          exact (List.singleton_sublist.2 hbefore).append
            (List.singleton_sublist.2 List.mem_cons_self)
        refine ⟨fun he => ?_, p.close, q.opener, p.opener, rfl, rfl, rfl, hsub, hclose ▸ hgood',
          hgood⟩
        have hnd := (hsub.map (·.id)).nodup hd
        simp [he] at hnd
      · obtain ⟨rfl, hgood⟩ := (pairOf_eq_ok_iff hd hn hopen).1 hp
        refine ih hnodes' (fun q hq => ?_) hrest
        rcases List.mem_append.1 hq with hq | hq
        · exact hearlier q hq
        · rw [List.mem_singleton.1 hq]
          exact ⟨by simp, hgood⟩

theorem suffers_of_pairs (hd : (r.nodes.map (·.id)).Nodup)
    (h : (ofRung r).pairs = .error cause) : r.Suffers cause := by
  rw [pairs, bind_eq_error] at h
  rcases h with h | ⟨made, hmade, h⟩
  · exact suffers_of_pairFrom hd (List.nil_append _) (fun _ hp => (List.not_mem_nil hp).elim) h
  · obtain ⟨ps, hps, hmade, -⟩ := pairFrom_eq_ok_iff.1 hmade
    obtain rfl : made = ps := hmade
    obtain ⟨hopeners, hgood⟩ := (mapM_pairOf_eq_ok_iff hd).1 hps
    split at h
    · rename_i k hk
      cases h
      have hfree := List.find?_some hk
      obtain ⟨hclose, hfree⟩ : k.isClose = true ∧ ∀ p ∈ made, p.close.id ≠ k.id := by
        simpa using hfree
      refine ⟨k, List.mem_of_find?_eq_some hk, rfl, hclose, fun o ho hreach => ?_⟩
      obtain ⟨branch, path, hkind, -⟩ := id hreach
      have hm : o ∈ made.map (·.opener) :=
        hopeners ▸ List.mem_filter.2 ⟨ho, Node.isOpen_iff.2 ⟨branch, hkind⟩⟩
      obtain ⟨p, hp, rfl⟩ := List.mem_map.1 hm
      exact hfree p hp (congrArg Node.id ((hgood p hp).reaches.unique hreach))
    · cases h

end Topology

namespace RungContext

variable {r : Rung} {index : Nat} {offset : Offset} {cause : MalformedGraph}

theorem suffers_of_collect {n : Node} {side : Option String} {target : Point}
    (h : (r.context index offset).collect n side target = .error cause) : r.Suffers cause := by
  rw [collect, bind_pure_eq_error] at h
  obtain ⟨w, hw, h⟩ := exists_of_mapM_eq_error h
  unfold connectionsOf at h
  split at h
  · exact Topology.suffers_of_trace (mem_incoming.1 hw).1.node?_source (bind_pure_eq_error.1 h)
  · cases h

theorem suffers_of_pinSource {n : Node} {pin : Connector}
    (h : (r.context index offset).pinSource n pin = .error cause) : r.Suffers cause := by
  rcases bind_eq_error.1 h with h | ⟨cs, -, h⟩
  · exact suffers_of_collect h
  · cases cs <;> cases h

theorem suffers_of_emit {n : Node} (h : (r.context index offset).emit n = .error cause) :
    r.Suffers cause := by
  unfold emit at h
  split at h
  case h_2 | h_3 | h_4 =>
    simp only [rightRail, contact, coil, intoNode, bind_pure_eq_error] at h
    exact suffers_of_collect h
  case h_5 =>
    simp only [block, pins, bind_pure_eq_error] at h
    obtain ⟨pin, -, h⟩ := exists_of_mapM_eq_error h
    exact suffers_of_pinSource (bind_pure_eq_error.1 h)
  case h_7 => split at h <;> cases h
  case h_1 | h_6 | h_8 | h_9 | h_10 => cases h

end RungContext

theorem Rung.suffers_of_lower {r : Rung} (hd : (r.nodes.map (·.id)).Nodup) {index : Nat}
    {offset : Offset} {cause : MalformedGraph} (h : r.lower index offset = .error cause) :
    r.Suffers cause := by
  rcases bind_eq_error.1 h with h | ⟨_, -, h⟩
  · exact Topology.suffers_of_pairs hd h
  · obtain ⟨n, -, h⟩ := exists_of_mapM_eq_error (bind_pure_eq_error.1 h)
    exact RungContext.suffers_of_emit h

/-- **Every failure is a true description of its rung.** A failure tells of a rung of the list by
its position and its id, and the drawing of that rung has the defect that the failure gives as its
cause. -/
theorem failures_tell_true (config : Config) {rungs : List Rung}
    (hd : ∀ r ∈ rungs, (r.nodes.map (·.id)).Nodup) :
    ∀ f ∈ (lower config rungs).failures,
      ∃ r, rungs[f.rung]? = some r ∧ f.rungId = r.id ∧ r.Suffers f.cause := by
  intro f hf
  obtain ⟨o, ho, hf⟩ := List.mem_filterMap.1 hf
  obtain ⟨hrung, hid, hcause⟩ := Outcome.rung_of_failure? hf
  obtain ⟨hget, hres⟩ := getElem?_of_mem_outcomes ho
  rw [hres] at hcause
  exact ⟨o.rung, hrung ▸ hget, hid,
    Rung.suffers_of_lower (hd o.rung (List.mem_of_getElem? hget)) hcause⟩

def sharedEnd : Rung where
  nodes := [
    { id := "first", numericId := 1, kind := .parallelOpen { id := "down" } },
    { id := "second", numericId := 2, kind := .parallelOpen { id := "down" } },
    { id := "end", numericId := 3, kind := .parallelClose { id := "up" } }]
  edges := [⟨"first", "down", "end", "up"⟩, ⟨"second", "down", "end", "up"⟩]

def forkedBranch : Rung where
  nodes := [
    { id := "open", numericId := 1, kind := .parallelOpen { id := "down" } },
    { id := "a", numericId := 2, kind := .contact "a" .normal },
    { id := "b", numericId := 3, kind := .contact "b" .normal }]
  edges := [⟨"open", "down", "a", "in"⟩, ⟨"open", "down", "b", "in"⟩]

def strayClose : Rung where
  nodes := [{ id := "end", numericId := 1, kind := .parallelClose { id := "up" } }]

/-- A coil behind a group that no wire enters. -/
def unfedGroup : Rung where
  nodes := [
    { id := "open", numericId := 1, kind := .parallelOpen { id := "down" } },
    { id := "close", numericId := 2, kind := .parallelClose { id := "up" } },
    { id := "x", numericId := 3, kind := .coil "x" .normal }]
  edges := [
    ⟨"open", "out", "close", "in"⟩, ⟨"open", "down", "close", "up"⟩, ⟨"close", "out", "x", "in"⟩]

/-- One rung for each way to fail; a marker is met again on a branch, and behind itself. -/
theorem broken_groups_suffer :
    let rungs := [sharedEnd, forkedBranch, strayClose, unfedGroup, branchBackToEnd, selfFedGroup]
    (∀ r ∈ rungs, (r.nodes.map (·.id)).Nodup) ∧
      ∀ i cause, (i, cause) ∈ [
          (0, .sharedClose "end" "first" "second"), (1, .unclosedOpen "open"),
          (2, .unmatchedClose "end"), (3, .markerCardinality "open" .serial 0),
          (4, .markerCycle "outer"), (5, .markerCycle "open")] →
        ∃ r, rungs[i]? = some r ∧ r.Suffers cause := by
  intro rungs
  have hd : ∀ r ∈ rungs, (r.nodes.map (·.id)).Nodup := by decide +kernel
  have hfail : (lower (.ofDialect .openPlc) rungs).failures.map (fun f => (f.rung, f.cause)) = [
      (0, .sharedClose "end" "first" "second"), (1, .unclosedOpen "open"),
      (2, .unmatchedClose "end"), (3, .markerCardinality "open" .serial 0),
      (4, .markerCycle "outer"), (5, .markerCycle "open")] := by decide +kernel
  refine ⟨hd, fun i cause hm => ?_⟩
  rw [← hfail] at hm
  obtain ⟨f, hf, he⟩ := List.mem_map.1 hm
  obtain ⟨rfl, rfl⟩ := Prod.mk.inj he
  obtain ⟨r, hr, -, hs⟩ := failures_tell_true _ hd f hf
  exact ⟨r, hr, hs⟩

end LadderDiagram
