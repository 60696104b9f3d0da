import LadderDiagram.Proofs.Failure
import LadderDiagram.Proofs.Pairs

/-!
# Branches of open markers

`Rung.Walk` follows the branch of an open marker along the edges of a rung, to the close marker on
which it ends; the walk is good if it reaches no node twice (`Rung.GoodWalk`). Pairing finds the end
of each good walk and nothing else (`Topology.pairOf_eq_ok_iff`), so it succeeds exactly if the good
walks make open and close markers correspond one to one, and then it gives that correspondence
(`pairs_correspond`).
-/

namespace LadderDiagram

open LadderDiagram.Topology (ofRung wire? indexNodes)

namespace Rung

/-- The edges that leave a connector of a node for a node that is no variable. -/
def onward (r : Rung) (n : Node) (handle : String) : List Edge :=
  r.edges.filter fun e =>
    e.source == n.id && e.sourceHandle == handle && (r.node? e.target).any (!·.kind.isVariable)

/-- One edge alone goes on from a connector of `n`: `e`, to the node `m`. -/
structure GoesOn (r : Rung) (n : Node) (handle : String) (e : Edge) (m : Node) : Prop where
  only : r.onward n handle = [e]
  target : r.node? e.target = some m

/-- The edge lands on the branch connector of the close marker `m`. -/
def Rejoins (e : Edge) (m : Node) : Prop :=
  ∃ branch, m.kind = .parallelClose branch ∧ e.targetHandle = branch.id

/-- The walk that leaves `n` through the connector `handle` reaches the nodes `path` one after the
other, the last of them the close marker `close` on its branch connector. -/
inductive Walk (r : Rung) : Node → String → List Node → Node → Prop where
  | rejoins {n close : Node} {handle : String} {e : Edge} :
      r.GoesOn n handle e close → Rejoins e close → Walk r n handle [close] close
  | passes {n m close : Node} {handle : String} {e : Edge} {out : Connector} {path : List Node} :
      r.GoesOn n handle e m → ¬ Rejoins e m → m.output = some out →
      Walk r m out.id path close → Walk r n handle (m :: path) close

/-- The branch of the open marker ends on `close`, whatever nodes its walk reaches. -/
def BranchReaches (r : Rung) (opener close : Node) : Prop :=
  ∃ branch path, opener.kind = .parallelOpen branch ∧ r.Walk opener branch.id path close

/-- The branch of the open marker ends on `close`, and no node is reached twice on the way. -/
def GoodWalk (r : Rung) (opener close : Node) : Prop :=
  ∃ branch path, opener.kind = .parallelOpen branch ∧ r.Walk opener branch.id path close ∧
    path.Nodup

theorem GoesOn.unique {r : Rung} {n m m' : Node} {handle : String} {e e' : Edge}
    (h : r.GoesOn n handle e m) (h' : r.GoesOn n handle e' m') : e = e' ∧ m = m' := by
  obtain rfl : e = e' := List.singleton_inj.1 (h.only.symm.trans h'.only)
  exact ⟨rfl, Option.some.inj (h.target.symm.trans h'.target)⟩

theorem GoesOn.node?_target {r : Rung} {n m : Node} {handle : String} {e : Edge}
    (h : r.GoesOn n handle e m) : r.node? m.id = some m := by rw [id_of_node? h.target, h.target]

theorem Walk.exists_goesOn {r : Rung} {n close : Node} {handle : String} {path : List Node}
    (h : r.Walk n handle path close) : ∃ e m rest, r.GoesOn n handle e m ∧ path = m :: rest := by
  cases h with
  | rejoins hg _ => exact ⟨_, _, [], hg, rfl⟩
  | passes hg _ _ _ => exact ⟨_, _, _, hg, rfl⟩

theorem GoesOn.walk_iff_of_rejoins {r : Rung} {n m close : Node} {handle : String} {e : Edge}
    {path : List Node} (hg : r.GoesOn n handle e m) (hr : Rejoins e m) :
    r.Walk n handle path close ↔ path = [m] ∧ close = m := by
  constructor
  · intro h
    cases h with
    | rejoins hg' _ =>
      obtain ⟨-, rfl⟩ := hg.unique hg'
      exact ⟨rfl, rfl⟩
    | passes hg' hr' =>
      obtain ⟨rfl, rfl⟩ := hg.unique hg'
      exact (hr' hr).elim
  · rintro ⟨rfl, rfl⟩
    exact .rejoins hg hr

theorem GoesOn.walk_iff_of_not_rejoins {r : Rung} {n m close : Node} {handle : String} {e : Edge}
    {path : List Node} (hg : r.GoesOn n handle e m) (hr : ¬ Rejoins e m) :
    r.Walk n handle path close ↔
      ∃ out rest, m.output = some out ∧ path = m :: rest ∧ r.Walk m out.id rest close := by
  constructor
  · intro h
    cases h with
    | rejoins hg' hr' =>
      obtain ⟨rfl, rfl⟩ := hg.unique hg'
      exact (hr hr').elim
    | passes hg' _ ho h =>
      obtain ⟨-, rfl⟩ := hg.unique hg'
      exact ⟨_, _, ho, rfl, h⟩
  · rintro ⟨out, rest, ho, rfl, h⟩
    exact .passes hg hr ho h

/-- There is one way to walk, up to where a walk ends. -/
theorem Walk.unique {r : Rung} {n close close' : Node} {handle : String} {path path' : List Node}
    (h : r.Walk n handle path close) (h' : r.Walk n handle path' close') : close = close' := by
  induction h generalizing path' with
  | rejoins hg hr => exact ((hg.walk_iff_of_rejoins hr).1 h').2.symm
  | passes hg hr ho _ ih =>
    obtain ⟨out', rest, ho', -, h'⟩ := (hg.walk_iff_of_not_rejoins hr).1 h'
    obtain rfl := Option.some.inj (ho.symm.trans ho')
    exact ih h'

theorem BranchReaches.unique {r : Rung} {opener close close' : Node}
    (h : r.BranchReaches opener close) (h' : r.BranchReaches opener close') : close = close' := by
  obtain ⟨branch, path, hk, hw⟩ := h
  obtain ⟨branch', path', hk', hw'⟩ := h'
  obtain rfl : branch = branch' := NodeKind.parallelOpen.inj (hk.symm.trans hk')
  exact hw.unique hw'

theorem GoodWalk.reaches {r : Rung} {opener close : Node} (h : r.GoodWalk opener close) :
    r.BranchReaches opener close := by
  obtain ⟨branch, path, hk, hw, -⟩ := h
  exact ⟨branch, path, hk, hw⟩

theorem GoodWalk.unique {r : Rung} {opener close close' : Node} (h : r.GoodWalk opener close)
    (h' : r.GoodWalk opener close') : close = close' := h.reaches.unique h'.reaches

theorem Walk.mem_and_isClose {r : Rung} {n close : Node} {handle : String} {path : List Node}
    (h : r.Walk n handle path close) : close ∈ r.nodes ∧ close.isClose = true := by
  induction h with
  | rejoins hg hr =>
    obtain ⟨branch, hk, -⟩ := hr
    exact ⟨mem_of_node? hg.target, by rw [Node.isClose, hk]⟩
  | passes _ _ _ _ ih => exact ih

theorem Walk.mem_path {r : Rung} {n close : Node} {handle : String} {path : List Node}
    (h : r.Walk n handle path close) : ∀ m ∈ path, m ∈ r.nodes := by
  induction h with
  | rejoins hg _ =>
    intro m hm
    rw [List.mem_singleton.1 hm]
    exact mem_of_node? hg.target
  | passes hg _ _ _ ih => exact List.forall_mem_cons.2 ⟨mem_of_node? hg.target, ih⟩

end Rung

namespace Topology

/-! ### One step -/

theorem map_edge_forward {r : Rung} {n : Node} (hn : r.node? n.id = some n) (handle : String) :
    ((ofRung r).forward n handle).map (·.edge) = r.onward n handle := by
  rw [forward, outgoing_ofRung, Rung.onward]
  induction r.edges with
  | nil => rfl
  | cons e rest ih =>
    cases hw : wire? (indexNodes r.nodes) e with
    | none =>
      have hskip : (e.source == n.id && e.sourceHandle == handle &&
          (r.node? e.target).any (!·.kind.isVariable)) = false := by
        have hc : r.isComplete e = false := by rw [← isSome_wire?, hw]; rfl
        by_cases hs : e.source = n.id
        · have ht : r.node? e.target = none := by simpa [Rung.isComplete, hs, hn] using hc
          rw [ht, Option.any_none, Bool.and_false]
        · rw [beq_eq_false_iff_ne.2 hs, Bool.false_and, Bool.false_and]
      rw [List.filterMap_cons_none hw, List.filter_cons_of_neg (by rw [hskip]; decide)]
      exact ih
    | some w =>
      obtain ⟨rfl, -, ht⟩ := wire?_eq_some.1 hw
      rw [List.filterMap_cons_some hw]
      by_cases hs : w.edge.source = n.id
      · by_cases hh : w.edge.sourceHandle = handle
        · cases hv : w.target.kind.isVariable <;> simpa [hs, hh, ht, hv] using ih
        · simpa [hs, hh] using ih
      · simpa [hs] using ih

/-- One edge alone goes on exactly if one wire alone does. -/
theorem goesOn_iff {r : Rung} {n m : Node} {handle : String} {e : Edge}
    (hn : r.node? n.id = some n) :
    r.GoesOn n handle e m ↔
      ∃ w, (ofRung r).forward n handle = [w] ∧ w.edge = e ∧ w.target = m := by
  have htarget {w : Wire} (h : (ofRung r).forward n handle = [w]) :
      r.node? w.edge.target = some w.target := by
    have hw : w ∈ (ofRung r).forward n handle := h ▸ List.mem_singleton_self w
    exact (mem_outgoing.1 (List.mem_filter.1 hw).1).1.target
  constructor
  · rintro ⟨honly, ht⟩
    rw [← map_edge_forward hn, List.map_eq_singleton_iff] at honly
    obtain ⟨w, hw, rfl⟩ := honly
    exact ⟨w, hw, rfl, Option.some.inj ((htarget hw).symm.trans ht)⟩
  · rintro ⟨w, hw, rfl, rfl⟩
    refine ⟨?_, htarget hw⟩
    rw [← map_edge_forward hn, hw]
    rfl

theorem endsBranch_iff {w : Wire} : w.endsBranch = true ↔ Rung.Rejoins w.edge w.target := by
  unfold Wire.endsBranch Rung.Rejoins
  split
  · rename_i branch hk
    simp only [hk, NodeKind.parallelClose.injEq, exists_eq_left', beq_iff_eq]
  · rename_i hk
    exact iff_of_false Bool.false_ne_true fun ⟨branch, h, _⟩ => hk branch h

/-! ### The walk -/

/-- The walk along a branch succeeds exactly if it comes to an end without a node that it has met:
then it gives the close marker on which it ends. -/
theorem branchEnd_eq_ok_iff {r : Rung} {opener n close : Node} {handle : String}
    {fresh : List String} (hn : r.node? n.id = some n) :
    (ofRung r).branchEnd opener fresh ((ofRung r).forward n handle) = .ok close ↔
      ∃ path, r.Walk n handle path close ∧ (path.map (·.id)).Nodup ∧
        ∀ m ∈ path, m.id ∈ fresh := by
  generalize hnext : (ofRung r).forward n handle = next
  induction fresh, next using branchEnd.induct (ofRung r) generalizing n handle with
  | case1 fresh w hw he =>
    have hg : r.GoesOn n handle w.edge w.target := (goesOn_iff hn).2 ⟨w, hnext, rfl, rfl⟩
    simp only [branchEnd_ends hw he, hg.walk_iff_of_rejoins (endsBranch_iff.1 he)]
    constructor
    · rintro ⟨⟩
      exact ⟨[w.target], ⟨rfl, rfl⟩, List.nodup_singleton _, List.forall_mem_singleton.2 hw⟩
    · rintro ⟨-, ⟨-, rfl⟩, -⟩
      rfl
  | case2 fresh w hw he out ho ih =>
    have hg : r.GoesOn n handle w.edge w.target := (goesOn_iff hn).2 ⟨w, hnext, rfl, rfl⟩
    rw [branchEnd_passes hw (Bool.eq_false_iff.2 he) ho, ih hg.node?_target rfl]
    simp only [hg.walk_iff_of_not_rejoins (mt endsBranch_iff.2 he), ho, Option.some.injEq]
    -- The node that is passed is taken out of the fresh ones, so it is not met again.
    constructor
    · rintro ⟨rest, hwalk, hd, hf⟩
      refine ⟨w.target :: rest, ⟨out, rest, rfl, rfl, hwalk⟩, List.nodup_cons.2 ⟨?_, hd⟩,
        List.forall_mem_cons.2 ⟨hw, fun m hm => (mem_without.1 (hf m hm)).1⟩⟩
      intro hmem
      obtain ⟨m, hm, hid⟩ := List.mem_map.1 hmem
      exact (mem_without.1 (hf m hm)).2 hid
    · rintro ⟨path, ⟨_, rest, rfl, rfl, hwalk⟩, hd, hf⟩
      obtain ⟨hnew, hd⟩ := List.nodup_cons.1 hd
      refine ⟨rest, hwalk, hd, fun m hm => mem_without.2 ⟨hf m (List.mem_cons_of_mem _ hm), ?_⟩⟩
      intro hid
      exact hnew (List.mem_map.2 ⟨m, hm, hid⟩)
  | case3 fresh w hw he ho =>
    have hg : r.GoesOn n handle w.edge w.target := (goesOn_iff hn).2 ⟨w, hnext, rfl, rfl⟩
    rw [branchEnd_without_output hw (Bool.eq_false_iff.2 he) ho]
    simp [ho, hg.walk_iff_of_not_rejoins (mt endsBranch_iff.2 he)]
  | case4 fresh w hw =>
    have hg : r.GoesOn n handle w.edge w.target := (goesOn_iff hn).2 ⟨w, hnext, rfl, rfl⟩
    rw [branchEnd_met hw]
    refine iff_of_false nofun ?_
    rintro ⟨path, hwalk, -, hf⟩
    obtain ⟨e, m, rest, hg', rfl⟩ := hwalk.exists_goesOn
    obtain ⟨-, rfl⟩ := hg.unique hg'
    exact hw (hf _ List.mem_cons_self)
  | case5 fresh next hne =>
    rw [branchEnd_of_ne_singleton hne]
    refine iff_of_false nofun ?_
    rintro ⟨path, hwalk, -⟩
    obtain ⟨e, m, rest, hg, -⟩ := hwalk.exists_goesOn
    obtain ⟨w, hw, -⟩ := (goesOn_iff hn).1 hg
    exact hne w (hnext.symm.trans hw)

/-! ### Pairs -/

theorem pairOf_eq_ok_iff {r : Rung} (hd : (r.nodes.map (·.id)).Nodup) {opener : Node}
    (hn : opener ∈ r.nodes) (ho : opener.isOpen = true) {p : MarkerPair} :
    (ofRung r).pairOf opener = .ok p ↔ p.opener = opener ∧ r.GoodWalk opener p.close := by
  obtain ⟨branch, hk⟩ := Node.isOpen_iff.1 ho
  have hwalk {close : Node} : (∃ path, r.Walk opener branch.id path close ∧
      (path.map (·.id)).Nodup ∧ ∀ m ∈ path, m.id ∈ (ofRung r).ids) ↔ r.GoodWalk opener close := by
    constructor
    · rintro ⟨path, hw, hnd, -⟩
      exact ⟨branch, path, hk, hw, hnd.of_map⟩
    · rintro ⟨branch', path, hk', hw, hnd⟩
      obtain rfl : branch = branch' := NodeKind.parallelOpen.inj (hk.symm.trans hk')
      refine ⟨path, hw, hnd.map_on fun m hm m' hm' he => ?_, fun m hm => ?_⟩
      · exact List.inj_on_of_nodup_map hd (hw.mem_path m hm) (hw.mem_path m' hm') he
      · exact List.mem_map_of_mem (hw.mem_path m hm)
  have hid : opener.branchId = branch.id := by rw [Node.branchId, hk]
  simp only [pairOf, bind_eq_ok, pure_eq_ok, hid, branchEnd_eq_ok_iff (Rung.node?_of_mem hd hn),
    hwalk]
  constructor
  · rintro ⟨close, hg, rfl⟩
    exact ⟨rfl, hg⟩
  · rintro ⟨rfl, hg⟩
    exact ⟨p.close, hg, rfl⟩

theorem mapM_pairOf_eq_ok_iff {r : Rung} (hd : (r.nodes.map (·.id)).Nodup) {ps : List MarkerPair} :
    (r.nodes.filter Node.isOpen).mapM (ofRung r).pairOf = .ok ps ↔
      ps.map (·.opener) = r.nodes.filter Node.isOpen ∧
        ∀ p ∈ ps, r.GoodWalk p.opener p.close := by
  constructor
  · intro h
    refine ⟨(map_of_mapM_eq_ok h fun _ _ => opener_of_pairOf).trans (List.map_id' _),
      fun p hp => ?_⟩
    obtain ⟨o, ho, hpair⟩ := (mem_of_mapM_eq_ok h).1 hp
    obtain ⟨hn, hopen⟩ := List.mem_filter.1 ho
    obtain ⟨rfl, hgood⟩ := (pairOf_eq_ok_iff hd hn hopen).1 hpair
    exact hgood
  · rintro ⟨hopeners, hgood⟩
    rw [mapM_eq_ok, ← hopeners, List.map_map]
    refine List.map_congr_left fun p hp => ?_
    have hm : p.opener ∈ r.nodes.filter Node.isOpen := hopeners ▸ List.mem_map_of_mem hp
    obtain ⟨hn, hopen⟩ := List.mem_filter.1 hm
    exact (pairOf_eq_ok_iff hd hn hopen).2 ⟨rfl, hgood p hp⟩

end Topology

namespace Rung

/-- The pairs are the correspondence of the markers: each open marker in the order of the nodes,
with the end of its branch, and each close marker once. -/
structure Corresponds (r : Rung) (ps : List MarkerPair) : Prop where
  openers : ps.map (·.opener) = r.nodes.filter Node.isOpen
  good : ∀ p ∈ ps, r.GoodWalk p.opener p.close
  distinct : (ps.map (·.close.id)).Nodup
  complete : ∀ k ∈ r.nodes, k.isClose = true → k.id ∈ ps.map (·.close.id)

/-- Pairing gives the correspondence, and nothing if there is none. -/
theorem pairs_eq_ok_iff_corresponds {r : Rung} (hd : (r.nodes.map (·.id)).Nodup)
    {ps : List MarkerPair} : (ofRung r).pairs = .ok ps ↔ r.Corresponds ps := by
  rw [Topology.pairs_eq_ok_iff]
  show (r.nodes.filter Node.isOpen).mapM (ofRung r).pairOf = .ok ps ∧ _ ↔ _
  rw [Topology.mapM_pairOf_eq_ok_iff hd]
  exact ⟨fun ⟨⟨ho, hg⟩, hnd, hc⟩ => ⟨ho, hg, hnd, hc⟩, fun ⟨ho, hg, hnd, hc⟩ => ⟨⟨ho, hg⟩, hnd, hc⟩⟩

theorem GoodWalk.isOpen {r : Rung} {opener close : Node} (h : r.GoodWalk opener close) :
    opener.isOpen = true := by
  obtain ⟨branch, _, hk, _, _⟩ := h
  exact Node.isOpen_iff.2 ⟨branch, hk⟩

theorem GoodWalk.mem_and_isClose {r : Rung} {opener close : Node}
    (h : r.GoodWalk opener close) : close ∈ r.nodes ∧ close.isClose = true := by
  obtain ⟨_, _, _, hw, _⟩ := h
  exact hw.mem_and_isClose

namespace Corresponds

variable {r : Rung} {ps : List MarkerPair} (h : r.Corresponds ps)
include h

theorem mem_opener {p : MarkerPair} (hp : p ∈ ps) : p.opener ∈ r.nodes := by
  have hm : p.opener ∈ r.nodes.filter Node.isOpen := h.openers ▸ List.mem_map_of_mem hp
  exact (List.mem_filter.1 hm).1

theorem exists_pair {o : Node} (ho : o ∈ r.nodes) (hopen : o.isOpen = true) :
    ∃ p ∈ ps, p.opener = o := by
  have hm : o ∈ ps.map (·.opener) := h.openers ▸ List.mem_filter.2 ⟨ho, hopen⟩
  exact List.mem_map.1 hm

theorem perm_closes (hd : (r.nodes.map (·.id)).Nodup) :
    (ps.map (·.close)).Perm (r.nodes.filter Node.isClose) := by
  have hnd : (ps.map (·.close)).Nodup := by
    refine List.Nodup.of_map (·.id) ?_
    rw [List.map_map]
    exact h.distinct
  refine (List.perm_ext_iff_of_nodup hnd (hd.of_map.filter _)).2 fun k => ?_
  rw [List.mem_filter]
  constructor
  · intro hk
    obtain ⟨p, hp, rfl⟩ := List.mem_map.1 hk
    exact (h.good p hp).mem_and_isClose
  · rintro ⟨hk, hc⟩
    obtain ⟨p, hp, he⟩ := List.mem_map.1 (h.complete k hk hc)
    obtain rfl := List.inj_on_of_nodup_map hd (h.good p hp).mem_and_isClose.1 hk he
    exact List.mem_map_of_mem hp

end Corresponds

/-- The markers correspond if and only if the walks of their branches say how. -/
theorem exists_corresponds_iff {r : Rung} (hd : (r.nodes.map (·.id)).Nodup) :
    (∃ ps, r.Corresponds ps) ↔
      (∀ o ∈ r.nodes, o.isOpen = true → ∃ k, r.GoodWalk o k) ∧
        (∀ o ∈ r.nodes, ∀ o' ∈ r.nodes, ∀ k, r.GoodWalk o k → r.GoodWalk o' k → o = o') ∧
        ∀ k ∈ r.nodes, k.isClose = true → ∃ o ∈ r.nodes, r.GoodWalk o k := by
  constructor
  · rintro ⟨ps, h⟩
    refine ⟨fun o ho hopen => ?_, fun o ho o' ho' k hw hw' => ?_, fun k hk hc => ?_⟩
    · obtain ⟨p, hp, rfl⟩ := h.exists_pair ho hopen
      exact ⟨p.close, h.good p hp⟩
    · obtain ⟨p, hp, rfl⟩ := h.exists_pair ho hw.isOpen
      obtain ⟨q, hq, rfl⟩ := h.exists_pair ho' hw'.isOpen
      have he : p.close = q.close :=
        ((h.good p hp).unique hw).trans (hw'.unique (h.good q hq))
      rw [List.inj_on_of_nodup_map h.distinct hp hq (congrArg Node.id he)]
    · obtain ⟨p, hp, rfl⟩ := List.mem_map.1
        ((h.perm_closes hd).mem_iff.2 (List.mem_filter.2 ⟨hk, hc⟩))
      exact ⟨p.opener, h.mem_opener hp, h.good p hp⟩
  · rintro ⟨hgood, hdistinct, hclose⟩
    have hall : ∀ o ∈ r.nodes.filter Node.isOpen, ∃ p, (ofRung r).pairOf o = .ok p := by
      intro o ho
      obtain ⟨hn, hopen⟩ := List.mem_filter.1 ho
      obtain ⟨k, hk⟩ := hgood o hn hopen
      exact ⟨⟨o, k⟩, (Topology.pairOf_eq_ok_iff hd hn hopen).2 ⟨rfl, hk⟩⟩
    obtain ⟨ps, hps⟩ := exists_mapM_eq_ok hall
    obtain ⟨hopeners, hwalks⟩ := (Topology.mapM_pairOf_eq_ok_iff hd).1 hps
    have hmem {o : Node} : o ∈ ps.map (·.opener) ↔ o ∈ r.nodes ∧ o.isOpen = true := by
      rw [hopeners, List.mem_filter]
    have hnd : (ps.map (·.opener)).Nodup := hopeners ▸ hd.of_map.filter _
    refine ⟨ps, hopeners, hwalks, hnd.of_map.map_on fun p hp q hq he => ?_, fun k hk hc => ?_⟩
    · have hk : p.close = q.close := List.inj_on_of_nodup_map hd
        (hwalks p hp).mem_and_isClose.1 (hwalks q hq).mem_and_isClose.1 he
      refine List.inj_on_of_nodup_map hnd hp hq (hdistinct _ ?_ _ ?_ _ (hwalks p hp) ?_)
      · exact (hmem.1 (List.mem_map_of_mem hp)).1
      · exact (hmem.1 (List.mem_map_of_mem hq)).1
      · rw [hk]
        exact hwalks q hq
    · obtain ⟨o, ho, hw⟩ := hclose k hk hc
      obtain ⟨p, hp, rfl⟩ := List.mem_map.1 (hmem.2 ⟨ho, hw.isOpen⟩)
      exact List.mem_map.2 ⟨p, hp, congrArg Node.id ((hwalks p hp).unique hw)⟩

end Rung

/-- **Pairing finds the correspondence of markers, if there is one.** It succeeds exactly if the
branch of every open marker has a good walk, no two of them end alike, and every close marker is the
end of one. Then it gives each open marker, in the order of the nodes, with the end of its walk, and
each close marker once. -/
theorem pairs_correspond {r : Rung} (hd : (r.nodes.map (·.id)).Nodup) :
    ((∃ ps, (ofRung r).pairs = .ok ps) ↔
      (∀ o ∈ r.nodes, o.isOpen = true → ∃ k, r.GoodWalk o k) ∧
        (∀ o ∈ r.nodes, ∀ o' ∈ r.nodes, ∀ k, r.GoodWalk o k → r.GoodWalk o' k → o = o') ∧
        ∀ k ∈ r.nodes, k.isClose = true → ∃ o ∈ r.nodes, r.GoodWalk o k) ∧
      ∀ ps, (ofRung r).pairs = .ok ps →
        ps.map (·.opener) = r.nodes.filter Node.isOpen ∧
          (∀ p ∈ ps, ∀ k, r.GoodWalk p.opener k ↔ k = p.close) ∧
          (ps.map (·.close)).Perm (r.nodes.filter Node.isClose) := by
  simp only [Rung.pairs_eq_ok_iff_corresponds hd]
  refine ⟨Rung.exists_corresponds_iff hd, fun ps h => ⟨h.openers, fun p hp k => ?_, ?_⟩⟩
  · constructor
    · exact fun hw => hw.unique (h.good p hp)
    · rintro rfl
      exact h.good p hp
  · exact h.perm_closes hd

/-- A branch over a block with a variable at its output, and in it a group that is stepped over on
its serial side, which is empty. -/
def branchOverBlock : Rung where
  nodes := [
    { id := "inner", numericId := 1, kind := .parallelOpen { id := "down" },
      output := some { id := "out" } },
    { id := "outer", numericId := 2, kind := .parallelOpen { id := "down" } },
    { id := "add", numericId := 3, kind := .block { typeName := "ADD" },
      output := some { id := "OUT" } },
    { id := "sum", numericId := 4, kind := .variableOut { name := "sum" } },
    { id := "a", numericId := 5, kind := .contact "a" .normal, output := some { id := "out" } },
    { id := "rejoin", numericId := 6, kind := .parallelClose { id := "up" },
      output := some { id := "out" } },
    { id := "end", numericId := 7, kind := .parallelClose { id := "up" } }]
  edges := [
    ⟨"outer", "out", "end", "in"⟩, ⟨"outer", "down", "add", "EN"⟩, ⟨"add", "OUT", "sum", "in"⟩,
    ⟨"add", "OUT", "inner", "in"⟩, ⟨"inner", "out", "rejoin", "in"⟩, ⟨"inner", "down", "a", "in"⟩,
    ⟨"a", "out", "rejoin", "up"⟩, ⟨"rejoin", "out", "end", "up"⟩]

/-- The same, but for the end of the outer branch, which comes back to its close marker by way of
the serial side. -/
def branchBackToEnd : Rung where
  nodes := [
    { id := "outer", numericId := 1, kind := .parallelOpen { id := "down" } },
    { id := "end", numericId := 2, kind := .parallelClose { id := "up" },
      output := some { id := "out" } }]
  edges := [⟨"outer", "down", "end", "in"⟩, ⟨"end", "out", "end", "up"⟩]

/-- The block and the inner group are passed; the walk that reaches its end twice is not good. -/
theorem branchOverBlock_corresponds :
    (branchOverBlock.nodes.map (·.id)).Nodup ∧ (branchBackToEnd.nodes.map (·.id)).Nodup ∧
      (∃ ps, (ofRung branchOverBlock).pairs = .ok ps ∧
        ps.map (fun p => (p.opener.id, p.close.id)) = [("inner", "rejoin"), ("outer", "end")] ∧
        ∀ p ∈ ps, ∀ k, branchOverBlock.GoodWalk p.opener k ↔ k = p.close) ∧
      ∃ o ∈ branchBackToEnd.nodes, ∃ k ∈ branchBackToEnd.nodes,
        (∃ path, branchBackToEnd.Walk o "down" path k) ∧ ¬ branchBackToEnd.GoodWalk o k := by
  have hover : (branchOverBlock.nodes.map (·.id)).Nodup := by decide
  have hback : (branchBackToEnd.nodes.map (·.id)).Nodup := by decide
  have hpaired : ((ofRung branchOverBlock).pairs.toOption.map fun ps =>
      ps.map fun p => (p.opener.id, p.close.id)) =
        some [("inner", "rejoin"), ("outer", "end")] := by decide +kernel
  have hfails : (ofRung branchBackToEnd).pairs.toOption.isNone = true := by decide +kernel
  refine ⟨hover, hback, ?_, ?_⟩
  · cases hps : (ofRung branchOverBlock).pairs with
    | error cause =>
      rw [hps] at hpaired
      cases hpaired
    | ok ps =>
      rw [hps] at hpaired
      exact ⟨ps, rfl, Option.some.inj hpaired, ((pairs_correspond hover).2 ps hps).2.1⟩
  · refine ⟨branchBackToEnd.nodes[0], List.getElem_mem _, branchBackToEnd.nodes[1],
      List.getElem_mem _, ⟨_, .passes ⟨rfl, rfl⟩ ?_ rfl (.rejoins ⟨rfl, rfl⟩ ⟨_, rfl, rfl⟩)⟩, ?_⟩
    · rintro ⟨branch, hk, hh⟩
      cases hk
      exact absurd hh (by decide)
    · intro hw
      have hopen : ∀ o ∈ branchBackToEnd.nodes, o.isOpen = true → o = branchBackToEnd.nodes[0] := by
        decide
      have hclose : ∀ k ∈ branchBackToEnd.nodes, k.isClose = true →
          k = branchBackToEnd.nodes[1] := by decide
      obtain ⟨ps, hps⟩ := (pairs_correspond hback).1.2
        ⟨fun o ho h => hopen o ho h ▸ ⟨_, hw⟩,
          fun o ho o' ho' k h h' => (hopen o ho h.isOpen).trans (hopen o' ho' h'.isOpen).symm,
          fun k hk h => hclose k hk h ▸ ⟨_, List.getElem_mem _, hw⟩⟩
      rw [hps] at hfails
      cases hfails

end LadderDiagram
