import LadderDiagram.Proofs.SeriesParallel.Wiring

/-!
# Pairing the markers of a network

The walk along a branch steps over the groups inside it on their serial sides
and ends on the close marker of its own group. So every open marker is given
the close marker of its group, whatever the order of the nodes.
-/

namespace LadderDiagram

open LadderDiagram.Topology (ofRung)

/-- The walk of a branch that goes on from the port `p` ends on `c`. The nodes on the way are
among those with the ids `ahead`. -/
def Rung.BranchEnds (r : Rung) (opener : Node) (p : Port) (ahead : List String) (c : Node) : Prop :=
  ∀ fresh, (∀ id ∈ ahead, id ∈ fresh) →
    (ofRung r).branchEnd opener fresh ((ofRung r).forward p.node p.handle) = .ok c

namespace Rung.BranchEnds

variable {r : Rung} {opener c n : Node} {p : Port} {ahead : List String}

theorem mono {ahead' : List String} (h : r.BranchEnds opener p ahead c)
    (hm : ∀ id ∈ ahead, id ∈ ahead') : r.BranchEnds opener p ahead' c :=
  fun fresh hf => h fresh fun id hid => hf id (hm id hid)

theorem rejoin {branch : Connector} (hw : r.Wired) (hj : r.Joins p c.branchPort)
    (hk : c.kind = .parallelClose branch) : r.BranchEnds opener p [c.id] c := by
  intro fresh hf
  have hv : c.branchPort.node.kind.isVariable = false := by
    show c.kind.isVariable = false
    rw [hk]
    rfl
  have he : (p.joined c.branchPort).endsBranch = true := by
    show Wire.endsBranch ⟨_, _, c⟩ = true
    unfold Wire.endsBranch
    simp [hk, Port.wire, Node.branchPort, Node.branchId]
  rw [hw.forward_eq hj hv]
  exact Topology.branchEnd_ends (hf _ (List.mem_singleton_self _)) he

theorem pass (hw : r.Wired) (hj : r.Joins p n.inPort) (hv : n.kind.isVariable = false)
    (hc : n.isClose = true → n.inputId ≠ n.branchId) (ho : n.output.isSome)
    (h : r.BranchEnds opener n.outPort ahead c) (hn : n.id ∉ ahead) :
    r.BranchEnds opener p (n.id :: ahead) c := by
  intro fresh hf
  obtain ⟨out, ho⟩ := Option.isSome_iff_exists.1 ho
  have he : (p.joined n.inPort).endsBranch = false := by
    show Wire.endsBranch ⟨_, _, n⟩ = false
    unfold Wire.endsBranch
    split
    · rename_i branch hk
      have hk' : n.kind = .parallelClose branch := hk
      have hne := hc (by rw [Node.isClose, hk'])
      rw [Node.branchId, hk'] at hne
      simpa [Port.wire, Node.inPort] using hne
    · rfl
  rw [hw.forward_eq hj hv, Topology.branchEnd_passes (hf _ List.mem_cons_self) he ho]
  have hout : n.outputId = out.id := by rw [Node.outputId, ho]; rfl
  rw [← hout]
  apply h _
  intro id hid
  exact Topology.mem_without.2 ⟨hf id (List.mem_cons_of_mem _ hid), fun e => hn (e ▸ hid)⟩

end Rung.BranchEnds

namespace Network

variable {N : Network} {r : Rung} {s : Port} {opener c : Node} {ahead : List String}

section
variable {o k : String} {as bs : List String}

/-- The ids that a walk has ahead in a group, told apart: it passes the serial side. -/
theorem nodup_serial (h : (o :: k :: (as ++ bs) ++ ahead).Nodup) :
    k ∉ ahead ∧ (as ++ k :: ahead).Nodup ∧ o ∉ as ++ k :: ahead := by
  simp only [List.nodup_append, List.nodup_cons, List.mem_cons, List.mem_append,
    List.cons_append] at h ⊢
  grind

theorem passed_subset : o :: (as ++ k :: ahead) ⊆ o :: k :: (as ++ bs) ++ ahead := by
  intro id hid
  simp only [List.cons_append, List.mem_cons, List.mem_append] at hid ⊢
  tauto

end

/-- A walk that goes on from the end of a network goes on from its start. -/
theorem Laid.branchEnds (hw : r.Wired) (h : N.Laid r s) (hf : N.WellFormed)
    (hd : (N.nodes.map (·.id) ++ ahead).Nodup) (he : r.BranchEnds opener (N.exit s) ahead c) :
    r.BranchEnds opener s (N.nodes.map (·.id) ++ ahead) c := by
  induction N generalizing s ahead with
  | empty => exact he
  | element n =>
    have hcit := isCitable_of_element hf
    refine he.pass hw h.joins (Node.isVariable_of_isCitable hcit) (fun hc => ?_) hf.2.2
      (List.nodup_cons.1 hd).1
    rw [Node.isClose_of_isCitable hcit] at hc
    cases hc
  | series a b iha ihb =>
    rw [Network.nodes, List.map_append, List.append_assoc] at hd ⊢
    exact iha h.left hf.1 hd (ihb h.right hf.2 hd.of_append_right he)
  | parallel o k a b iha ihb =>
    obtain ⟨hmk, hfa, hfb⟩ := hf
    obtain ⟨obr, hok⟩ := hmk.opener_kind
    obtain ⟨kbr, hkk⟩ := hmk.close_kind
    simp only [Network.nodes, List.map_cons, List.map_append] at hd ⊢
    have hov : o.kind.isVariable = false := by rw [hok]; rfl
    have hkv : k.kind.isVariable = false := by rw [hkk]; rfl
    have hoc : o.isClose = true → o.inputId ≠ o.branchId := by
      intro hc
      rw [Node.isClose, hok] at hc
      cases hc
    obtain ⟨hk, hda, ho⟩ := nodup_serial hd
    have hclose := he.pass hw h.close hkv (fun _ => hmk.close_handles) hmk.close_output hk
    have hserial := iha h.serial hfa hda hclose
    exact (hserial.pass hw h.opener hov hoc hmk.opener_output ho).mono passed_subset

theorem Laid.branchEnd_of_mem_pairs (hw : r.Wired) (h : N.Laid r s) (hf : N.WellFormed)
    (hd : (N.nodes.map (·.id)).Nodup) {p : MarkerPair} (hp : p ∈ N.pairs) :
    (ofRung r).branchEnd p.opener (ofRung r).ids
      ((ofRung r).forward p.opener p.opener.branchId) = .ok p.close := by
  induction N generalizing s with
  | empty | element n => cases hp
  | series a b iha ihb =>
    rw [Network.nodes, List.map_append] at hd
    rcases List.mem_append.1 hp with hp | hp
    · exact iha h.left hf.1 hd.of_append_left hp
    · exact ihb h.right hf.2 hd.of_append_right hp
  | parallel o k a b iha ihb =>
    obtain ⟨hmk, hfa, hfb⟩ := hf
    obtain ⟨kbr, hkk⟩ := hmk.close_kind
    simp only [Network.nodes, List.map_cons, List.map_append, List.nodup_cons, List.nodup_append,
      List.mem_cons, List.mem_append] at hd
    obtain ⟨-, hk, hda, hdb, -⟩ := hd
    rcases List.mem_cons.1 hp with rfl | hp
    · have hdb' : (b.nodes.map (·.id) ++ [k.id]).Nodup := by
        refine List.nodup_append.2 ⟨hdb, List.nodup_singleton _, fun x hx y hy e => hk (.inr ?_)⟩
        rwa [← List.mem_singleton.1 hy, ← e]
      have hbr : r.BranchEnds o o.branchPort _ k :=
        h.branch.branchEnds hw hfb hdb' (.rejoin hw h.rejoin hkk)
      apply hbr _
      intro id hid
      rcases List.mem_append.1 hid with hid | hid
      · obtain ⟨n, hn, rfl⟩ := List.mem_map.1 hid
        exact List.mem_map_of_mem (h.branch.nodes n hn)
      · rw [List.mem_singleton.1 hid]
        exact List.mem_map_of_mem h.close.target
    · rcases List.mem_append.1 hp with hp | hp
      · exact iha h.serial hfa hda hp
      · exact ihb h.branch hfb hdb hp

end Network

namespace Ladder

theorem nodup_network (l : Ladder) : (l.network.nodes.map (·.id)).Nodup :=
  (List.nodup_cons.1 (List.nodup_cons.1 l.nodup).2).2

variable {l : Ladder}

theorem nodup_openers : (l.network.pairs.map (·.opener)).Nodup := by
  rw [← Network.filter_isOpen_nodes l.wellFormed]
  exact l.nodup_network.of_map.filter _

theorem nodup_close_ids : (l.network.pairs.map (·.close.id)).Nodup := by
  have hm : l.network.pairs.map (·.close.id) =
      (l.network.nodes.filter Node.isClose).map (·.id) := by
    rw [Network.filter_isClose_nodes l.wellFormed, List.map_map]
    rfl
  rw [hm]
  exact l.nodup_network.sublist (List.filter_sublist.map _)

namespace IsDrawn

variable {r : Rung} (h : l.IsDrawn r)
include h

theorem mem_filter_network {f : Node → Bool} (hf : ∀ n : Node, n.isCitable = true → f n = false)
    {n : Node} (hn : n ∈ r.nodes) (hfn : f n = true) : n ∈ l.network.nodes.filter f := by
  have hrail {m : Node} (hm : m.kind.tag ∈ ["leftRail", "rightRail"]) : f m = false :=
    hf m (Node.isCitable_of_mem hm (by decide))
  rcases h.mem_nodes.1 hn with rfl | rfl | hn
  · rw [hrail (by rw [l.left_kind]; decide)] at hfn; cases hfn
  · rw [hrail (by rw [l.right_kind]; decide)] at hfn; cases hfn
  · exact List.mem_filter.2 ⟨hn, hfn⟩

theorem exists_pair_of_isOpen {n : Node} (hn : n ∈ r.nodes) (ho : n.isOpen = true) :
    ∃ p ∈ l.network.pairs, p.opener = n := by
  have hm := h.mem_filter_network (fun _ => Node.isOpen_of_isCitable) hn ho
  rw [Network.filter_isOpen_nodes l.wellFormed] at hm
  exact List.mem_map.1 hm

theorem exists_pair_of_isClose {n : Node} (hn : n ∈ r.nodes) (hc : n.isClose = true) :
    ∃ p ∈ l.network.pairs, p.close = n := by
  have hm := h.mem_filter_network (fun _ => Node.isClose_of_isCitable) hn hc
  rw [Network.filter_isClose_nodes l.wellFormed] at hm
  exact List.mem_map.1 hm

/-- Pairing finds the groups of the network, in the order in which the rung lists their open
markers. -/
theorem exists_pairs : ∃ ps, (ofRung r).pairs = .ok ps ∧ ps.Perm l.network.pairs ∧
    ps.map (·.opener) = r.nodes.filter Node.isOpen := by
  have hpair : ∀ p ∈ l.network.pairs, (ofRung r).pairOf p.opener = .ok p := by
    intro p hp
    rw [Topology.pairOf,
      h.laid.branchEnd_of_mem_pairs h.wired l.wellFormed l.nodup_network hp]
    rfl
  have hopen : ∀ n ∈ r.nodes.filter Node.isOpen, ∃ p, (ofRung r).pairOf n = .ok p := by
    intro n hn
    obtain ⟨hn, ho⟩ := List.mem_filter.1 hn
    obtain ⟨p, hp, rfl⟩ := h.exists_pair_of_isOpen hn ho
    exact ⟨p, hpair p hp⟩
  obtain ⟨ps, hps⟩ := exists_mapM_eq_ok hopen
  have hopener : ps.map (·.opener) = r.nodes.filter Node.isOpen :=
    (map_of_mapM_eq_ok hps fun _ _ => Topology.opener_of_pairOf).trans (List.map_id' _)
  have hmem (p : MarkerPair) : p ∈ ps ↔ p ∈ l.network.pairs := by
    rw [mem_of_mapM_eq_ok hps]
    constructor
    · rintro ⟨n, hn, hp⟩
      obtain ⟨hn, ho⟩ := List.mem_filter.1 hn
      obtain ⟨q, hq, rfl⟩ := h.exists_pair_of_isOpen hn ho
      obtain rfl := Except.ok.inj ((hpair q hq).symm.trans hp)
      exact hq
    · intro hp
      have ho : p.opener ∈ l.network.nodes.filter Node.isOpen := by
        rw [Network.filter_isOpen_nodes l.wellFormed]
        exact List.mem_map_of_mem hp
      obtain ⟨hn, ho⟩ := List.mem_filter.1 ho
      exact ⟨p.opener, List.mem_filter.2 ⟨h.laid.nodes _ hn, ho⟩, hpair p hp⟩
  have hnd : ps.Nodup := by
    refine List.Nodup.of_map (·.opener) ?_
    rw [hopener]
    exact h.ids.of_map.filter _
  have hperm : ps.Perm l.network.pairs :=
    (List.perm_ext_iff_of_nodup hnd nodup_openers.of_map).2 hmem
  refine ⟨ps, Topology.pairs_eq_ok_iff.2 ⟨hps, ?_, fun k hk hc => ?_⟩, hperm, hopener⟩
  · exact (hperm.map _).nodup_iff.2 nodup_close_ids
  · obtain ⟨p, hp, rfl⟩ := h.exists_pair_of_isClose hk hc
    exact List.mem_map_of_mem (f := (·.close.id)) ((hmem p).2 hp)

end IsDrawn

end Ladder

end LadderDiagram
