import LadderDiagram.Proofs.SeriesParallel.Wiring

/-!
# Tracing back through a network

What a resolution names that starts from the end of a network, given what one
names that starts from where the network begins. The induction is on the
network; a resolution meets every marker of it once, so it does not run out of
markers that it has not met.
-/

namespace LadderDiagram

open LadderDiagram.Topology (ofRung Resolves without mem_without)

namespace Source

theorem map_node_distinctFrom {l : List Source} {seen : List String}
    (hl : ∀ s ∈ l, ∀ s' ∈ l, s.node.id = s'.node.id → s.node = s'.node) :
    (distinctFrom seen l).map (·.node) =
      ((l.map (·.node)).filter (·.id ∉ seen)).eraseDups := by
  induction l generalizing seen with
  | nil => rfl
  | cons a l ih =>
    have hl' : ∀ s ∈ l, ∀ s' ∈ l, s.node.id = s'.node.id → s.node = s'.node :=
      fun s hs s' hs' => hl s (List.mem_cons_of_mem _ hs) s' (List.mem_cons_of_mem _ hs')
    unfold distinctFrom
    by_cases ha : a.node.id ∈ seen
    · rw [if_pos ha, ih hl', List.map_cons, List.filter_cons_of_neg (by simpa using ha)]
    · rw [if_neg ha, List.map_cons, ih hl', List.map_cons,
        List.filter_cons_of_pos (by simpa using ha), List.eraseDups_cons, List.filter_filter]
      refine congrArg (a.node :: List.eraseDups ·) (List.filter_congr fun n hn => ?_)
      obtain ⟨s, hs, rfl⟩ := List.mem_map.1 hn
      have he : s.node.id = a.node.id ↔ s.node = a.node :=
        ⟨hl s (List.mem_cons_of_mem _ hs) a List.mem_cons_self, congrArg _⟩
      by_cases hsa : s.node = a.node
      · simp [hsa]
      · simp [hsa, he]

theorem map_node_distinct {l : List Source}
    (hl : ∀ s ∈ l, ∀ s' ∈ l, s.node.id = s'.node.id → s.node = s'.node) :
    (distinct l).map (·.node) = (l.map (·.node)).eraseDups := by
  rw [distinct, map_node_distinctFrom hl]
  simp

@[simp] theorem map_node_through (c : Connector) (l : List Source) :
    (through c l).map (·.node) = l.map (·.node) := by
  simp [through]

end Source

/-- What is wired to the port stands for the nodes `feed`, in this order. The markers on the way
are among those with the ids `met`. -/
def Rung.StandsFor (r : Rung) (p : Port) (met : List String) (feed : List Node) : Prop :=
  ∀ fresh, (∀ id ∈ met, id ∈ fresh) →
    ∃ res, Resolves (ofRung r) fresh (some p.handle) p.node res ∧ res.sources.map (·.node) = feed

namespace Rung.StandsFor

variable {r : Rung} {p : Port} {met : List String} {feed : List Node}

theorem mono {met' : List String} (h : r.StandsFor p met feed) (hm : ∀ id ∈ met, id ∈ met') :
    r.StandsFor p met' feed :=
  fun fresh hf => h fresh fun id hid => hf id (hm id hid)

theorem direct (hp : p.node.kind.isParallel = false) : r.StandsFor p [] [p.node] :=
  fun _ _ => ⟨.direct p.node, .direct hp, rfl⟩

theorem opener {n : Node} {branch : Connector} (hw : r.Wired) (hk : n.kind = .parallelOpen branch)
    (hj : r.Joins p n.inPort) (h : r.StandsFor p met feed) (hn : n.id ∉ met) (handle : String) :
    r.StandsFor ⟨n, handle⟩ (n.id :: met) feed := by
  intro fresh hf
  have hc : n.isClose = false := by rw [Node.isClose, hk]
  obtain ⟨res, hres, hs⟩ := h (without fresh n.id) fun id hid =>
    mem_without.2 ⟨hf id (List.mem_cons_of_mem _ hid), fun e => hn (e ▸ hid)⟩
  refine ⟨_, .opener hk (hf _ List.mem_cons_self) (hw.incoming_eq hj hc) hres, ?_⟩
  unfold Resolution.behindOpen
  split
  · rw [Source.map_node_through, hs]
  · exact hs

theorem close {n : Node} {branch : Connector} {q : Port} {feed' : List Node} (hw : r.Wired)
    (hk : n.kind = .parallelClose branch) (hne : n.inputId ≠ n.branchId)
    (hp : r.Joins p n.inPort) (hq : r.Joins q n.branchPort) (h : r.StandsFor p met feed)
    (h' : r.StandsFor q met feed') (hn : n.id ∉ met) (hmem : ∀ a ∈ feed ++ feed', a ∈ r.nodes)
    (handle : String) : r.StandsFor ⟨n, handle⟩ (n.id :: met) (feed ++ feed').eraseDups := by
  intro fresh hf
  have hfresh : ∀ id ∈ met, id ∈ without fresh n.id := fun id hid =>
    mem_without.2 ⟨hf id (List.mem_cons_of_mem _ hid), fun e => hn (e ▸ hid)⟩
  obtain ⟨serial, hserial, hs⟩ := h _ hfresh
  obtain ⟨parallel, hparallel, hp'⟩ := h' _ hfresh
  refine ⟨_, .close hk (hf _ List.mem_cons_self) (hw.partition_incoming hk hne hp hq) hserial
    hparallel, ?_⟩
  have hall : (serial.sources ++ Source.through branch parallel.sources).map (·.node) =
      feed ++ feed' := by
    rw [List.map_append, Source.map_node_through, hs, hp']
  rw [Resolution.behindClose, ← hall]
  apply Source.map_node_distinct
  intro s hs s' hs' e
  have hmem' {s : Source} (hs : s ∈ serial.sources ++ Source.through branch parallel.sources) :
      s.node ∈ r.nodes := hmem _ (hall ▸ List.mem_map_of_mem hs)
  exact List.inj_on_of_nodup_map hw.ids (hmem' hs) (hmem' hs') e

end Rung.StandsFor

namespace Network

variable {N : Network} {r : Rung} {s : Port} {met : List String} {feed : List Node}

theorem mem_ends {n : Node} (h : n ∈ N.ends feed) : n ∈ feed ∨ n ∈ N.nodes := by
  induction N generalizing feed with
  | empty => exact .inl h
  | element m => exact .inr h
  | series a b iha ihb =>
    rw [nodes, List.mem_append]
    rcases ihb h with h | h
    · exact (iha h).imp_right .inl
    · exact .inr (.inr h)
  | parallel o c a b iha ihb =>
    rw [ends, List.mem_eraseDups, List.mem_append] at h
    simp only [nodes, List.mem_cons, List.mem_append]
    rcases h with h | h
    · exact (iha h).imp_right fun h => .inr (.inr (.inl h))
    · exact (ihb h).imp_right fun h => .inr (.inr (.inr h))

theorem Laid.ends_mem (h : N.Laid r s) (hm : ∀ a ∈ feed, a ∈ r.nodes) :
    ∀ n ∈ N.ends feed, n ∈ r.nodes :=
  fun n hn => (mem_ends hn).elim (hm n) (h.nodes n)

/-- The ids of a group, told apart from one another and from those met before. -/
theorem nodup_group {o c : String} {as bs : List String}
    (h : (met ++ o :: c :: (as ++ bs)).Nodup) :
    o ∉ met ∧ (o :: met ++ as).Nodup ∧ (o :: met ++ bs).Nodup ∧ c ∉ o :: met ++ (as ++ bs) := by
  simp only [List.nodup_append, List.nodup_cons, List.mem_cons, List.mem_append] at h ⊢
  grind

section
variable {o c : String} {as bs : List String}

/-- What is met on the way through a group, in the order of its nodes. -/
theorem group_subset : c :: (o :: met ++ (as ++ bs)) ⊆ met ++ o :: c :: (as ++ bs) := by
  intro id hid
  simp only [List.cons_append, List.mem_cons, List.mem_append] at hid ⊢
  tauto

theorem serial_subset : o :: met ++ as ⊆ o :: met ++ (as ++ bs) :=
  ((List.sublist_append_left as bs).append_left _).subset

theorem branch_subset : o :: met ++ bs ⊆ o :: met ++ (as ++ bs) :=
  ((List.sublist_append_right as bs).append_left _).subset

end

/-- The end of a network stands for the elements that the recursive structure names. -/
theorem Laid.standsFor_exit (hw : r.Wired) (h : N.Laid r s) (hf : N.WellFormed)
    (hd : (met ++ N.nodes.map (·.id)).Nodup) (hm : ∀ a ∈ feed, a ∈ r.nodes)
    (hs : r.StandsFor s met feed) :
    r.StandsFor (N.exit s) (met ++ N.nodes.map (·.id)) (N.ends feed) := by
  induction N generalizing s met feed with
  | empty => exact hs.mono fun id hid => List.mem_append_left _ hid
  | element n =>
    have hn := Node.isParallel_of_isCitable (isCitable_of_element hf)
    exact (Rung.StandsFor.direct (p := n.outPort) hn).mono fun _ hid => (List.not_mem_nil hid).elim
  | series a b iha ihb =>
    rw [Network.nodes, List.map_append, ← List.append_assoc] at hd ⊢
    have ha := iha h.left hf.1 hd.of_append_left hm hs
    exact ihb h.right hf.2 hd (h.left.ends_mem hm) ha
  | parallel o c a b iha ihb =>
    obtain ⟨hmk, hfa, hfb⟩ := hf
    obtain ⟨obr, hok⟩ := hmk.opener_kind
    obtain ⟨cbr, hck⟩ := hmk.close_kind
    simp only [Network.nodes, List.map_cons, List.map_append] at hd ⊢
    obtain ⟨ho, hda, hdb, hc⟩ := nodup_group hd
    have hout (handle : String) := Rung.StandsFor.opener hw hok h.opener hs ho handle
    have ha := iha h.serial hfa hda hm (hout _)
    have hb := ihb h.branch hfb hdb hm (hout _)
    have hmem : ∀ n ∈ a.ends feed ++ b.ends feed, n ∈ r.nodes := by
      intro n hn
      rcases List.mem_append.1 hn with hn | hn
      · exact h.serial.ends_mem hm n hn
      · exact h.branch.ends_mem hm n hn
    have hclose := Rung.StandsFor.close hw hck hmk.close_handles h.close h.rejoin
      (ha.mono serial_subset) (hb.mono branch_subset) hc hmem c.outputId
    exact hclose.mono group_subset

/-- The wire into each element of a network comes from what the element has to cite. -/
theorem Laid.standsFor_citation (hw : r.Wired) (h : N.Laid r s) (hf : N.WellFormed)
    (hd : (met ++ N.nodes.map (·.id)).Nodup) (hm : ∀ a ∈ feed, a ∈ r.nodes)
    (hs : r.StandsFor s met feed) {n : Node} {cited : List Node}
    (hn : (n, cited) ∈ N.citations feed) :
    n ∈ N.nodes ∧ n.kind.tag ∈ ["contact", "coil"] ∧
      ∃ p, r.Joins p n.inPort ∧ r.StandsFor p (met ++ N.nodes.map (·.id)) cited := by
  induction N generalizing s met feed with
  | empty => cases hn
  | element m =>
    cases List.mem_singleton.1 hn
    exact ⟨List.mem_singleton_self _, hf.1, s, h.joins,
      hs.mono fun id hid => List.mem_append_left _ hid⟩
  | series a b iha ihb =>
    rw [Network.nodes, List.map_append, ← List.append_assoc] at hd ⊢
    rcases List.mem_append.1 hn with hn | hn
    · obtain ⟨hmem, ht, p, hj, hp⟩ := iha h.left hf.1 hd.of_append_left hm hs hn
      exact ⟨List.mem_append_left _ hmem, ht, p, hj,
        hp.mono fun id hid => List.mem_append_left _ hid⟩
    · have ha := h.left.standsFor_exit hw hf.1 hd.of_append_left hm hs
      obtain ⟨hmem, ht, p, hj, hp⟩ := ihb h.right hf.2 hd (h.left.ends_mem hm) ha hn
      exact ⟨List.mem_append_right _ hmem, ht, p, hj, hp⟩
  | parallel o c a b iha ihb =>
    obtain ⟨hmk, hfa, hfb⟩ := hf
    obtain ⟨obr, hok⟩ := hmk.opener_kind
    simp only [Network.nodes, List.map_cons, List.map_append] at hd ⊢
    obtain ⟨ho, hda, hdb, -⟩ := nodup_group hd
    have hout (handle : String) := Rung.StandsFor.opener hw hok h.opener hs ho handle
    rcases List.mem_append.1 hn with hn | hn
    · obtain ⟨hmem, ht, p, hj, hp⟩ := iha h.serial hfa hda hm (hout _) hn
      exact ⟨.tail _ (.tail _ (List.mem_append_left _ hmem)), ht, p, hj,
        hp.mono fun id hid => group_subset (.tail _ (serial_subset hid))⟩
    · obtain ⟨hmem, ht, p, hj, hp⟩ := ihb h.branch hfb hdb hm (hout _) hn
      exact ⟨.tail _ (.tail _ (List.mem_append_right _ hmem)), ht, p, hj,
        hp.mono fun id hid => group_subset (.tail _ (branch_subset hid))⟩

end Network

end LadderDiagram
