import LadderDiagram.Proofs.Identity
import LadderDiagram.Proofs.PowerFlow

/-!
# Shared rails

Where rails are shared, the body keeps one rail on either side. What cited a left rail cites the
one that is kept, and all else is cited as before. A right rail that is dropped has nothing in its
place, so what it fed cites an element that is not in the body. `shared_rails_cited_iff` says that
nothing else dangles, `secondRightRail_dangles` shows a reference that does.
-/

namespace LadderDiagram

open Body (Connection Element)

def Config.unshared (config : Config) : Config := { config with sharedPowerRails := false }

/-- The connection `c'` of a body with shared rails stands for the connection `c` of the body
before. -/
structure Body.Redirects (before after : Body) (c c' : Connection) : Prop where
  /-- What cited a left rail cites the one that is left. -/
  leftRail : c.refLocalId ∈ before.leftRails.map (·.localId) →
    after.leftRails.map (·.localId) = [c'.refLocalId]
  other : c.refLocalId ∉ before.leftRails.map (·.localId) → c'.refLocalId = c.refLocalId
  frame : c' = { c with refLocalId := c'.refLocalId }

/-- In a rung that is exported, the right rail with the given local id feeds a contact, a coil or a
pin of a block, straight or by way of markers. -/
def FedByRightRail (config : Config) (rungs : List Rung) (id : UInt64) : Prop :=
  ∃ i r n e, Contributes config rungs i r n e ∧ n.kind.tag ∈ ["contact", "coil", "block"] ∧
    ∃ side ∈ n.sides, ∃ m l a, r.Enters m l n side ∧ r.Behind a m ∧ a.kind.tag = "rightRail" ∧
      a.numericId = id

theorem Node.tag_of_mem_sides {n : Node} {side : Option String} (h : side ∈ n.sides) :
    n.kind.tag ∈ ["rightRail", "contact", "coil", "block"] := by
  unfold sides at h
  cases hk : n.kind with
  | rightRail | contact | coil | block => simp [NodeKind.tag]
  | _ => rw [hk] at h; cases h

/-- A connection of an element leads to a node of its rung; if that is a right rail, it stands at
the far end of a wire into the element's node. -/
theorem Rung.Emits.exists_source {r : Rung} {index : Nat} {offset : Offset} {n : Node} {e : Element}
    (h : r.Emits index offset n e) {id : UInt64} (hid : id ∈ e.refs) :
    ∃ a ∈ r.nodes, a.isCitable = true ∧ a.numericId = id ∧
      (a.kind.tag = "rightRail" →
        ∃ side ∈ n.sides, ∃ m l, r.Enters m l n side ∧ r.Behind a m) := by
  obtain ⟨-, em, hem, he⟩ := h
  obtain ⟨side, s, hs, c, hc, rfl⟩ := Element.mem_refs_iff.1 hid
  rcases RungContext.collect_of_mem_sides hem he hs with ⟨hside, target, hcs⟩ | ⟨-, hcs⟩
  · obtain ⟨m, l, a, hm, hb, hsrc, hid, -⟩ :=
      (RungContext.collect_cites_iff hcs).1 ⟨c, hc, rfl, rfl⟩
    obtain ⟨b, hl⟩ := hm.leads
    exact ⟨a, mem_of_node? (hb.node? hl.node?_source),
      Node.isCitable_of_isWireSource hsrc hb.1, hid, fun _ => ⟨side, hside, m, l, hm, hb⟩⟩
  · rw [hcs, Option.mem_toList] at hc
    obtain ⟨b, hb, hk, hid⟩ := RungContext.boundPin_eq_some hc
    refine ⟨b, hb, Node.isCitable_iff.2 (by rw [hk]; decide), hid, fun ht => ?_⟩
    rw [hk] at ht
    exact absurd ht (by decide)

namespace Body

theorem mem_rightRails_of_tag {b : Body} {e : Element} (he : e ∈ b.elements)
    (ht : e.tag = "rightRail") : ∃ x ∈ b.rightRails, e = .rightRail x := by
  cases e with
  | rightRail x => exact ⟨x, by simpa [elements] using he, rfl⟩
  | _ => simp [Element.tag] at ht

theorem map_rails_adapt (config : Config) (b : Body) :
    (b.adapt config).leftRails.map (·.localId) =
        (b.cutRails config).leftRails.map (·.localId) ∧
      (b.adapt config).rightRails.map (·.localId) =
        (b.cutRails config).rightRails.map (·.localId) := by
  have h := localIds_adapt config b
  simp only [localIds, List.cons.injEq] at h
  exact ⟨h.1, h.2.1⟩

theorem map_rightRails_eq {config : Config} (hs : config.sharedPowerRails = true) {b : Body}
    {id : UInt64} (h : id ∈ (b.adapt config).rightRails.map (·.localId)) :
    (b.adapt config).rightRails.map (·.localId) = [id] := by
  rw [(map_rails_adapt config b).2, cutRails, if_pos hs, firstRails] at h ⊢
  cases hrails : b.rightRails with
  | nil => rw [hrails] at h; cases h
  | cons first rest =>
    rw [hrails] at h
    rw [List.mem_singleton.1 h]
    rfl

end Body

section
variable {config : Config} (hs : config.sharedPowerRails = true) {rungs : List Rung}
include hs

/-- What cites a left rail cites the first of them once rails are shared. -/
theorem redirects_adapted (c : Connection) :
    Body.Redirects (lower config.unshared rungs).body (lower config rungs).body
      (c.adapted config.unshared (plainBody rungs).redirect)
      (c.adapted config (plainBody rungs).redirect) := by
  have hafter := (Body.map_rails_adapt config (plainBody rungs)).1
  have hbefore := (Body.map_rails_adapt config.unshared (plainBody rungs)).1
  rw [Body.cutRails, if_pos hs] at hafter
  rw [Body.cutRails, if_neg (by simp [Config.unshared])] at hbefore
  have hid : (c.adapted config (plainBody rungs).redirect).refLocalId =
      (plainBody rungs).redirect c.refLocalId := if_pos hs
  refine ⟨fun hm => ?_, fun hm => ?_, ?_⟩
  · rw [body_lower, hbefore] at hm
    change c.refLocalId ∈ (plainBody rungs).leftRails.map (·.localId) at hm
    rw [body_lower, hafter, hid, Body.redirect, Body.firstRails]
    cases hrails : (plainBody rungs).leftRails with
    | nil => rw [hrails] at hm; cases hm
    | cons first rest =>
      rw [hrails] at hm
      simp only [if_pos hm]
      rfl
  · rw [body_lower, hbefore] at hm
    exact hid.trans (Body.redirect_of_not_mem hm)
  · rfl

/-- A body with shared rails holds elements of the body before, with the connections that stand
for theirs; only a right rail has lost them. -/
theorem exists_unshared {e : Element} (he : e ∈ (lower config rungs).body.elements) :
    ∃ e' ∈ (lower config.unshared rungs).body.elements,
      e'.localId = e.localId ∧ e'.tag = e.tag ∧
      if e.tag = "rightRail" then e.connections = [] else
        List.Forall₂ (Body.Redirects (lower config.unshared rungs).body (lower config rungs).body)
          e'.connections e.connections := by
  rw [body_lower, Body.mem_elements_adapt] at he
  obtain ⟨e₀, he₀, -, rfl⟩ := he
  refine ⟨e₀.adapted config.unshared (plainBody rungs).redirect, ?_, by simp, by simp, ?_⟩
  · rw [body_lower, Body.mem_elements_adapt]
    exact ⟨e₀, he₀, by simp [Config.unshared], rfl⟩
  · rw [Element.tag_adapted, Element.connections_adapted, Element.connections_adapted]
    by_cases ht : e₀.tag = "rightRail"
    · rw [if_pos ht, if_pos ⟨hs, ht⟩]
    · rw [if_neg ht, if_neg fun h => ht h.2, if_neg fun h => ht h.2, List.forall₂_map_left_iff,
        List.forall₂_map_right_iff, List.forall₂_same]
      intro c _
      exact redirects_adapted hs c

variable (hd : (rungs.flatMap fun r => r.nodes.map (·.numericId)).Nodup)
include hd

omit hs in
theorem Contributes.citedId_of_rightRail {i : Nat} {r : Rung} {a : Node} {t : Element}
    (hc : Contributes config rungs i r a t) (hk : a.kind.tag = "rightRail") :
    citedId config rungs a.numericId = a.numericId := by
  obtain ⟨t₀, ht₀, ⟨offset, hem⟩, -⟩ := hc.exists_plain
  obtain ⟨hid, htag⟩ := hem.localId
  rw [← hid]
  exact citedId_of_tag_ne hd ht₀ (by rw [htag, hk]; decide)

/-- A reference that leads to nothing is one to a right rail. -/
theorem cited_or_fedByRightRail {e : Element} (he : e ∈ (lower config rungs).body.elements)
    {id : UInt64} (hid : id ∈ e.refs) :
    (∃ s ∈ (lower config rungs).body.elements, s.localId = id) ∨
      FedByRightRail config rungs id := by
  obtain ⟨i, r, n, hc⟩ := exists_contributes he
  obtain ⟨e₀, -, ⟨offset, he₀⟩, rfl⟩ := hc.exists_plain
  rw [Element.refs_adapted] at hid
  by_cases hrail : e₀.tag = "rightRail"
  · rw [if_pos ⟨hs, hrail⟩] at hid
    cases hid
  rw [if_neg fun h => hrail h.2] at hid
  obtain ⟨id₀, hid₀, rfl⟩ := List.mem_map.1 hid
  obtain ⟨a, ha, hcit, rfl, hfed⟩ := he₀.exists_source hid₀
  obtain ⟨t, ht⟩ := hc.exists_sibling ha hcit
  by_cases hk : a.kind.tag = "rightRail"
  · obtain ⟨side, hside, m, l, hm, hb⟩ := hfed hk
    have htag : n.kind.tag ∈ ["contact", "coil", "block"] := by
      rcases List.mem_cons.1 (Node.tag_of_mem_sides hside) with h | h
      · exact (hrail (he₀.localId.2.trans h)).elim
      · exact h
    exact .inr ⟨i, r, n, _, hc, htag, side, hside, m, l, a, hm, hb, hk,
      (ht.citedId_of_rightRail hd hk).symm⟩
  · exact .inl (ht.exists_cited hd hk)

omit hs in
theorem FedByRightRail.exists_mem_refs {id : UInt64} (h : FedByRightRail config rungs id) :
    (∃ i r a t, Contributes config rungs i r a t ∧ a.kind.tag = "rightRail" ∧ a.numericId = id) ∧
      ∃ e ∈ (lower config rungs).body.elements, id ∈ e.refs := by
  obtain ⟨i, r, n, e, hc, htag, side, hside, m, l, a, hm, hb, hk, rfl⟩ := h
  obtain ⟨x, hl⟩ := hm.leads
  have hcit : a.isCitable = true := Node.isCitable_iff.2 (by rw [hk]; decide)
  obtain ⟨t, ht⟩ := hc.exists_sibling (Rung.mem_of_node? (hb.node? hl.node?_source)) hcit
  have hne : e.tag ≠ "leftRail" ∧ e.tag ≠ "rightRail" := by
    rw [hc.localId.2]
    constructor <;> intro h <;> rw [h] at htag <;> simp at htag
  refine ⟨⟨i, r, a, t, ht, hk, rfl⟩, e, hc.mem_elements fun _ => hne, ?_⟩
  obtain ⟨e₀, -, ⟨offset, -, em, hem, he₀⟩, rfl⟩ := hc.exists_plain
  obtain ⟨s, hs, c, hcs, hid, -⟩ := (RungContext.cites_iff hem he₀ hside).2
    ⟨m, l, a, hm, hb, Node.isWireSource_of_isCitable hcit, rfl, rfl⟩
  rw [Element.tag_adapted] at hne
  rw [Element.refs_adapted, if_neg fun h => hne.2 h.2]
  have href : a.numericId ∈ e₀.refs := Element.mem_refs_iff.2 ⟨side, s, hs, c, hcs, hid⟩
  exact List.mem_map.2 ⟨_, href, ht.citedId_of_rightRail hd hk⟩

/-- **What sharing rails does to references.** Every element of the body stands in the body before
as well; a connection that cited a left rail cites the one that is kept, and any other cites what
it cited, but a right rail has no connections left. No reference leads to nothing exactly if every
right rail that feeds a contact, a coil or a block is the one that is kept. -/
theorem shared_rails_cited_iff :
    (∀ e ∈ (lower config rungs).body.elements,
      ∃ e' ∈ (lower config.unshared rungs).body.elements,
        e'.localId = e.localId ∧ e'.tag = e.tag ∧
        if e.tag = "rightRail" then e.connections = [] else
          List.Forall₂
            (Body.Redirects (lower config.unshared rungs).body (lower config rungs).body)
            e'.connections e.connections) ∧
      ((∀ e ∈ (lower config rungs).body.elements, ∀ id ∈ e.refs,
          ∃ s ∈ (lower config rungs).body.elements, s.localId = id) ↔
        ∀ id, FedByRightRail config rungs id →
          (lower config rungs).body.rightRails.map (·.localId) = [id]) := by
  refine ⟨fun e he => exists_unshared hs he, fun hall id hfed => ?_, fun hkept e he id hid => ?_⟩
  · obtain ⟨⟨i, r, a, t, ht, hk, rfl⟩, e, he, hid⟩ := hfed.exists_mem_refs hd
    obtain ⟨s, hmem, hsid⟩ := hall e he _ hid
    have hst : s = t := by
      rcases ht.eq_of_cited hd hmem (hsid.trans (ht.citedId_of_rightRail hd hk).symm) with
        ⟨hl, -⟩ | h
      · rw [hl] at hk
        exact absurd hk (by decide)
      · exact h
    obtain ⟨x, hx, rfl⟩ := Body.mem_rightRails_of_tag hmem (by rw [hst, ht.localId.2, hk])
    exact Body.map_rightRails_eq hs (hsid ▸ List.mem_map_of_mem hx)
  · rcases cited_or_fedByRightRail hs hd he hid with h | hfed
    · exact h
    · have hrail : id ∈ (lower config rungs).body.rightRails.map (·.localId) := by
        rw [hkept id hfed]
        exact List.mem_singleton_self _
      obtain ⟨x, hx, hxid⟩ := List.mem_map.1 hrail
      exact ⟨.rightRail x, by simp [Body.elements, hx], hxid⟩

end

/-- Two rungs between rails. The coil of the second is wired to its right rail, and to its left
one. -/
def rightRailBeforeCoil : List Rung :=
  [{ nodes := [
      { id := "left", numericId := 1, kind := .leftRail },
      { id := "x", numericId := 2, kind := .coil "x" .normal },
      { id := "right", numericId := 3, kind := .rightRail }]
     edges := [⟨"left", "out", "x", "in"⟩, ⟨"x", "out", "right", "in"⟩] },
    { nodes := [
      { id := "left", numericId := 4, kind := .leftRail },
      { id := "y", numericId := 5, kind := .coil "y" .normal },
      { id := "right", numericId := 6, kind := .rightRail }]
      edges := [⟨"left", "out", "y", "in"⟩, ⟨"right", "out", "y", "in"⟩] }]

/-- The rail is dropped, and the coil still cites it. -/
theorem secondRightRail_dangles :
    (Config.ofDialect .codesys).sharedPowerRails = true ∧
      (rightRailBeforeCoil.flatMap fun r => r.nodes.map (·.numericId)).Nodup ∧
      ∃ e ∈ (lower (.ofDialect .codesys) rightRailBeforeCoil).body.elements,
        e.localId = 5 ∧ ∃ id ∈ e.refs,
          ∀ s ∈ (lower (.ofDialect .codesys) rightRailBeforeCoil).body.elements,
            s.localId ≠ id := by
  decide +kernel

/-- The coil cited the left rail of its rung and cites that of the first instead; the right rail
that feeds it is not the one that is kept. -/
theorem rightRailBeforeCoil_cited :
    (Config.ofDialect .codesys).sharedPowerRails = true ∧
      (rightRailBeforeCoil.flatMap fun r => r.nodes.map (·.numericId)).Nodup ∧
      (∃ e ∈ (lower (.ofDialect .codesys) rightRailBeforeCoil).body.elements,
        ∃ e' ∈ (lower (Config.ofDialect .codesys).unshared rightRailBeforeCoil).body.elements,
          e.localId = 5 ∧ e.refs = [1, 6] ∧ e'.localId = 5 ∧ e'.refs = [4, 6] ∧
          List.Forall₂
            (Body.Redirects
              (lower (Config.ofDialect .codesys).unshared rightRailBeforeCoil).body
              (lower (.ofDialect .codesys) rightRailBeforeCoil).body)
            e'.connections e.connections) ∧
      ∃ id, FedByRightRail (.ofDialect .codesys) rightRailBeforeCoil id ∧
        (lower (.ofDialect .codesys) rightRailBeforeCoil).body.rightRails.map (·.localId) ≠
          [id] := by
  have hs : (Config.ofDialect .codesys).sharedPowerRails = true := rfl
  have hd : (rightRailBeforeCoil.flatMap fun r => r.nodes.map (·.numericId)).Nodup := by
    decide +kernel
  obtain ⟨hstands, hiff⟩ := shared_rails_cited_iff hs hd
  have hcoil : ∃ e ∈ (lower (.ofDialect .codesys) rightRailBeforeCoil).body.elements,
      e.localId = 5 ∧ e.tag ≠ "rightRail" ∧ e.refs = [1, 6] ∧
        ¬ ∃ s ∈ (lower (.ofDialect .codesys) rightRailBeforeCoil).body.elements,
          s.localId = 6 := by decide +kernel
  have hbefore : ∀ e' ∈
      (lower (Config.ofDialect .codesys).unshared rightRailBeforeCoil).body.elements,
        e'.localId = 5 → e'.refs = [4, 6] := by decide +kernel
  obtain ⟨e, he, hid, htag, hrefs, hlost⟩ := hcoil
  obtain ⟨e', he', hid', -, hconn⟩ := hstands e he
  rw [if_neg htag] at hconn
  refine ⟨hs, hd, ⟨e, he, e', he', hid, hrefs, hid'.trans hid,
    hbefore e' he' (hid'.trans hid), hconn⟩, ?_⟩
  by_contra hkept
  push Not at hkept
  exact hlost (hiff.2 hkept e he 6 (by rw [hrefs]; decide))

end LadderDiagram
