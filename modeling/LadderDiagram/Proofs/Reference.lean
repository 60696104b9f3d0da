import LadderDiagram.Proofs.Pass

/-!
# References

Every connection leads back to an element of the same rung. What is known of the
rung is never used: the node behind a connection was found among its nodes,
however malformed the rest of it is.
-/

namespace LadderDiagram

open Body (Connection Element)

theorem Node.isSome_citedPin {n : Node} {pin : Option String} (h : (n.citedPin pin).isSome) :
    n.kind.tag = "block" := by
  unfold citedPin at h
  split at h
  · rename_i hk; rw [hk]; rfl
  · cases h

namespace RungContext

theorem boundPin_eq_some {r : Rung} {index : Nat} {offset : Offset} {n : Node} {c : Connection}
    (h : (r.context index offset).boundPin n = some c) :
    ∃ b ∈ r.nodes, b.kind.tag = "block" ∧ b.numericId = c.refLocalId := by
  rw [boundPin_eq, Option.map_eq_some_iff] at h
  obtain ⟨c, hc, rfl⟩ := h
  obtain ⟨binding, block, -, hb, ht, rfl⟩ := Rung.drawnPin_eq_some_iff.1 hc
  exact ⟨block, Rung.mem_of_node? hb, ht, rfl⟩

end RungContext

/-- A connection of an element cites a node of its rung. -/
theorem Rung.Emits.exists_cited {r : Rung} {index : Nat} {offset : Offset} {m : Node} {e : Element}
    (h : r.Emits index offset m e) {c : Connection} (hc : c ∈ e.connections) :
    ∃ n ∈ r.nodes, n.kind.tag ∈ ["leftRail", "rightRail", "contact", "coil", "block"] ∧
      n.numericId = c.refLocalId ∧ (c.formalParameter.isSome → n.kind.tag = "block") := by
  obtain ⟨-, em, hem, he⟩ := h
  obtain ⟨⟨side, s⟩, hs, hc⟩ := List.mem_flatMap.1 hc
  rcases RungContext.collect_of_mem_sides hem he hs with ⟨-, target, hcs⟩ | ⟨-, hcs⟩
  · obtain ⟨m, l, a, hm, hb, hsrc, hid, hpin⟩ :=
      (RungContext.collect_cites_iff hcs).1 ⟨c, hc, rfl, rfl⟩
    obtain ⟨b, hl⟩ := hm.leads
    have hcit := Node.isCitable_of_isWireSource hsrc hb.1
    refine ⟨a, mem_of_node? (hb.node? hl.node?_source), Node.isCitable_iff.1 hcit, hid, ?_⟩
    intro hp
    rw [← hpin] at hp
    exact Node.isSome_citedPin hp
  · rw [hcs, Option.mem_toList] at hc
    obtain ⟨b, hb, hk, hid⟩ := RungContext.boundPin_eq_some hc
    exact ⟨b, hb, by rw [hk]; decide, hid, fun _ => hk⟩

/-- **Every connection of the body leads to an element of the same rung.** -/
theorem connection_cites_element {config : Config} (hs : config.sharedPowerRails = false)
    {rungs : List Rung} {e : Element} (he : e ∈ (lower config rungs).body.elements) :
    (∃ i r m, Contributes config rungs i r m e) ∧
      ∀ i r m, Contributes config rungs i r m e → ∀ c ∈ e.connections,
        ∃ n s, Contributes config rungs i r n s ∧ s ∈ (lower config rungs).body.elements ∧
          s.localId = c.refLocalId ∧
          n.kind.tag ∈ ["leftRail", "rightRail", "contact", "coil", "block"] ∧
          (c.formalParameter.isSome → n.kind.tag = "block") := by
  refine ⟨exists_contributes he, ?_⟩
  intro i r m hm c hc
  obtain ⟨o, -, -, rfl, -, e₀, he₀, rfl⟩ := id hm
  rw [Element.connections_adapted, if_neg (by rw [hs]; simp)] at hc
  obtain ⟨c₀, hc₀, rfl⟩ := List.mem_map.1 hc
  obtain ⟨n, hn, htag, hid, hpin⟩ := he₀.exists_cited hc₀
  obtain ⟨s, hcon⟩ := hm.exists_sibling hn (Node.isCitable_iff.2 htag)
  refine ⟨n, s, hcon, hcon.mem_elements (by rw [hs]; simp), ?_, htag, fun hp => hpin ?_⟩
  · rw [hcon.localId.1, hid, Body.Connection.refLocalId_adapted _ _ hs]
  · rwa [Body.Connection.isSome_formalParameter_adapted] at hp

/-- An open marker without a close one, and below it a block between a rail and a coil, its
output pin bound to a variable as well. -/
def blockBelowLoneMarker : List Rung :=
  [{ nodes := [{ id := "o", numericId := 9, kind := .parallelOpen { id := "down" } }] },
    { nodes := [
        { id := "rail", numericId := 1, kind := .leftRail },
        { id := "b", numericId := 2,
          kind := .block { typeName := "NOT", inputs := [{ id := "IN" }],
                           outputs := [{ id := "OUT" }] } },
        { id := "x", numericId := 3, kind := .variableOut { name := "x" } },
        { id := "y", numericId := 4, kind := .coil "y" .normal }]
      edges := [⟨"rail", "out", "b", "IN"⟩, ⟨"b", "OUT", "y", "in"⟩]
      bindings := [⟨"x", "b", "OUT"⟩] }]

theorem coil_cites_block :
    (Config.ofDialect .openPlc).sharedPowerRails = false ∧
      ∃ e ∈ (lower (.ofDialect .openPlc) blockBelowLoneMarker).body.elements,
        e.localId = 4 ∧ e.refs = [2] ∧
        ∃ i r m, Contributes (.ofDialect .openPlc) blockBelowLoneMarker i r m e ∧
          ∀ c ∈ e.connections, ∃ n s,
            Contributes (.ofDialect .openPlc) blockBelowLoneMarker i r n s ∧
            s ∈ (lower (.ofDialect .openPlc) blockBelowLoneMarker).body.elements ∧
            s.localId = c.refLocalId ∧
            n.kind.tag ∈ ["leftRail", "rightRail", "contact", "coil", "block"] ∧
            (c.formalParameter.isSome → n.kind.tag = "block") := by
  refine ⟨rfl, ?_⟩
  have hm : (4, [2]) ∈ (lower (.ofDialect .openPlc) blockBelowLoneMarker).body.elements.map
      fun e => (e.localId, e.refs) := by decide +kernel
  obtain ⟨e, he, hr⟩ := List.mem_map.1 hm
  obtain ⟨⟨i, r, m, hc⟩, hall⟩ := connection_cites_element rfl he
  exact ⟨e, he, (Prod.mk.inj hr).1, (Prod.mk.inj hr).2, i, r, m, hc, hall i r m hc⟩

end LadderDiagram
