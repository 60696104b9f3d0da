import LadderDiagram.Proofs.PowerFlow

/-!
# Wires of a clean report

A report that tells of nothing should have lost nothing. Every wire into a contact, a coil or a
right rail is cited by the element of its target; into a block only the wires are that end on a
pin the block declares. `clean_report_cites_iff` says so of each wire, `strayWire_not_cited` shows
one that is lost while the report is clean.
-/

namespace LadderDiagram

open Body (Element)

namespace Body.Element

/-- The local ids that the element cites, each with the side on which it does. -/
def citations (e : Element) : List (Option String × UInt64) :=
  e.sides.flatMap fun p => p.2.connections.map fun c => (p.1, c.refLocalId)

/-- The element cites a local id where the edge ends: on its single side, or at the pin that the
edge names. -/
def CitesAt (e : Element) (l : Edge) (id : UInt64) : Prop :=
  ∃ side, (side, id) ∈ e.citations ∧ ∀ h ∈ side, l.targetHandle = h

theorem mem_citations {e : Element} {side : Option String} {id : UInt64} :
    (side, id) ∈ e.citations ↔ ∃ pin, e.Cites side id pin := by
  simp only [citations, Cites, List.mem_flatMap, List.mem_map, Prod.mk.injEq, Prod.exists]
  constructor
  · rintro ⟨_, s, hs, c, hc, rfl, rfl⟩
    exact ⟨c.formalParameter, s, hs, c, hc, rfl, rfl⟩
  · rintro ⟨_, s, hs, c, hc, rfl, -⟩
    exact ⟨side, s, hs, c, hc, rfl, rfl⟩

theorem citations_mapInputs {f : InputSide → InputSide}
    (h : ∀ s, (f s).connections.map (·.refLocalId) = s.connections.map (·.refLocalId))
    (e : Element) : (e.mapInputs f).citations = e.citations := by
  have hside (p : Option String × InputSide) :
      (f p.2).connections.map (fun c => (p.1, c.refLocalId)) =
        p.2.connections.map fun c => (p.1, c.refLocalId) := by
    simpa [Function.comp_def] using congrArg (List.map (p.1, ·)) (h p.2)
  rw [citations, sides_mapInputs, List.flatMap_map]
  simp only [hside]
  rfl

theorem citations_stripped (e : Element) : e.stripped.citations = e.citations := by
  rw [stripped, citations, sides_mapOutputs]
  exact citations_mapInputs (fun s => by simp) e

theorem citations_blanked (e : Element) : e.blanked.citations = e.citations := by
  have h : e.blanked.citations = (e.mapConnections fun c =>
      { c with formalParameter := c.formalParameter.map blankName }).citations := by
    cases e <;> rfl
  rw [h]
  exact citations_mapInputs (fun s => by simp) e

theorem citations_adapted {config : Config} (h : config.sharedPowerRails = false)
    (f : UInt64 → UInt64) (e : Element) : (e.adapted config f).citations = e.citations := by
  rw [adapted, h]
  cases config.routingPoints <;> cases config.blankDefaultOutput <;>
    simp [citations_stripped, citations_blanked]

end Body.Element

section
variable {config : Config} {rungs : List Rung} {i : Nat} {r : Rung} {a n : Node} {e : Element}

theorem exists_contributes_of_exported (hr : rungs[i]? = some r)
    (hf : ∀ f ∈ (lower config rungs).failures, f.rung ≠ i) (hn : n ∈ r.nodes)
    (hcit : n.isCitable = true) : ∃ e, Contributes config rungs i r n e := by
  obtain ⟨o, ho, rfl, rfl, low, hlow⟩ := exists_lowered hr hf
  obtain ⟨e₀, he₀⟩ := Rung.exists_emits_of_lower (lower_of_mem_outcomes ho hlow) hn hcit
  exact ⟨_, o, ho, rfl, rfl, ⟨low, hlow⟩, e₀, he₀, rfl⟩

/-- An edge is cited where it ends exactly if it ends on an input side of its target. -/
theorem Contributes.citesAt_iff (hs : config.sharedPowerRails = false)
    (hc : Contributes config rungs i r n e) (hv : n.kind.isVariable = false) {l : Edge}
    (hl : r.Leads a l n) (ha : a.isCitable = true) :
    e.CitesAt l a.numericId ↔ n.Receives l := by
  obtain ⟨e₀, -, ⟨offset, -, em, hem, he₀⟩, rfl⟩ := hc.exists_plain
  rw [Element.CitesAt, Element.citations_adapted hs, Node.receives_iff]
  constructor
  · rintro ⟨side, hcite, hh⟩
    obtain ⟨pin, s, hside, -⟩ := Element.mem_citations.1 hcite
    rcases RungContext.collect_of_mem_sides hem he₀ hside with ⟨hside, -⟩ | ⟨hv', -⟩
    · exact ⟨side, hside, hh⟩
    · rw [hv] at hv'; cases hv'
  · rintro ⟨side, hside, hh⟩
    have hm : r.Enters a l n side := ⟨⟨n, hl⟩, (Rung.id_of_node? hl.target).symm, hh⟩
    have hb : r.Behind a a := ⟨Node.isParallel_of_isCitable ha, .inl rfl⟩
    exact ⟨side, Element.mem_citations.2 ⟨_, (RungContext.cites_iff hem he₀ hside).2
      ⟨a, l, a, hm, hb, Node.isWireSource_of_isCitable ha, rfl, rfl⟩⟩, hh⟩

/-- An element cites the nodes from which a chain arrives on an input side of its node. -/
theorem Contributes.mem_refs_iff (hs : config.sharedPowerRails = false)
    (hc : Contributes config rungs i r n e) (hn : r.node? n.id = some n)
    (hv : n.kind.isVariable = false) {id : UInt64} :
    id ∈ e.refs ↔
      ∃ b f k, r.Chain b f k n ∧ n.Receives k ∧ b.isCitable = true ∧ b.numericId = id := by
  have hid (id : UInt64) : citedId config rungs id = id := if_neg (by simp [hs])
  constructor
  · intro h
    obtain ⟨b, f, k, hch, hrec, hcit, he⟩ := hc.exists_chain hn hv h
    exact ⟨b, f, k, hch, hrec, hcit, (he.trans (hid _)).symm⟩
  · rintro ⟨b, f, k, hch, hrec, hcit, rfl⟩
    rw [← hid b.numericId]
    exact hc.mem_refs (by simp [hs]) hch hrec hcit

end

/-- **Which wires a clean report keeps.** The target of an edge has its element in the body. It
cites the source where the edge ends exactly if that is a side on which wires count: anywhere on a
contact, a coil or a right rail, but on a block at one of its input pins only. It cites the source
at all exactly if this edge, or another chain from a node of the same local id, ends on such a
side. -/
theorem clean_report_cites_iff {config : Config} (hs : config.sharedPowerRails = false)
    {rungs : List Rung} (hd : ∀ r ∈ rungs, (r.nodes.map (·.id)).Nodup)
    (hclean : (lower config rungs).isClean = true) {i : Nat} {r : Rung} (hr : rungs[i]? = some r)
    {l : Edge} (hl : l ∈ r.edges) {a n : Node} (ha : a ∈ r.nodes) (hn : n ∈ r.nodes)
    (hsource : l.source = a.id) (htarget : l.target = n.id)
    (hak : a.kind.tag ∈ ["leftRail", "rightRail", "contact", "coil", "block"])
    (hnk : n.kind.tag ∈ ["contact", "coil", "rightRail", "block"]) :
    (∃ e ∈ (lower config rungs).body.elements, Contributes config rungs i r n e) ∧
      ∀ e, Contributes config rungs i r n e →
        (e.CitesAt l a.numericId ↔ n.Receives l) ∧
        (a.numericId ∈ e.refs ↔ ∃ b f k, r.Chain b f k n ∧ n.Receives k ∧ b.isCitable = true ∧
          b.numericId = a.numericId) := by
  have hnodes := hd r (List.mem_of_getElem? hr)
  have hnode : r.node? n.id = some n := Rung.node?_of_mem hnodes hn
  have hleads : r.Leads a l n :=
    ⟨hl, by rw [hsource, Rung.node?_of_mem hnodes ha], by rw [htarget, hnode]⟩
  have hcit : n.isCitable = true := Node.isCitable_of_mem hnk (by decide)
  have hv := Node.isVariable_of_isCitable hcit
  have hfail : (lower config rungs).failures = [] := by
    simpa [Report.isClean] using (Bool.and_eq_true_iff.1 hclean).2
  constructor
  · obtain ⟨e, hc⟩ : ∃ e, Contributes config rungs i r n e :=
      exists_contributes_of_exported hr (by rw [hfail]; exact nofun) hn hcit
    exact ⟨e, hc.mem_elements (by simp [hs]), hc⟩
  · intro e hc
    exact ⟨hc.citesAt_iff hs hv hleads (Node.isCitable_iff.2 hak), hc.mem_refs_iff hs hnode hv⟩

/-- A block that declares the pin `EN` alone, wired at `EN` to a rail and at `IN1` to a contact. -/
def strayWire : Rung where
  nodes := [
    { id := "rail", numericId := 1, kind := .leftRail },
    { id := "a", numericId := 2, kind := .contact "a" .normal },
    { id := "add", numericId := 3, output := some { id := "ENO" },
      kind := .block { typeName := "ADD", inputs := [{ id := "EN" }],
                       outputs := [{ id := "ENO" }] } },
    { id := "x", numericId := 4, kind := .coil "x" .normal }]
  edges := [
    ⟨"rail", "out", "a", "in"⟩, ⟨"rail", "out", "add", "EN"⟩, ⟨"a", "out", "add", "IN1"⟩,
    ⟨"add", "ENO", "x", "in"⟩]

/-- The wire of the contact is lost, and the report does not tell of it. -/
theorem strayWire_not_cited :
    (Config.ofDialect .openPlc).sharedPowerRails = false ∧
      (strayWire.nodes.map (·.id)).Nodup ∧
      (lower (.ofDialect .openPlc) [strayWire]).isClean = true ∧
      (∃ l ∈ strayWire.edges, ∃ a ∈ strayWire.nodes, ∃ n ∈ strayWire.nodes,
        l.source = a.id ∧ l.target = n.id ∧ a.kind.tag = "contact" ∧ n.kind.tag = "block" ∧
          a.numericId = 2 ∧ n.numericId = 3) ∧
      ∀ e ∈ (lower (.ofDialect .openPlc) [strayWire]).body.elements, e.localId = 3 →
        2 ∉ e.refs := by
  decide +kernel

/-- The block cites the rail, whose wire ends at `EN`, and does not cite the contact, whose wire
ends at `IN1`. -/
theorem strayWire_cites_iff :
    (Config.ofDialect .openPlc).sharedPowerRails = false ∧
      (∀ r ∈ [strayWire], (r.nodes.map (·.id)).Nodup) ∧
      (lower (.ofDialect .openPlc) [strayWire]).isClean = true ∧
      ∃ n ∈ strayWire.nodes, ∃ e ∈ (lower (.ofDialect .openPlc) [strayWire]).body.elements,
        n.id = "add" ∧ Contributes (.ofDialect .openPlc) [strayWire] 0 strayWire n e ∧
          e.CitesAt ⟨"rail", "out", "add", "EN"⟩ 1 ∧
          ¬ e.CitesAt ⟨"a", "out", "add", "IN1"⟩ 2 := by
  have hd : ∀ r ∈ [strayWire], (r.nodes.map (·.id)).Nodup := by decide +kernel
  have hclean : (lower (.ofDialect .openPlc) [strayWire]).isClean = true := by decide +kernel
  have hmem (k : Nat) (hk : k < strayWire.nodes.length) : strayWire.nodes[k] ∈ strayWire.nodes :=
    List.getElem_mem hk
  have hr : [strayWire][0]? = some strayWire := rfl
  obtain ⟨⟨e, he, hc⟩, hrail⟩ := clean_report_cites_iff rfl hd hclean hr
    (l := ⟨"rail", "out", "add", "EN"⟩) (by decide) (hmem 0 (by decide)) (hmem 2 (by decide))
    rfl rfl (by decide) (by decide)
  obtain ⟨-, hcontact⟩ := clean_report_cites_iff rfl hd hclean hr
    (l := ⟨"a", "out", "add", "IN1"⟩) (by decide) (hmem 1 (by decide)) (hmem 2 (by decide))
    rfl rfl (by decide) (by decide)
  refine ⟨rfl, hd, hclean, _, hmem 2 (by decide), e, he, rfl, hc, ?_, ?_⟩
  · exact (hrail e hc).1.2 ⟨_, List.mem_singleton_self _, rfl⟩
  · rintro h
    obtain ⟨pin, hp, hh⟩ := (hcontact e hc).1.1 h
    cases List.mem_singleton.1 hp
    exact absurd hh (by decide)

end LadderDiagram
