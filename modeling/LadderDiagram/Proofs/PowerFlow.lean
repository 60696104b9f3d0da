import LadderDiagram.Proofs.Pass

/-!
# Power flow

Power leaves the left rails and flows on through the contacts, coils and blocks
that conduct. In a rung it flows along wires and through markers, in a body from
the elements cited to those that cite them. A rung and its part of the body are
energised alike.
-/

namespace LadderDiagram

open Body (Element LeftRail)

/-- What is energised feeds what comes after it, if it is a left rail or conducts. The contacts,
coils and blocks that conduct are given by their local ids. -/
def Feeds (C : UInt64 → Prop) (tag : String) (localId : UInt64) : Prop :=
  tag = "leftRail" ∨ tag ∈ ["contact", "coil", "block"] ∧ C localId

/-- The nodes of a rung that power reaches. -/
inductive Rung.Energised (r : Rung) (C : UInt64 → Prop) : Node → Prop where
  | rail {n : Node} : n ∈ r.nodes → n.kind = .leftRail → Energised r C n
  | path {a b : Node} {e l : Edge} : Energised r C a → Feeds C a.kind.tag a.numericId →
      r.Chain a e l b → b.Receives l → Energised r C b

/-- The elements of a body that power reaches. -/
inductive Body.Energised (b : Body) (C : UInt64 → Prop) : Element → Prop where
  | rail {e : Element} : e ∈ b.elements → e.tag = "leftRail" → Energised b C e
  | cited {s e : Element} : Energised b C s → Feeds C s.tag s.localId → e ∈ b.elements →
      s.localId ∈ e.refs → Energised b C e

theorem Body.Energised.mem {b : Body} {C : UInt64 → Prop} {e : Element} (h : b.Energised C e) :
    e ∈ b.elements := by
  cases h with
  | rail he => exact he
  | cited _ _ he => exact he

namespace Node

theorem Receives.isVariable {n : Node} {l : Edge} (h : n.Receives l) :
    n.kind.isVariable = false := by
  unfold Receives at h
  cases hk : n.kind with
  | variableIn | variableOut => rw [hk] at h; cases h
  | _ => rfl

theorem isCitable_of_feeds {C : UInt64 → Prop} {n : Node} {id : UInt64}
    (h : Feeds C n.kind.tag id) : n.isCitable = true := by
  rcases h with h | ⟨h, -⟩
  · rw [isCitable_iff, h]
    decide
  · exact isCitable_of_mem h (by decide)

/-- A right rail feeds nothing. -/
theorem tag_ne_of_feeds {C : UInt64 → Prop} {n : Node} {id : UInt64} (h : Feeds C n.kind.tag id) :
    n.kind.tag ≠ "rightRail" := by
  intro ht
  rw [Feeds, ht] at h
  simp at h

end Node

theorem Body.Element.mem_refs_iff {e : Element} {id : UInt64} :
    id ∈ e.refs ↔ ∃ side s, (side, s) ∈ e.sides ∧ ∃ c ∈ s.connections, c.refLocalId = id := by
  simp only [refs, connections, List.mem_map, List.mem_flatMap, Prod.exists]
  constructor
  · rintro ⟨c, ⟨side, s, hs, hc⟩, hid⟩
    exact ⟨side, s, hs, c, hc, hid⟩
  · rintro ⟨side, s, hs, c, hc, hid⟩
    exact ⟨c, ⟨side, s, hs, hc⟩, hid⟩

theorem Rung.Emits.mem_refs_iff {r : Rung} {index : Nat} {offset : Offset} {n : Node} {e : Element}
    (h : r.Emits index offset n e) (hn : r.node? n.id = some n)
    (hv : n.kind.isVariable = false) {id : UInt64} :
    id ∈ e.refs ↔
      ∃ a f l, r.Chain a f l n ∧ n.Receives l ∧ a.isCitable = true ∧ a.numericId = id := by
  obtain ⟨-, em, hem, he⟩ := h
  rw [Element.mem_refs_iff]
  constructor
  · rintro ⟨side, s, hs, c, hc, hid⟩
    rcases RungContext.collect_of_mem_sides hem he hs with ⟨hside, -⟩ | ⟨hv', -⟩
    · obtain ⟨m, l, a, hm, hb, hsrc, hid, -⟩ :=
        (RungContext.cites_iff hem he hside).1 ⟨s, hs, c, hc, hid, rfl⟩
      obtain ⟨b, hl⟩ := hm.leads
      have hbn : b = n := by
        have ht := hl.target
        rw [hm.target, hn] at ht
        exact (Option.some.inj ht).symm
      obtain ⟨f, hf⟩ := (chain_last_iff hb.1).2 ⟨m, hbn ▸ hl, hb⟩
      exact ⟨a, f, l, hf, Node.receives_iff.2 ⟨side, hside, hm.handle⟩,
        Node.isCitable_of_isWireSource hsrc hb.1, hid⟩
    · rw [hv] at hv'; cases hv'
  · rintro ⟨a, f, l, hc, hr, ha, hid⟩
    obtain ⟨side, hside, hh⟩ := Node.receives_iff.1 hr
    obtain ⟨m, hl, hb⟩ := (chain_last_iff (Node.isParallel_of_isCitable ha)).1 ⟨f, hc⟩
    have hm : r.Enters m l n side := ⟨⟨n, hl⟩, (id_of_node? hl.target).symm, hh⟩
    obtain ⟨s, hs, c, hc, hid, -⟩ := (RungContext.cites_iff hem he hside).2
      ⟨m, l, a, hm, hb, Node.isWireSource_of_isCitable ha, hid, rfl⟩
    exact ⟨side, s, hs, c, hc, hid⟩

section
variable {config : Config} {rungs : List Rung}
  (hd : (rungs.flatMap fun r => r.nodes.map (·.numericId)).Nodup)

include hd in
theorem eq_of_localId_eq_body {e e' : Element} (he : e ∈ (lower config rungs).body.elements)
    (he' : e' ∈ (lower config rungs).body.elements) (h : e.localId = e'.localId) : e = e' := by
  rw [body_lower, Body.mem_elements_adapt] at he he'
  obtain ⟨a, ha, -, rfl⟩ := he
  obtain ⟨a', ha', -, rfl⟩ := he'
  rw [Element.localId_adapted, Element.localId_adapted] at h
  rw [eq_of_localId_eq hd ha ha' h]

/-- Every chain that ends on a node brings a citation to its element, unless that is a right rail
that is shared. -/
theorem Contributes.mem_refs {i : Nat} {r : Rung} {a n : Node} {e : Element} {f l : Edge}
    (hc : Contributes config rungs i r n e)
    (hr : config.sharedPowerRails = true → e.tag ≠ "rightRail") (hch : r.Chain a f l n)
    (hrec : n.Receives l) (hcit : a.isCitable = true) :
    citedId config rungs a.numericId ∈ e.refs := by
  obtain ⟨e₀, -, ⟨offset, he₀⟩, rfl⟩ := hc.exists_plain
  obtain ⟨m, hl⟩ := hch.leads_last
  have hmem : a.numericId ∈ e₀.refs :=
    (he₀.mem_refs_iff hl.node?_target hrec.isVariable).2 ⟨a, f, l, hch, hrec, hcit, rfl⟩
  rw [Element.tag_adapted] at hr
  rw [Element.refs_adapted, if_neg fun h => hr h.1 h.2]
  exact List.mem_map_of_mem hmem

theorem Contributes.exists_chain {i : Nat} {r : Rung} {n : Node} {e : Element}
    (hc : Contributes config rungs i r n e) (hn : r.node? n.id = some n)
    (hv : n.kind.isVariable = false) {id : UInt64} (h : id ∈ e.refs) :
    ∃ a f l, r.Chain a f l n ∧ n.Receives l ∧ a.isCitable = true ∧
      id = citedId config rungs a.numericId := by
  obtain ⟨e₀, -, ⟨offset, he₀⟩, rfl⟩ := hc.exists_plain
  rw [Element.refs_adapted] at h
  split at h
  · cases h
  · obtain ⟨id₀, hid, rfl⟩ := List.mem_map.1 h
    obtain ⟨a, f, l, hch, hrec, hcit, rfl⟩ := (he₀.mem_refs_iff hn hv).1 hid
    exact ⟨a, f, l, hch, hrec, hcit, rfl⟩

include hd

theorem citedId_of_tag_ne {a : Element} (ha : a ∈ (plainBody rungs).elements)
    (ht : a.tag ≠ "leftRail") : citedId config rungs a.localId = a.localId := by
  refine citedId_of_not_mem fun hm => ht ?_
  obtain ⟨x, hx, he⟩ := List.mem_map.1 hm
  have hx' : Element.leftRail x ∈ (plainBody rungs).elements := by simp [Body.elements, hx]
  rw [← eq_of_localId_eq hd hx' ha he]
  rfl

theorem Contributes.exists_cited {i : Nat} {r : Rung} {a : Node} {t : Element}
    (hc : Contributes config rungs i r a t) (ha : a.kind.tag ≠ "rightRail") :
    ∃ s ∈ (lower config rungs).body.elements, s.localId = citedId config rungs a.numericId := by
  obtain ⟨t₀, ht₀, ⟨offset, hem⟩, rfl⟩ := hc.exists_plain
  obtain ⟨hid, htag⟩ := hem.localId
  rw [body_lower, ← hid]
  by_cases hl : t₀.tag = "leftRail"
  · obtain ⟨x, hx, rfl⟩ := mem_leftRails_of_tag ht₀ hl
    obtain ⟨y, hy, hk, hyid⟩ := exists_leftRail_cited config hx
    have hy' : Element.leftRail y ∈ (plainBody rungs).elements := by simp [Body.elements, hy]
    refine ⟨_, Body.mem_elements_adapt.2 ⟨_, hy', hk, rfl⟩, ?_⟩
    rw [Element.localId_adapted]
    exact hyid
  · refine ⟨_, Body.mem_elements_adapt.2 ⟨t₀, ht₀, fun _ => ?_, rfl⟩, ?_⟩
    · cases t₀ with
      | leftRail x => exact (hl rfl).elim
      | rightRail x => exact (ha htag.symm).elim
      | _ => trivial
    · rw [Element.localId_adapted, citedId_of_tag_ne hd ht₀ hl]

/-- What is cited for a node is its element, unless both are left rails. -/
theorem Contributes.eq_of_cited {i : Nat} {r : Rung} {a : Node} {s t : Element}
    (hc : Contributes config rungs i r a t) (hs : s ∈ (lower config rungs).body.elements)
    (h : s.localId = citedId config rungs a.numericId) :
    a.kind.tag = "leftRail" ∧ s.tag = "leftRail" ∨ s = t := by
  obtain ⟨t₀, ht₀, ⟨offset, hem⟩, rfl⟩ := hc.exists_plain
  obtain ⟨hid, htag⟩ := hem.localId
  rw [body_lower, Body.mem_elements_adapt] at hs
  obtain ⟨s₀, hs₀, -, rfl⟩ := hs
  rw [Element.localId_adapted, ← hid] at h
  by_cases hl : t₀.tag = "leftRail"
  · obtain ⟨x, hx, rfl⟩ := mem_leftRails_of_tag ht₀ hl
    obtain ⟨y, hy, -, hyid⟩ := exists_leftRail_cited config hx
    have hy' : Element.leftRail y ∈ (plainBody rungs).elements := by simp [Body.elements, hy]
    rw [eq_of_localId_eq hd hs₀ hy' (h.trans hyid.symm), Element.tag_adapted]
    exact .inl ⟨htag ▸ rfl, rfl⟩
  · rw [citedId_of_tag_ne hd ht₀ hl] at h
    exact .inr (by rw [eq_of_localId_eq hd hs₀ ht₀ h])

variable {C : UInt64 → Prop}

/-- Power that reaches a node reaches its element. -/
theorem energised_of_node {i : Nat} {r : Rung} {n : Node} (h : r.Energised C n) {e : Element}
    (hc : Contributes config rungs i r n e) (he : e ∈ (lower config rungs).body.elements)
    (hr : config.sharedPowerRails = true → e.tag ≠ "rightRail") :
    (lower config rungs).body.Energised C e := by
  induction h generalizing e with
  | rail _ hk => exact .rail he (by rw [hc.localId.2, hk]; rfl)
  | @path a b f l _ hf hch hrec ih =>
    have hcit : a.isCitable = true := Node.isCitable_of_feeds hf
    have ha : a.kind.tag ≠ "rightRail" := Node.tag_ne_of_feeds hf
    obtain ⟨m, hl⟩ := hch.leads_first
    obtain ⟨t, ht⟩ := hc.exists_sibling (Rung.mem_of_node? hl.source) hcit
    obtain ⟨s, hs, hid⟩ := ht.exists_cited hd ha
    have href : s.localId ∈ e.refs := by
      rw [hid]
      exact hc.mem_refs hr hch hrec hcit
    rcases ht.eq_of_cited hd hs hid with ⟨-, hst⟩ | rfl
    · exact .cited (.rail hs hst) (.inl hst) he href
    · obtain ⟨hsid, hst⟩ := ht.localId
      have hen := ih ht hs fun _ => by rwa [hst]
      exact .cited hen (by rwa [hst, hsid]) he href

/-- Power that reaches an element reached its node. -/
theorem energised_of_element (hn : ∀ r ∈ rungs, (r.nodes.map (·.id)).Nodup) {i : Nat} {r : Rung}
    {n : Node} {e : Element} (h : (lower config rungs).body.Energised C e)
    (hc : Contributes config rungs i r n e) (hv : n.kind.isVariable = false) : r.Energised C n := by
  induction h generalizing n with
  | rail _ ht =>
    rw [hc.localId.2] at ht
    exact .rail hc.mem_nodes (Node.kind_of_tag ht)
  | @cited s e hs hf _ href ih =>
    have hnode : r.node? n.id = some n :=
      Rung.node?_of_mem (hn r (List.mem_of_getElem? hc.getElem?)) hc.mem_nodes
    obtain ⟨a, f, l, hch, hrec, hcit, hid⟩ := hc.exists_chain hnode hv href
    obtain ⟨m, hl⟩ := hch.leads_first
    have ha : a ∈ r.nodes := Rung.mem_of_node? hl.source
    obtain ⟨t, ht⟩ := hc.exists_sibling ha hcit
    rcases ht.eq_of_cited hd hs.mem hid with ⟨hat, -⟩ | rfl
    · exact .path (.rail ha (Node.kind_of_tag hat)) (.inl hat) hch hrec
    · obtain ⟨hsid, hst⟩ := ht.localId
      rw [hst, hsid] at hf
      exact .path (ih ht (Node.isVariable_of_isCitable hcit)) hf hch hrec

/-- **Lowering preserves power flow**, whatever conducts and whatever dialect is asked for. -/
theorem energised_iff (hn : ∀ r ∈ rungs, (r.nodes.map (·.id)).Nodup) (C : UInt64 → Prop) {i : Nat}
    {r : Rung} (hr : rungs[i]? = some r) (hf : ∀ f ∈ (lower config rungs).failures, f.rung ≠ i)
    {n : Node} (hm : n ∈ r.nodes)
    (hk : n.kind.tag ∈ ["contact", "coil", "block"] ∨
      n.kind.tag = "rightRail" ∧ config.sharedPowerRails = false) :
    (∃ e ∈ (lower config rungs).body.elements, Contributes config rungs i r n e) ∧
      ∀ e ∈ (lower config rungs).body.elements, e.localId = n.numericId →
        Contributes config rungs i r n e ∧
          ((lower config rungs).body.Energised C e ↔ r.Energised C n) := by
  obtain ⟨o, ho, rfl, rfl, low, hlow⟩ := exists_lowered hr hf
  have hcit : n.isCitable = true := by
    rcases hk with hk | ⟨hk, -⟩
    · exact Node.isCitable_of_mem hk (by decide)
    · rw [Node.isCitable_iff, hk]
      decide
  have hres := (getElem?_of_mem_outcomes ho).2
  rw [hlow] at hres
  obtain ⟨e₀, he₀⟩ := Rung.exists_emits_of_lower hres.symm hm hcit
  have hc : Contributes config rungs o.index o.rung n
      (e₀.adapted config (plainBody rungs).redirect) := ⟨o, ho, rfl, rfl, ⟨low, hlow⟩, e₀, he₀, rfl⟩
  obtain ⟨hid, htag⟩ := hc.localId
  have hrail (hs : config.sharedPowerRails = true) :
      n.kind.tag ≠ "leftRail" ∧ n.kind.tag ≠ "rightRail" := by
    rcases hk with hk | ⟨-, hk⟩
    · constructor <;> intro h <;> rw [h] at hk <;> simp at hk
    · rw [hs] at hk; cases hk
  have he := hc.mem_elements fun hs => by rw [htag]; exact hrail hs
  refine ⟨⟨_, he, hc⟩, fun e he' hid' => ?_⟩
  rw [eq_of_localId_eq_body hd he' he (hid'.trans hid.symm)]
  refine ⟨hc, fun h => ?_, fun h => ?_⟩
  · exact energised_of_element hd hn h hc (Node.isVariable_of_isCitable hcit)
  · exact energised_of_node hd h hc he fun hs => by rw [htag]; exact (hrail hs).2

end

def singleContact : Rung where
  nodes := [
    { id := "rail", numericId := 1, kind := .leftRail },
    { id := "a", numericId := 2, kind := .contact "a" .normal },
    { id := "x", numericId := 3, kind := .coil "x" .normal }]
  edges := [⟨"rail", "out", "a", "in"⟩, ⟨"a", "out", "x", "in"⟩]

/-- A coil behind two contacts in parallel. -/
def parallelContacts : Rung where
  nodes := [
    { id := "rail", numericId := 4, kind := .leftRail },
    { id := "open", numericId := 5, kind := .parallelOpen { id := "down" } },
    { id := "b", numericId := 6, kind := .contact "b" .normal },
    { id := "c", numericId := 7, kind := .contact "c" .normal, output := some { id := "out" } },
    { id := "close", numericId := 8, kind := .parallelClose { id := "up" } },
    { id := "y", numericId := 9, kind := .coil "y" .normal }]
  edges := [
    ⟨"rail", "out", "open", "in"⟩, ⟨"open", "out", "b", "in"⟩, ⟨"open", "down", "c", "in"⟩,
    ⟨"b", "out", "close", "in"⟩, ⟨"c", "out", "close", "up"⟩, ⟨"close", "out", "y", "in"⟩]

/-- Where `c` conducts, the lower coil is energised in a body with shared rails as in its rung. -/
theorem parallelContacts_energised_iff :
    ([singleContact, parallelContacts].flatMap fun r => r.nodes.map (·.numericId)).Nodup ∧
    (∀ r ∈ [singleContact, parallelContacts], (r.nodes.map (·.id)).Nodup) ∧
    (lower (.ofDialect .codesys) [singleContact, parallelContacts]).failures = [] ∧
    ∃ n ∈ parallelContacts.nodes, n.id = "y" ∧ n.kind.tag ∈ ["contact", "coil", "block"] ∧
      ∃ e, Contributes (.ofDialect .codesys) [singleContact, parallelContacts] 1
          parallelContacts n e ∧
        ((lower (.ofDialect .codesys) [singleContact, parallelContacts]).body.Energised
            (· = 7) e ↔
          parallelContacts.Energised (· = 7) n) := by
  have hd : ([singleContact, parallelContacts].flatMap fun r =>
    r.nodes.map (·.numericId)).Nodup := by decide +kernel
  have hn : ∀ r ∈ [singleContact, parallelContacts], (r.nodes.map (·.id)).Nodup := by
    decide +kernel
  have hf : (lower (.ofDialect .codesys) [singleContact, parallelContacts]).failures = [] := by
    decide +kernel
  have hm : parallelContacts.nodes[5] ∈ parallelContacts.nodes := List.getElem_mem _
  have hk : parallelContacts.nodes[5].kind.tag ∈ ["contact", "coil", "block"] := by decide +kernel
  obtain ⟨⟨e, he, hc⟩, h⟩ := energised_iff hd hn (· = 7) (i := 1) rfl (by rw [hf]; exact nofun) hm
    (.inl hk)
  exact ⟨hd, hn, hf, _, hm, rfl, hk, e, hc, (h e he hc.localId.1).2⟩

end LadderDiagram
