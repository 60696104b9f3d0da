import LadderDiagram.Proofs.Pass
import LadderDiagram.Proofs.SeriesParallel.Pairing
import LadderDiagram.Proofs.SeriesParallel.Tracing

/-!
# Lowering of ladders

A rung that draws a ladder is lowered without failure or warning, and every
element of it cites what the recursive structure of its network gives.
-/

namespace LadderDiagram

open Body (Element)
open LadderDiagram.Topology (ofRung)

theorem RungContext.connectionsOf_eq_ok (cx : RungContext) {w : Wire} {res : Resolution}
    (hw : w.source.isWireSource = true) (ht : cx.topology.trace w.edge w.source = .ok res)
    (target : Point) : ∃ cs, cx.connectionsOf target w = .ok cs ∧
      cs.map (·.refLocalId) =
        (res.sources.filter (·.node.isWireSource)).map (·.node.numericId) := by
  unfold connectionsOf
  rw [if_pos hw, ht]
  refine ⟨_, rfl, ?_⟩
  rw [List.map_map]
  rfl

/-- A contact, coil or right rail becomes an element with the connections collected for it. -/
theorem RungContext.emit_of_collect {cx : RungContext} {n : Node} {cs : List Body.Connection}
    (ht : n.kind.tag ∈ ["contact", "coil", "rightRail"])
    (hc : cx.collect n none n.inputPoint = .ok cs) :
    ∃ e, cx.emit n = .ok { element := some e } ∧ e.connections = cs := by
  have hs (side : Body.InputSide) :
      [((none : Option String), side)].flatMap (·.2.connections) = side.connections :=
    List.flatMap_singleton _ _
  unfold emit
  cases hk : n.kind with
  | contact operand variant =>
    exact ⟨_, bind_eq_ok.2 ⟨_, bind_eq_ok.2 ⟨cs, hc, rfl⟩, rfl⟩, hs _⟩
  | coil operand variant =>
    exact ⟨_, bind_eq_ok.2 ⟨_, bind_eq_ok.2 ⟨cs, hc, rfl⟩, rfl⟩, hs _⟩
  | rightRail => exact ⟨_, bind_eq_ok.2 ⟨_, bind_eq_ok.2 ⟨cs, hc, rfl⟩, rfl⟩, hs _⟩
  | _ => rw [hk] at ht; simp [NodeKind.tag] at ht

theorem Rung.StandsFor.exists_collect {r : Rung} {p : Port} {n : Node} {cited : List Node}
    (hw : r.Wired) (hsrc : ∀ m ∈ r.nodes, m.isWireSource = true)
    (hs : r.StandsFor p (r.nodes.map (·.id)) cited) (hj : r.Joins p n.inPort)
    (hc : n.isClose = false) (index : Nat) (offset : Offset) (target : Point) :
    ∃ cs, (r.context index offset).collect n none target = .ok cs ∧
      cs.map (·.refLocalId) = cited.map (·.numericId) := by
  obtain ⟨res, hres, hsources⟩ := hs (r.nodes.map (·.id)) fun _ hid => hid
  have hall : res.sources.filter (·.node.isWireSource) = res.sources := by
    refine List.filter_eq_self.2 fun s hs => hsrc _ ?_
    have hp := hw.node? hj.source
    exact mem_of_node? (((hres.mem_sources_iff hp).1 ⟨s, hs, rfl⟩).node? hp)
  have htrace : (ofRung r).trace (p.wire n.inPort) p.node = .ok res :=
    Topology.resolveFrom_of_resolves hres
  obtain ⟨cs, hcs, hrefs⟩ := (r.context index offset).connectionsOf_eq_ok
    (w := p.joined n.inPort) (hsrc _ hj.source) htrace target
  rw [hall] at hrefs
  have hin : (r.context index offset).topology.incoming n none = [p.joined n.inPort] :=
    hw.incoming_eq hj hc
  refine ⟨cs, ?_, by rw [hrefs, ← hsources, List.map_map]; rfl⟩
  unfold RungContext.collect
  rw [hin]
  refine bind_eq_ok.2 ⟨[cs], mapM_eq_ok.2 (by rw [List.map_singleton, hcs]; rfl), ?_⟩
  rw [List.flatten_singleton]
  rfl

namespace Network

variable {N : Network}

theorem isCitable_of_mem_nodes (hf : N.WellFormed) {n : Node} (hn : n ∈ N.nodes) :
    n.isCitable = true ∨ n.kind.isParallel = true := by
  induction N with
  | empty => cases hn
  | element m =>
    cases List.mem_singleton.1 hn
    exact .inl (isCitable_of_element hf)
  | series a b iha ihb => exact (List.mem_append.1 hn).elim (iha hf.1) (ihb hf.2)
  | parallel o c a b iha ihb =>
    obtain ⟨hm, hfa, hfb⟩ := hf
    obtain ⟨ob, ho⟩ := hm.opener_kind
    obtain ⟨cb, hc⟩ := hm.close_kind
    simp only [nodes, List.mem_cons, List.mem_append] at hn
    rcases hn with rfl | rfl | hn | hn
    · exact .inr (by rw [ho]; rfl)
    · exact .inr (by rw [hc]; rfl)
    · exact iha hfa hn
    · exact ihb hfb hn

theorem exists_citation (hf : N.WellFormed) (feed : List Node) {n : Node} (hn : n ∈ N.nodes)
    (hp : n.kind.isParallel = false) : ∃ cited, (n, cited) ∈ N.citations feed := by
  induction N generalizing feed with
  | empty => cases hn
  | element m =>
    cases List.mem_singleton.1 hn
    exact ⟨feed, List.mem_singleton_self _⟩
  | series a b iha ihb =>
    rcases List.mem_append.1 hn with hn | hn
    · obtain ⟨cited, hc⟩ := iha hf.1 feed hn
      exact ⟨cited, List.mem_append_left _ hc⟩
    · obtain ⟨cited, hc⟩ := ihb hf.2 (a.ends feed) hn
      exact ⟨cited, List.mem_append_right _ hc⟩
  | parallel o c a b iha ihb =>
    obtain ⟨hm, hfa, hfb⟩ := hf
    obtain ⟨ob, ho⟩ := hm.opener_kind
    obtain ⟨cb, hc⟩ := hm.close_kind
    simp only [nodes, List.mem_cons, List.mem_append] at hn
    rcases hn with rfl | rfl | hn | hn
    · rw [ho] at hp; cases hp
    · rw [hc] at hp; cases hp
    · obtain ⟨cited, hc⟩ := iha hfa feed hn
      exact ⟨cited, List.mem_append_left _ hc⟩
    · obtain ⟨cited, hc⟩ := ihb hfb feed hn
      exact ⟨cited, List.mem_append_right _ hc⟩

end Network

namespace Ladder.IsDrawn

variable {l : Ladder} {r : Rung} (h : l.IsDrawn r)
include h

theorem isWireSource {n : Node} (hn : n ∈ r.nodes) : n.isWireSource = true := by
  rcases h.mem_nodes.1 hn with rfl | rfl | hn
  · rw [Node.isWireSource, l.left_kind]
  · rw [Node.isWireSource, l.right_kind]
  · rcases Network.isCitable_of_mem_nodes l.wellFormed hn with hc | hp
    · exact Node.isWireSource_of_isCitable hc
    · exact Node.isWireSource_of_isParallel hp

/-- The wire into each element comes from what the element has to cite. -/
theorem standsFor_citation {n : Node} {cited : List Node} (hn : (n, cited) ∈ l.citations) :
    n ∈ r.nodes ∧ n.kind.tag ∈ ["contact", "coil", "rightRail"] ∧
      ∃ p, r.Joins p n.inPort ∧ r.StandsFor p (r.nodes.map (·.id)) cited := by
  have hleft : r.StandsFor l.left.outPort [] [l.left] :=
    .direct (by show l.left.kind.isParallel = false; rw [l.left_kind]; rfl)
  have hfeed : ∀ a ∈ [l.left], a ∈ r.nodes := by
    intro a ha
    rw [List.mem_singleton.1 ha]
    exact h.laid.start
  have hids : ∀ id ∈ [] ++ l.network.nodes.map (·.id), id ∈ r.nodes.map (·.id) := by
    intro id hid
    obtain ⟨m, hm, rfl⟩ := List.mem_map.1 hid
    exact List.mem_map_of_mem (h.laid.nodes m hm)
  rcases List.mem_append.1 hn with hn | hn
  · obtain ⟨hm, ht, p, hj, hs⟩ := h.laid.standsFor_citation h.wired l.wellFormed l.nodup_network
      hfeed hleft hn
    have hsub : ["contact", "coil"] ⊆ ["contact", "coil", "rightRail"] := by decide
    exact ⟨h.laid.nodes n hm, hsub ht, p, hj, hs.mono hids⟩
  · cases List.mem_singleton.1 hn
    refine ⟨h.joins_right.target, by rw [l.right_kind]; decide, _, h.joins_right, ?_⟩
    exact (h.laid.standsFor_exit h.wired l.wellFormed l.nodup_network hfeed hleft).mono hids

theorem exists_citation {n : Node} (hn : n ∈ r.nodes) (hl : n.kind.tag ≠ "leftRail")
    (hp : n.kind.isParallel = false) : ∃ cited, (n, cited) ∈ l.citations := by
  rcases h.mem_nodes.1 hn with rfl | rfl | hn
  · rw [l.left_kind] at hl
    exact (hl rfl).elim
  · exact ⟨_, List.mem_append_right _ (List.mem_singleton_self _)⟩
  · obtain ⟨cited, hc⟩ := Network.exists_citation l.wellFormed [l.left] hn hp
    exact ⟨cited, List.mem_append_left _ hc⟩

theorem emit_of_citation {n : Node} {cited : List Node} (hn : (n, cited) ∈ l.citations)
    (index : Nat) (offset : Offset) :
    ∃ e, (r.context index offset).emit n = .ok { element := some e } ∧
      e.refs = cited.map (·.numericId) := by
  obtain ⟨-, ht, p, hj, hs⟩ := h.standsFor_citation hn
  have hc := Node.isClose_of_isCitable (Node.isCitable_of_mem ht (by decide))
  obtain ⟨cs, hcs, hrefs⟩ := hs.exists_collect h.wired (fun _ => h.isWireSource) hj hc index offset
    n.inputPoint
  obtain ⟨e, he, rfl⟩ := RungContext.emit_of_collect ht hcs
  exact ⟨e, he, hrefs⟩

theorem exists_emit {n : Node} (hn : n ∈ r.nodes) (index : Nat) (offset : Offset) :
    ∃ em, (r.context index offset).emit n = .ok em ∧ em.warnings = [] := by
  by_cases hl : n.kind.tag = "leftRail"
  · exact ⟨_, by rw [RungContext.emit, Node.kind_of_tag hl], rfl⟩
  · cases hp : n.kind.isParallel with
    | false =>
      obtain ⟨cited, hc⟩ := h.exists_citation hn hl hp
      obtain ⟨e, he, -⟩ := h.emit_of_citation hc index offset
      exact ⟨_, he, rfl⟩
    | true =>
      refine ⟨{}, ?_, rfl⟩
      unfold RungContext.emit
      cases hk : n.kind with
      | parallelOpen | parallelClose => rfl
      | _ => rw [hk] at hp; cases hp

theorem danglingWarnings_eq_nil (index : Nat) : r.danglingWarnings index = [] := by
  have hd : (ofRung r).dangling = [] := by
    apply List.filter_eq_nil_iff.2
    intro e he
    obtain ⟨a, b, hl⟩ := h.leads he
    have hw : Topology.wire? (Topology.indexNodes r.nodes) e = some ⟨e, a, b⟩ :=
      Topology.wire?_eq_some.2 ⟨rfl, hl.source, hl.target⟩
    rw [hw]
    exact Bool.false_ne_true
  rw [Rung.danglingWarnings, hd]
  rfl

/-- A rung that draws a ladder is lowered, and nothing is told of it. -/
theorem exists_lower (index : Nat) (offset : Offset) :
    ∃ low, r.lower index offset = .ok low ∧ low.warnings = [] := by
  obtain ⟨ps, hps, -⟩ := h.exists_pairs
  obtain ⟨emitted, hem⟩ := exists_mapM_eq_ok (f := (r.context index offset).emit) fun n hn => by
    obtain ⟨em, hem, -⟩ := h.exists_emit hn index offset
    exact ⟨em, hem⟩
  have hw : emitted.flatMap (·.warnings) = [] := by
    apply List.flatMap_eq_nil_iff.2
    intro em hm
    obtain ⟨n, hn, he⟩ := (mem_of_mapM_eq_ok hem).1 hm
    obtain ⟨em', he', hnil⟩ := h.exists_emit hn index offset
    cases he.symm.trans he'
    exact hnil
  refine ⟨_, bind_eq_ok.2 ⟨ps, hps, bind_eq_ok.2 ⟨emitted, hem, rfl⟩⟩, ?_⟩
  show r.danglingWarnings index ++ emitted.flatMap (·.warnings) = []
  rw [hw, h.danglingWarnings_eq_nil]
  rfl

/-- All that becomes of the rung, taken alone. -/
theorem of_mem_outcomes {o : Outcome} (ho : o ∈ outcomes [r]) :
    o.rung = r ∧ ∃ low, o.result = .ok low ∧ low.warnings = [] := by
  obtain ⟨hr, hres⟩ := getElem?_of_mem_outcomes ho
  have hr' : o.rung = r := List.mem_singleton.1 (List.mem_of_getElem? hr)
  obtain ⟨low, hlow, hw⟩ := h.exists_lower o.index o.offset
  rw [hr', hlow] at hres
  exact ⟨hr', low, hres, hw⟩

theorem failures_eq_nil (config : Config) : (lower config [r]).failures = [] := by
  apply List.filterMap_eq_nil_iff.2
  intro o ho
  obtain ⟨-, low, hlow, -⟩ := h.of_mem_outcomes ho
  rw [Outcome.failure?, hlow]

theorem warnings_eq_nil (config : Config) : (lower config [r]).warnings = [] := by
  apply List.flatMap_eq_nil_iff.2
  intro o ho
  obtain ⟨-, low, hlow, hw⟩ := h.of_mem_outcomes ho
  rw [Outcome.warnings, hlow]
  exact hw

end Ladder.IsDrawn

/-- **A rung that draws a ladder is accepted and lowered to the right references**, however deep its
groups are nested and in whatever order it lists its nodes and edges. -/
theorem ladder_lowered {l : Ladder} {r : Rung} (h : l.IsDrawn r) :
    (∃ ps, (ofRung r).pairs = .ok ps ∧ ps.Perm l.network.pairs ∧
      ps.map (·.opener) = r.nodes.filter Node.isOpen) ∧
    (lower (.ofDialect .openPlc) [r]).failures = [] ∧
    (lower (.ofDialect .openPlc) [r]).warnings = [] ∧
    ∀ n cited, (n, cited) ∈ l.citations →
      (∃ e ∈ (lower (.ofDialect .openPlc) [r]).body.elements,
        Contributes (.ofDialect .openPlc) [r] 0 r n e) ∧
      ∀ e, Contributes (.ofDialect .openPlc) [r] 0 r n e →
        e.refs = cited.map (·.numericId) := by
  refine ⟨h.exists_pairs, h.failures_eq_nil _, h.warnings_eq_nil _, fun n cited hn => ⟨?_, ?_⟩⟩
  · obtain ⟨hmem, -⟩ := h.standsFor_citation hn
    obtain ⟨o, ho, hi, hr⟩ := exists_outcome (show [r][0]? = some r from rfl)
    obtain ⟨-, low, hlow, -⟩ := h.of_mem_outcomes ho
    obtain ⟨e, he, -⟩ := h.emit_of_citation hn 0 o.offset
    have hc : Contributes (.ofDialect .openPlc) [r] 0 r n _ :=
      ⟨o, ho, hi, hr, ⟨low, hlow⟩, e, ⟨hmem, _, he, rfl⟩, rfl⟩
    exact ⟨_, hc.mem_elements nofun, hc⟩
  · intro e hc
    obtain ⟨e₀, -, ⟨offset, -, em, hem, he⟩, hadapted⟩ := hc.exists_plain
    obtain ⟨e', he', hrefs⟩ := h.emit_of_citation hn 0 offset
    cases hem.symm.trans he'
    cases he
    rw [hadapted, Element.refs_adapted_of_not_shared rfl, hrefs]

/-- A contact, two groups nested in each other, the branches of both empty, and a coil. -/
def nestedGroups : Ladder :=
  let inner : Connector := { id := "in" }
  let outer : Connector := { id := "out" }
  let element (id : String) (numericId : UInt64) (kind : NodeKind) : Node :=
    { id, numericId, kind, input := some inner, output := some outer }
  let opener (id : String) (numericId : UInt64) :=
    element id numericId (.parallelOpen { id := "down" })
  let close (id : String) (numericId : UInt64) :=
    element id numericId (.parallelClose { id := "up" })
  { left := element "left" 1 .leftRail
    right := element "right" 9 .rightRail
    network := .series (.element (element "a" 2 (.contact "a" .normal)))
      (.series
        (.parallel (opener "o" 3) (close "c" 4)
          (.parallel (opener "p" 5) (close "d" 6)
            (.element (element "b" 7 (.contact "b" .normal))) .empty) .empty)
        (.element (element "x" 8 (.coil "x" .normal))))
    left_kind := rfl
    left_output := rfl
    right_kind := rfl
    right_input := rfl
    wellFormed := by
      have hm (oid cid : String) (o c : UInt64) : Markers (opener oid o) (close cid c) :=
        ⟨⟨_, rfl⟩, rfl, rfl, show "out" ≠ "down" by decide, ⟨_, rfl⟩, rfl, rfl,
          show "in" ≠ "up" by decide⟩
      exact ⟨⟨by decide, rfl, rfl⟩, ⟨hm .., ⟨hm .., ⟨by decide, rfl, rfl⟩, trivial⟩, trivial⟩,
        by decide, rfl, rfl⟩
    nodup := by decide }

def nestedGroupsReversed : Rung where
  nodes := nestedGroups.nodes.reverse
  edges := nestedGroups.edges.reverse

/-- Listed from its end, the ladder is accepted; its coil cites both contacts, each once. -/
theorem nestedGroups_lowered :
    nestedGroups.IsDrawn nestedGroupsReversed ∧
    nestedGroups.citations.map (fun (n, cited) => (n.numericId, cited.map (·.numericId))) =
      [(2, [1]), (7, [2]), (8, [7, 2]), (9, [8])] ∧
    (∃ ps, (ofRung nestedGroupsReversed).pairs = .ok ps ∧ ps.Perm nestedGroups.network.pairs ∧
      ps.map (·.opener) = nestedGroupsReversed.nodes.filter Node.isOpen) ∧
    (lower (.ofDialect .openPlc) [nestedGroupsReversed]).failures = [] ∧
    (lower (.ofDialect .openPlc) [nestedGroupsReversed]).warnings = [] ∧
    ∀ n cited, (n, cited) ∈ nestedGroups.citations →
      (∃ e ∈ (lower (.ofDialect .openPlc) [nestedGroupsReversed]).body.elements,
        Contributes (.ofDialect .openPlc) [nestedGroupsReversed] 0 nestedGroupsReversed n e) ∧
      ∀ e, Contributes (.ofDialect .openPlc) [nestedGroupsReversed] 0 nestedGroupsReversed n e →
        e.refs = cited.map (·.numericId) := by
  have hd : nestedGroups.IsDrawn nestedGroupsReversed :=
    ⟨List.reverse_perm _, List.reverse_perm _⟩
  exact ⟨hd, by decide +kernel, ladder_lowered hd⟩

end LadderDiagram
