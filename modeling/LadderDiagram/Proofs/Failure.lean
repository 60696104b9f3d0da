import LadderDiagram.Proofs.Pass

/-!
# When a rung fails

A rung fails exactly if its markers cannot be paired, or if an edge that counts
comes from a marker behind which something is broken: a marker with wires missing
or too many (`Rung.Sound` says which it needs), or a cycle of markers.

The walk behind a marker takes each marker out of the ids it may still meet, so
it fails at a cycle in the end, and it meets a marker twice only on a cycle:
where two branches come from one marker, each of them is walked on its own.
-/

namespace LadderDiagram

open Body (Element)
open LadderDiagram.Topology (ofRung wire? indexNodes mem_incoming mem_incoming_of_leads)

namespace Rung

def isComplete (r : Rung) (e : Edge) : Bool :=
  (r.node? e.source).isSome && (r.node? e.target).isSome

/-- The edges that end on a node, less those with a missing end. -/
def entering (r : Rung) (n : Node) : List Edge :=
  r.edges.filter fun e => r.isComplete e && e.target == n.id

/-- A marker has the wires into it that it needs: an open one just one, a close one just one into
its branch connector and one into any other. -/
def Sound (r : Rung) (n : Node) : Prop :=
  match n.kind with
  | .parallelOpen _ => (r.entering n).length = 1
  | .parallelClose branch =>
    (r.entering n).countP (·.targetHandle == branch.id) = 1 ∧
      (r.entering n).countP (·.targetHandle != branch.id) = 1
  | _ => True

/-- From the marker `n` one comes to the marker `k`, backward over edges and through markers
only. -/
structure MarkerBehind (r : Rung) (k n : Node) : Prop where
  start : n.kind.isParallel = true
  marker : k.kind.isParallel = true
  chain : k = n ∨ ∃ e l, r.Chain k e l n

def OnCycle (r : Rung) (k : Node) : Prop := ∃ e l, r.Chain k e l k

/-- Behind the marker `n` is an unsound marker or a cycle of markers. -/
def Broken (r : Rung) (n : Node) : Prop := ∃ k, r.MarkerBehind k n ∧ (¬ r.Sound k ∨ r.OnCycle k)

/-- The markers of the rung cannot be paired, or an edge that counts comes from a broken one. -/
def Malformed (r : Rung) : Prop :=
  (∃ cause, (ofRung r).pairs = .error cause) ∨
    ∃ m l n, r.Leads m l n ∧ n.Receives l ∧ m.kind.isParallel = true ∧ r.Broken m

end Rung

namespace Topology

theorem isSome_wire? {r : Rung} {e : Edge} :
    (wire? (indexNodes r.nodes) e).isSome = r.isComplete e := by
  have hs : (indexNodes r.nodes)[e.source]? = r.node? e.source := getElem?_indexNodes ..
  have ht : (indexNodes r.nodes)[e.target]? = r.node? e.target := getElem?_indexNodes ..
  simp only [wire?, hs, ht, Rung.isComplete]
  cases r.node? e.source <;> cases r.node? e.target <;> rfl

theorem map_edge_incoming (r : Rung) (n : Node) :
    ((ofRung r).incoming n).map (·.edge) = r.entering n := by
  rw [incoming_ofRung, Rung.entering]
  induction r.edges with
  | nil => rfl
  | cons e rest ih =>
    have hc : r.isComplete e = (wire? (indexNodes r.nodes) e).isSome := isSome_wire?.symm
    cases hw : wire? (indexNodes r.nodes) e with
    | none =>
      rw [hw] at hc
      simpa [hw, hc] using ih
    | some w =>
      rw [hw] at hc
      obtain ⟨he, -⟩ := wire?_eq_some.1 hw
      by_cases ht : e.target = n.id
      · simpa [hw, hc, he, ht] using ih
      · simpa [hw, hc, he, ht] using ih

theorem filter_entering_of_partition {r : Rung} {n : Node} {handle : String} {on off : List Wire}
    (h : ((ofRung r).incoming n).partition (·.edge.targetHandle == handle) = (on, off)) :
    (r.entering n).filter (·.targetHandle == handle) = on.map (·.edge) ∧
      (r.entering n).filter (·.targetHandle != handle) = off.map (·.edge) := by
  rw [List.partition_eq_filter_filter, Prod.mk.injEq] at h
  obtain ⟨rfl, rfl⟩ := h
  rw [← map_edge_incoming, List.filter_map, List.filter_map]
  exact ⟨rfl, rfl⟩

theorem sound_opener_iff {r : Rung} {n : Node} {branch : Connector}
    (hk : n.kind = .parallelOpen branch) : r.Sound n ↔ ∃ w, (ofRung r).incoming n = [w] := by
  unfold Rung.Sound
  rw [hk, ← map_edge_incoming, List.length_map]
  exact List.length_eq_one_iff

theorem sound_close_iff {r : Rung} {n : Node} {branch : Connector}
    (hk : n.kind = .parallelClose branch) :
    r.Sound n ↔ ∃ s p, ((ofRung r).incoming n).partition
      (·.edge.targetHandle == branch.id) = ([p], [s]) := by
  unfold Rung.Sound
  rw [hk]
  simp only [← map_edge_incoming, List.countP_map]
  simp only [List.countP_eq_length_filter, List.length_eq_one_iff,
    List.partition_eq_filter_filter, Prod.mk.injEq]
  constructor
  · rintro ⟨⟨p, hp⟩, s, hs⟩
    exact ⟨s, p, hp, hs⟩
  · rintro ⟨s, p, hp, hs⟩
    exact ⟨⟨p, hp⟩, s, hs⟩

end Topology

namespace Rung

variable {r : Rung} {k m n : Node} {l : Edge}

theorem MarkerBehind.exists_chain (h : r.MarkerBehind k m) (hl : r.Leads m l n) :
    ∃ e, r.Chain k e l n := by
  rcases h.chain with rfl | ⟨e, f, hc⟩
  · exact ⟨l, .edge hl⟩
  · exact ⟨e, .pass hc h.start hl⟩

theorem MarkerBehind.step (h : r.MarkerBehind k m) (hl : r.Leads m l n)
    (hn : n.kind.isParallel = true) : r.MarkerBehind k n := by
  obtain ⟨e, hc⟩ := h.exists_chain hl
  exact ⟨hn, h.marker, .inr ⟨e, l, hc⟩⟩

theorem Chain.markerBehind {e : Edge} (h : r.Chain k e l n) (hk : k.kind.isParallel = true) :
    ∃ m, r.Leads m l n ∧ r.MarkerBehind k m := by
  cases h with
  | edge hl => exact ⟨k, hl, hk, hk, .inl rfl⟩
  | pass hc hm hl => exact ⟨_, hl, hm, hk, .inr ⟨_, _, hc⟩⟩

theorem MarkerBehind.eq_or_exists (h : r.MarkerBehind k n) :
    k = n ∨ ∃ m l, r.Leads m l n ∧ r.MarkerBehind k m := by
  rcases h.chain with rfl | ⟨e, l, hc⟩
  · exact .inl rfl
  · obtain ⟨m, hl, hm⟩ := hc.markerBehind h.marker
    exact .inr ⟨m, l, hl, hm⟩

theorem MarkerBehind.node? (h : r.MarkerBehind k n) (hn : r.node? n.id = some n) :
    r.node? k.id = some k := by
  rcases h.chain with rfl | ⟨e, l, hc⟩
  · exact hn
  · obtain ⟨m, hm⟩ := hc.leads_first
    exact hm.node?_source

theorem Broken.isParallel (h : r.Broken n) : n.kind.isParallel = true := by
  obtain ⟨k, hk, -⟩ := h
  exact hk.start

theorem OnCycle.of_leads (h : r.MarkerBehind n m) (hl : r.Leads m l n) : r.OnCycle n := by
  obtain ⟨e, hc⟩ := h.exists_chain hl
  exact ⟨e, l, hc⟩

end Rung

namespace Topology

variable {r : Rung} {n : Node} {fresh : List String}

/-- Behind `n` stand only sound markers with ids among `fresh`, and no cycle. -/
def Clear (r : Rung) (fresh : List String) (n : Node) : Prop :=
  ∀ k, r.MarkerBehind k n → k.id ∈ fresh ∧ r.Sound k ∧ ¬ r.OnCycle k

theorem clear_of_not_parallel (h : n.kind.isParallel = false) : Clear r fresh n := by
  intro k hk
  have hp := hk.start
  rw [h] at hp
  cases hp

theorem clear_of_incoming (hn : r.node? n.id = some n) (hf : n.id ∈ fresh) (hs : r.Sound n)
    (h : ∀ w ∈ (ofRung r).incoming n, Clear r (without fresh n.id) w.source) :
    Clear r fresh n := by
  have hclear {m k : Node} {l : Edge} (hl : r.Leads m l n) (hk : r.MarkerBehind k m) :
      k.id ∈ without fresh n.id ∧ r.Sound k ∧ ¬ r.OnCycle k :=
    h ⟨l, m, n⟩ (mem_incoming_of_leads hl) k hk
  intro k hk
  rcases hk.eq_or_exists with rfl | ⟨m, l, hl, hm⟩
  · refine ⟨hf, hs, ?_⟩
    rintro ⟨e, l, hc⟩
    obtain ⟨m, hl, hm⟩ := hc.markerBehind hk.marker
    obtain ⟨hid, -⟩ := hclear hl hm
    simp [without] at hid
  · obtain ⟨hid, hrest⟩ := hclear hl hm
    exact ⟨(List.mem_filter.1 hid).1, hrest⟩

/-- What is clear behind a marker is clear behind the wires into it, and the marker is met on no
way there. -/
theorem Clear.incoming (h : Clear r fresh n) (hn : r.node? n.id = some n)
    (hp : n.kind.isParallel = true) {w : Wire} (hw : w ∈ (ofRung r).incoming n) :
    Clear r (without fresh n.id) w.source := by
  have hl : r.Leads w.source w.edge n := leads_of_mem_incoming hn hw
  intro k hk
  obtain ⟨hid, hsound, hcycle⟩ := h k (hk.step hl hp)
  have hne : k.id ≠ n.id := by
    intro he
    have hkn : k = n := by
      have hk' := hk.node? hl.node?_source
      rw [he, hn] at hk'
      exact (Option.some.inj hk').symm
    subst hkn
    exact hcycle (.of_leads hk hl)
  exact ⟨List.mem_filter.2 ⟨hid, by simpa using hne⟩, hsound, hcycle⟩

/-- A resolution goes through sound markers only, and never round. -/
theorem Resolves.clear {leaving : Option String} {res : Resolution}
    (h : Resolves (ofRung r) fresh leaving n res) (hn : r.node? n.id = some n) :
    Clear r fresh n := by
  induction h with
  | direct hp => exact clear_of_not_parallel hp
  | @opener fresh leaving n branch w feed hk hf hw _ ih =>
    refine clear_of_incoming hn hf ((sound_opener_iff hk).2 ⟨w, hw⟩) fun x hx => ?_
    have hl := leads_of_mem_incoming hn hx
    rw [hw, List.mem_singleton] at hx
    subst hx
    exact ih hl.node?_source
  | @close fresh leaving n branch s p serial parallel hk hf hp _ _ ihs ihp =>
    refine clear_of_incoming hn hf ((sound_close_iff hk).2 ⟨s, p, hp⟩) fun x hx => ?_
    have hl := leads_of_mem_incoming hn hx
    rw [List.mem_partition (p := (·.edge.targetHandle == branch.id)), hp, List.mem_singleton,
      List.mem_singleton] at hx
    rcases hx with rfl | rfl
    · exact ihp hl.node?_source
    · exact ihs hl.node?_source

theorem Clear.exists_resolves {leaving : Option String} (h : Clear r fresh n)
    (hn : r.node? n.id = some n) : ∃ res, Resolves (ofRung r) fresh leaving n res := by
  have hself {fresh : List String} {n : Node} (h : Clear r fresh n)
      (hp : n.kind.isParallel = true) : n.id ∈ fresh ∧ r.Sound n :=
    have ⟨hf, hs, _⟩ := h n ⟨hp, hp, .inl rfl⟩
    ⟨hf, hs⟩
  induction fresh, leaving, n using resolveFrom.induct (ofRung r) with
  | case1 fresh leaving n branch hk hf w hw ih =>
    have hp : n.kind.isParallel = true := by rw [hk]; rfl
    have hm : w ∈ (ofRung r).incoming n := by rw [hw]; exact List.mem_singleton_self w
    obtain ⟨feed, hfeed⟩ := ih (h.incoming hn hp hm) (leads_of_mem_incoming hn hm).node?_source
    exact ⟨_, .opener hk hf hw hfeed⟩
  | case2 fresh leaving n branch hk hf hw =>
    obtain ⟨-, hs⟩ := hself h (by rw [hk]; rfl)
    obtain ⟨w, hw'⟩ := (sound_opener_iff hk).1 hs
    exact (hw w hw').elim
  | case3 fresh leaving n branch hk hf =>
    exact (hf (hself h (by rw [hk]; rfl)).1).elim
  | case4 fresh leaving n branch hk hf s p hpart ihs ihp =>
    have hp : n.kind.isParallel = true := by rw [hk]; rfl
    have hmem {w : Wire} (hw : w = s ∨ w = p) : w ∈ (ofRung r).incoming n := by
      rw [List.mem_partition (p := (·.edge.targetHandle == branch.id)), hpart]
      simpa [or_comm] using hw
    obtain ⟨serial, hserial⟩ := ihs (h.incoming hn hp (hmem (.inl rfl)))
      (leads_of_mem_incoming hn (hmem (.inl rfl))).node?_source
    obtain ⟨parallel, hparallel⟩ := ihp (h.incoming hn hp (hmem (.inr rfl)))
      (leads_of_mem_incoming hn (hmem (.inr rfl))).node?_source
    exact ⟨_, .close hk hf hpart hserial hparallel⟩
  | case5 fresh leaving n branch hk hf w parallel hw hpart =>
    obtain ⟨-, hs⟩ := hself h (by rw [hk]; rfl)
    obtain ⟨s, p, hp⟩ := (sound_close_iff hk).1 hs
    rw [hpart] at hp
    exact (hw p (Prod.mk.inj hp).1).elim
  | case6 fresh leaving n branch hk hf parallel serial hw _ hpart =>
    obtain ⟨-, hs⟩ := hself h (by rw [hk]; rfl)
    obtain ⟨s, p, hp⟩ := (sound_close_iff hk).1 hs
    rw [hpart] at hp
    exact (hw s (Prod.mk.inj hp).2).elim
  | case7 fresh leaving n branch hk hf =>
    exact (hf (hself h (by rw [hk]; rfl)).1).elim
  | case8 fresh leaving n ho hc => exact ⟨_, .direct (Node.isParallel_eq_false ho hc)⟩

/-- A node can be resolved unless something behind it is broken. -/
theorem exists_resolveFrom_eq_ok_iff {leaving : Option String} (hn : r.node? n.id = some n) :
    (∃ res, (ofRung r).resolveFrom (ofRung r).ids leaving n = .ok res) ↔ ¬ r.Broken n := by
  simp only [resolves_iff]
  constructor
  · rintro ⟨res, h⟩ ⟨k, hk, hbad⟩
    obtain ⟨-, hsound, hcycle⟩ := h.clear hn k hk
    rcases hbad with hbad | hbad
    · exact hbad hsound
    · exact hcycle hbad
  · intro h
    refine Clear.exists_resolves (fun k hk => ⟨?_, ?_, ?_⟩) hn
    · exact List.mem_map_of_mem (Rung.mem_of_node? (hk.node? hn))
    · by_contra hs
      exact h ⟨k, hk, .inl hs⟩
    · intro hc
      exact h ⟨k, hk, .inr hc⟩

end Topology

namespace RungContext

variable {r : Rung} {index : Nat} {offset : Offset}

theorem exists_connectionsOf_eq_ok_iff {target : Point} {w : Wire}
    (hw : r.node? w.source.id = some w.source) :
    (∃ cs, (r.context index offset).connectionsOf target w = .ok cs) ↔ ¬ r.Broken w.source := by
  unfold connectionsOf
  split
  · rw [exists_bind_pure_eq_ok_iff]
    exact Topology.exists_resolveFrom_eq_ok_iff hw
  · rename_i hsrc
    exact iff_of_true ⟨[], rfl⟩ fun h => hsrc (Node.isWireSource_of_isParallel h.isParallel)

theorem exists_collect_eq_ok_iff {n : Node} {side : Option String} {target : Point} :
    (∃ cs, (r.context index offset).collect n side target = .ok cs) ↔
      ∀ m l, r.Enters m l n side → ¬ r.Broken m := by
  unfold collect
  rw [exists_bind_pure_eq_ok_iff, exists_mapM_eq_ok_iff]
  have hnode {w : Wire} (hw : w ∈ (ofRung r).incoming n side) :
      r.node? w.source.id = some w.source := (mem_incoming.1 hw).1.node?_source
  constructor
  · intro h m l hm
    obtain ⟨w, hw, rfl, rfl⟩ := Rung.enters_iff.1 hm
    exact (exists_connectionsOf_eq_ok_iff (hnode hw)).1 (h w hw)
  · intro h w hw
    refine (exists_connectionsOf_eq_ok_iff (hnode hw)).2 (h w.source w.edge ?_)
    exact Rung.enters_iff.2 ⟨w, hw, rfl, rfl⟩

theorem exists_pinSource_eq_ok_iff {n : Node} {pin : Connector} :
    (∃ source, (r.context index offset).pinSource n pin = .ok source) ↔
      ∀ m l, r.Enters m l n (some pin.id) → ¬ r.Broken m := by
  refine (exists_bind_eq_ok_iff fun cs => ?_).trans exists_collect_eq_ok_iff
  cases cs <;> exact ⟨_, rfl⟩

theorem exists_emit_eq_ok_iff {n : Node} :
    (∃ em, (r.context index offset).emit n = .ok em) ↔
      ∀ side ∈ n.sides, ∀ m l, r.Enters m l n side → ¬ r.Broken m := by
  unfold emit Node.sides
  cases hk : n.kind with
  | rightRail | contact | coil =>
    simp only [rightRail, contact, coil, intoNode]
    rw [exists_bind_pure_eq_ok_iff, exists_bind_pure_eq_ok_iff,
      exists_collect_eq_ok_iff, List.forall_mem_singleton]
  | block data =>
    simp only [block, pins]
    rw [exists_bind_pure_eq_ok_iff, exists_bind_pure_eq_ok_iff,
      exists_mapM_eq_ok_iff, List.forall_mem_map]
    refine forall₂_congr fun pin _ => ?_
    rw [exists_bind_pure_eq_ok_iff, exists_pinSource_eq_ok_iff]
  | variableOut data =>
    refine iff_of_true ?_ (fun _ h => by cases h)
    simp only
    split <;> exact ⟨_, rfl⟩
  | _ => exact iff_of_true ⟨_, rfl⟩ (fun _ h => by cases h)

end RungContext

namespace Rung

variable {r : Rung} {index : Nat} {offset : Offset}

theorem exists_lower_eq_ok_iff :
    (∃ low, r.lower index offset = .ok low) ↔
      (∃ pairs, (ofRung r).pairs = .ok pairs) ∧
        ∀ n ∈ r.nodes, ∃ em, (r.context index offset).emit n = .ok em := by
  constructor
  · rintro ⟨low, h⟩
    obtain ⟨hp, emitted, hem, -⟩ := lower_eq_ok h
    exact ⟨hp, exists_mapM_eq_ok_iff.1 ⟨emitted, hem⟩⟩
  · rintro ⟨⟨pairs, hp⟩, hem⟩
    obtain ⟨emitted, hem⟩ := exists_mapM_eq_ok_iff.2 hem
    exact ⟨_, bind_eq_ok.2 ⟨pairs, hp, bind_eq_ok.2 ⟨emitted, hem, rfl⟩⟩⟩

theorem receives_iff_enters (hd : (r.nodes.map (·.id)).Nodup) {m n : Node} {l : Edge} :
    r.Leads m l n ∧ n.Receives l ↔
      n ∈ r.nodes ∧ ∃ side ∈ n.sides, r.Enters m l n side := by
  rw [Node.receives_iff]
  constructor
  · rintro ⟨hl, side, hs, hh⟩
    exact ⟨mem_of_node? hl.target, side, hs, ⟨n, hl⟩, (id_of_node? hl.target).symm, hh⟩
  · rintro ⟨hn, side, hs, ⟨b, hl⟩, ht, hh⟩
    have hb := hl.target
    rw [ht, node?_of_mem hd hn] at hb
    cases hb
    exact ⟨hl, side, hs, hh⟩

theorem exists_lower_eq_ok_iff_not_malformed (hd : (r.nodes.map (·.id)).Nodup) :
    (∃ low, r.lower index offset = .ok low) ↔ ¬ r.Malformed := by
  have hbroken : (∀ n ∈ r.nodes, ∃ em, (r.context index offset).emit n = .ok em) ↔
      ¬ ∃ m l n, r.Leads m l n ∧ n.Receives l ∧ m.kind.isParallel = true ∧ r.Broken m := by
    simp only [RungContext.exists_emit_eq_ok_iff]
    constructor
    · rintro h ⟨m, l, n, hl, hr, -, hb⟩
      obtain ⟨hn, side, hs, he⟩ := (receives_iff_enters hd).1 ⟨hl, hr⟩
      exact h n hn side hs m l he hb
    · intro h n hn side hs m l he hb
      obtain ⟨hl, hr⟩ := (receives_iff_enters hd).2 ⟨hn, side, hs, he⟩
      exact h ⟨m, l, n, hl, hr, hb.isParallel, hb⟩
  rw [exists_lower_eq_ok_iff, hbroken, Malformed, not_or, exists_eq_error_iff, not_not]

end Rung

/-- **When a rung fails.** A failure tells of a rung exactly if it is malformed; otherwise it is
exported, and every node of it that is not left out has its element in the body, shared rails
aside. -/
theorem rung_fails_iff_malformed {config : Config} {rungs : List Rung} {i : Nat} {r : Rung}
    (hr : rungs[i]? = some r) (hd : (r.nodes.map (·.id)).Nodup) :
    ((∃ f ∈ (lower config rungs).failures, f.rung = i) ↔ r.Malformed) ∧
      (¬ r.Malformed → ∀ n ∈ r.nodes, n.isExported = true →
        ∃ e, Contributes config rungs i r n e ∧
          ((config.sharedPowerRails = true → e.tag ≠ "leftRail" ∧ e.tag ≠ "rightRail") →
            e ∈ (lower config rungs).body.elements)) := by
  obtain ⟨o, ho, rfl, rfl⟩ := exists_outcome hr
  have hres := (getElem?_of_mem_outcomes ho).2
  have hok : (∃ low, o.result = .ok low) ↔ ¬ o.rung.Malformed := by
    rw [hres]
    exact Rung.exists_lower_eq_ok_iff_not_malformed hd
  refine ⟨by rw [exists_failure_iff ho, hok, not_not], fun h n hn hx => ?_⟩
  obtain ⟨low, hlow⟩ := hok.2 h
  rw [hlow] at hres
  obtain ⟨e, he⟩ := Rung.exists_emits_of_isExported hres.symm hn hx
  have hc : Contributes config rungs o.index o.rung n
      (e.adapted config (plainBody rungs).redirect) := ⟨o, ho, rfl, rfl, ⟨low, hlow⟩, e, he, rfl⟩
  exact ⟨_, hc, hc.mem_elements⟩

/-- A coil behind a group with two empty sides: both of them lead back to the open marker. -/
def emptyGroup : Rung where
  nodes := [
    { id := "rail", numericId := 1, kind := .leftRail },
    { id := "open", numericId := 2, kind := .parallelOpen { id := "down" } },
    { id := "close", numericId := 3, kind := .parallelClose { id := "up" } },
    { id := "x", numericId := 4, kind := .coil "x" .normal }]
  edges := [
    ⟨"rail", "out", "open", "in"⟩, ⟨"open", "out", "close", "in"⟩, ⟨"open", "down", "close", "up"⟩,
    ⟨"close", "out", "x", "in"⟩]

/-- A group that feeds itself. Its markers are paired and each of them is sound. -/
def selfFedGroup : Rung where
  nodes := [
    { id := "open", numericId := 5, kind := .parallelOpen { id := "down" } },
    { id := "c", numericId := 6, kind := .contact "c" .normal, output := some { id := "out" } },
    { id := "close", numericId := 7, kind := .parallelClose { id := "up" } },
    { id := "y", numericId := 8, kind := .coil "y" .normal }]
  edges := [
    ⟨"open", "out", "close", "in"⟩, ⟨"open", "down", "c", "in"⟩, ⟨"c", "out", "close", "up"⟩,
    ⟨"close", "out", "open", "in"⟩, ⟨"close", "out", "y", "in"⟩]

/-- The group that feeds itself fails for its cycle alone; the empty one is met twice and
exported. -/
theorem selfFedGroup_fails :
    (selfFedGroup.nodes.map (·.id)).Nodup ∧ (emptyGroup.nodes.map (·.id)).Nodup ∧
      (∃ pairs, (ofRung selfFedGroup).pairs = .ok pairs) ∧ selfFedGroup.Malformed ∧
      (∃ f ∈ (lower (.ofDialect .codesys) [emptyGroup, selfFedGroup]).failures, f.rung = 1) ∧
      ¬ emptyGroup.Malformed ∧
      ∃ n ∈ emptyGroup.nodes, n.id = "x" ∧
        ∃ e, Contributes (.ofDialect .codesys) [emptyGroup, selfFedGroup] 0 emptyGroup n e ∧
          e ∈ (lower (.ofDialect .codesys) [emptyGroup, selfFedGroup]).body.elements := by
  have hself : (selfFedGroup.nodes.map (·.id)).Nodup := by decide +kernel
  have hempty : (emptyGroup.nodes.map (·.id)).Nodup := by decide +kernel
  have hpairs : (ofRung selfFedGroup).pairs.toOption.isSome = true := by decide +kernel
  have hfails : ∀ f ∈ (lower (.ofDialect .codesys) [emptyGroup, selfFedGroup]).failures,
      f.rung ≠ 0 := by decide +kernel
  have hback : selfFedGroup.Leads selfFedGroup.nodes[2] ⟨"close", "out", "open", "in"⟩
      selfFedGroup.nodes[0] := ⟨by decide, rfl, rfl⟩
  have hforth : selfFedGroup.Leads selfFedGroup.nodes[0] ⟨"open", "out", "close", "in"⟩
      selfFedGroup.nodes[2] := ⟨by decide, rfl, rfl⟩
  have hfeed : selfFedGroup.Leads selfFedGroup.nodes[2] ⟨"close", "out", "y", "in"⟩
      selfFedGroup.nodes[3] := ⟨by decide, rfl, rfl⟩
  have hcycle : selfFedGroup.OnCycle selfFedGroup.nodes[2] :=
    ⟨_, _, .pass (.edge hback) rfl hforth⟩
  have hmal : selfFedGroup.Malformed :=
    .inr ⟨_, _, _, hfeed, trivial, rfl, _, ⟨rfl, rfl, .inl rfl⟩, .inr hcycle⟩
  obtain ⟨hlist, -⟩ :=
    @rung_fails_iff_malformed (.ofDialect .codesys) [emptyGroup, selfFedGroup] 1 _ rfl hself
  obtain ⟨hsound, hexported⟩ :=
    @rung_fails_iff_malformed (.ofDialect .codesys) [emptyGroup, selfFedGroup] 0 _ rfl hempty
  have hnot : ¬ emptyGroup.Malformed := fun h =>
    have ⟨f, hf, hi⟩ := hsound.2 h
    hfails f hf hi
  have hx : emptyGroup.nodes[3] ∈ emptyGroup.nodes := List.getElem_mem _
  obtain ⟨e, hc, he⟩ := hexported hnot _ hx rfl
  refine ⟨hself, hempty, ?_, hmal, hlist.2 hmal, hnot, _, hx, rfl, e, hc, he fun _ => ?_⟩
  · cases hp : (ofRung selfFedGroup).pairs with
    | ok pairs => exact ⟨pairs, rfl⟩
    | error cause => rw [hp] at hpairs; cases hpairs
  · rw [hc.localId.2]
    decide +kernel

end LadderDiagram
