import LadderDiagram.Graph.Resolution
import LadderDiagram.Proofs.Success
import Mathlib.Data.List.Nodup

/-!
# Chains of wires through markers

`Rung.Leads` says that an edge joins two nodes of a rung, `Rung.Chain` that a
sequence of edges joins them by way of markers only. A node is `Behind` another
if the other stands for it: a marker stands for the nodes at the far ends of the
chains into it, any other node for itself.

`Topology.Resolves` is a resolution as a derivation; `resolves_iff` ties it to
`Topology.resolveFrom`, and `Resolves.mem_sources_iff` says that a resolution
names exactly the nodes behind the one it starts from.
-/

namespace LadderDiagram

theorem Node.isParallel_eq_false {n : Node} (ho : ∀ branch, n.kind ≠ .parallelOpen branch)
    (hc : ∀ branch, n.kind ≠ .parallelClose branch) : n.kind.isParallel = false := by
  cases hk : n.kind with
  | parallelOpen branch => exact (ho branch hk).elim
  | parallelClose branch => exact (hc branch hk).elim
  | _ => rfl

namespace Rung

theorem mem_of_node? {r : Rung} {id : String} {n : Node} (h : r.node? id = some n) :
    n ∈ r.nodes := List.mem_of_find?_eq_some h

theorem id_of_node? {r : Rung} {id : String} {n : Node} (h : r.node? id = some n) :
    n.id = id := by simpa using List.find?_some h

/-- Among nodes of distinct ids, every node is the first with its id. -/
theorem node?_of_mem {r : Rung} (hd : (r.nodes.map (·.id)).Nodup) {n : Node} (hn : n ∈ r.nodes) :
    r.node? n.id = some n := by
  obtain ⟨m, hm⟩ : ∃ m, r.node? n.id = some m := by
    have : (r.node? n.id).isSome := List.find?_isSome.2 ⟨n, hn, by simp⟩
    exact Option.isSome_iff_exists.1 this
  rw [hm, List.inj_on_of_nodup_map hd (mem_of_node? hm) hn (id_of_node? hm)]

structure Leads (r : Rung) (a : Node) (e : Edge) (b : Node) : Prop where
  mem : e ∈ r.edges
  source : r.node? e.source = some a
  target : r.node? e.target = some b

/-- From `a`, by the edge `e` first and the edge `l` last, through markers only, to `b`. -/
inductive Chain (r : Rung) (a : Node) (e : Edge) : Edge → Node → Prop where
  | edge {b : Node} : r.Leads a e b → Chain r a e e b
  | pass {l f : Edge} {m b : Node} : Chain r a e l m → m.kind.isParallel = true →
      r.Leads m f b → Chain r a e f b

/-- The node `a` is what `b` stands for, or one of the nodes that it stands for. -/
def Behind (r : Rung) (a b : Node) : Prop :=
  a.kind.isParallel = false ∧
    (a = b ∨ b.kind.isParallel = true ∧ ∃ e l, r.Chain a e l b)

theorem Chain.leads_last {r : Rung} {a b : Node} {e l : Edge} (h : r.Chain a e l b) :
    ∃ m, r.Leads m l b := by
  cases h with
  | edge h => exact ⟨_, h⟩
  | pass _ _ h => exact ⟨_, h⟩

theorem Chain.leads_first {r : Rung} {a b : Node} {e l : Edge} (h : r.Chain a e l b) :
    ∃ m, r.Leads a e m := by
  induction h with
  | edge h => exact ⟨_, h⟩
  | pass _ _ _ ih => exact ih

theorem Chain.cons {r : Rung} {a m b : Node} {f e l : Edge} (hf : r.Leads a f m)
    (hm : m.kind.isParallel = true) (h : r.Chain m e l b) : r.Chain a f l b := by
  induction h with
  | edge hl => exact .pass (.edge hf) hm hl
  | pass _ hp hl ih => exact .pass ih hp hl

/-- A chain that ends on a marker begins with an edge to a marker. -/
theorem Chain.first_parallel {r : Rung} {a b : Node} {e l : Edge} (h : r.Chain a e l b)
    (hb : b.kind.isParallel = true) : ∃ m, m.kind.isParallel = true ∧ r.Leads a e m := by
  induction h with
  | edge h => exact ⟨_, hb, h⟩
  | pass _ hm _ ih => exact ih hm

theorem behind_of_not_parallel {r : Rung} {a b : Node} (hb : b.kind.isParallel = false) :
    r.Behind a b ↔ a = b := by
  constructor
  · rintro ⟨-, rfl | ⟨h, -⟩⟩
    · rfl
    · rw [hb] at h; cases h
  · rintro rfl
    exact ⟨hb, .inl rfl⟩

/-- A chain, without its last edge. -/
theorem chain_last_iff {r : Rung} {a b : Node} {l : Edge} (ha : a.kind.isParallel = false) :
    (∃ e, r.Chain a e l b) ↔ ∃ m, r.Leads m l b ∧ r.Behind a m := by
  constructor
  · rintro ⟨e, h⟩
    cases h with
    | edge h => exact ⟨a, h, ha, .inl rfl⟩
    | pass h hm hl => exact ⟨_, hl, ha, .inr ⟨hm, _, _, h⟩⟩
  · rintro ⟨m, hl, -, rfl | ⟨hm, e, k, h⟩⟩
    · exact ⟨l, .edge hl⟩
    · exact ⟨e, .pass h hm hl⟩

/-- A marker stands for what the nodes wired to it stand for. -/
theorem behind_of_parallel {r : Rung} {a b : Node} (hb : b.kind.isParallel = true) :
    r.Behind a b ↔ ∃ l m, r.Leads m l b ∧ r.Behind a m := by
  constructor
  · rintro ⟨ha, rfl | ⟨-, e, l, h⟩⟩
    · rw [ha] at hb; cases hb
    · exact ⟨l, (chain_last_iff ha).1 ⟨e, h⟩⟩
  · rintro ⟨l, m, hl, hm⟩
    obtain ⟨e, hc⟩ := (chain_last_iff hm.1).2 ⟨m, hl, hm⟩
    exact ⟨hm.1, .inr ⟨hb, e, l, hc⟩⟩

theorem Leads.node?_source {r : Rung} {a b : Node} {e : Edge} (h : r.Leads a e b) :
    r.node? a.id = some a := by rw [id_of_node? h.source, h.source]

theorem Leads.node?_target {r : Rung} {a b : Node} {e : Edge} (h : r.Leads a e b) :
    r.node? b.id = some b := by rw [id_of_node? h.target, h.target]

/-- Whatever is behind the first node with an id is itself the first with its id. -/
theorem Behind.node? {r : Rung} {a b : Node} (h : r.Behind a b) (hb : r.node? b.id = some b) :
    r.node? a.id = some a := by
  obtain ⟨-, rfl | ⟨-, e, l, hc⟩⟩ := h
  · exact hb
  · obtain ⟨m, hm⟩ := hc.leads_first
    exact hm.node?_source

end Rung

namespace Source

theorem mem_of_mem_distinctFrom {s : Source} {l : List Source} {seen : List String}
    (h : s ∈ distinctFrom seen l) : s ∈ l := by
  induction l generalizing seen with
  | nil => exact h
  | cons a l ih =>
    unfold distinctFrom at h
    split at h
    · exact List.mem_cons_of_mem _ (ih h)
    · rcases List.mem_cons.1 h with rfl | h
      · exact List.mem_cons_self
      · exact List.mem_cons_of_mem _ (ih h)

/-- Of the sources with one id, one is kept unless the id was met before. -/
theorem exists_mem_distinctFrom {s : Source} {l : List Source} {seen : List String} (h : s ∈ l)
    (hs : s.node.id ∉ seen) : ∃ s' ∈ distinctFrom seen l, s'.node.id = s.node.id := by
  induction l generalizing seen with
  | nil => cases h
  | cons a l ih =>
    unfold distinctFrom
    by_cases ha : a.node.id ∈ seen
    · rw [if_pos ha]
      rcases List.mem_cons.1 h with rfl | h
      · exact (hs ha).elim
      · exact ih h hs
    · rw [if_neg ha]
      by_cases he : a.node.id = s.node.id
      · exact ⟨a, List.mem_cons_self, he⟩
      · rcases List.mem_cons.1 h with rfl | h
        · exact (he rfl).elim
        · have hn : s.node.id ∉ a.node.id :: seen := by
            simp only [List.mem_cons, not_or]
            exact ⟨Ne.symm he, hs⟩
          obtain ⟨s', hs', e⟩ := ih h hn
          exact ⟨s', List.mem_cons_of_mem _ hs', e⟩

/-- Where ids tell nodes apart, dropping repeated ids drops no node. -/
theorem exists_mem_distinct_iff {l : List Source} {a : Node}
    (hl : ∀ s ∈ l, ∀ s' ∈ l, s.node.id = s'.node.id → s.node = s'.node) :
    (∃ s ∈ distinct l, s.node = a) ↔ ∃ s ∈ l, s.node = a := by
  constructor
  · rintro ⟨s, hs, rfl⟩
    exact ⟨s, mem_of_mem_distinctFrom hs, rfl⟩
  · rintro ⟨s, hs, rfl⟩
    obtain ⟨s', hs', e⟩ := exists_mem_distinctFrom hs List.not_mem_nil
    exact ⟨s', hs', hl s' (mem_of_mem_distinctFrom hs') s hs e⟩

theorem exists_mem_through_iff {c : Connector} {l : List Source} {a : Node} :
    (∃ s ∈ through c l, s.node = a) ↔ ∃ s ∈ l, s.node = a := by
  simp [through]

end Source

namespace Topology

theorem wire?_eq_some {r : Rung} {e : Edge} {w : Wire} :
    wire? (indexNodes r.nodes) e = some w ↔
      w.edge = e ∧ r.node? e.source = some w.source ∧ r.node? e.target = some w.target := by
  obtain ⟨e', a, b⟩ := w
  have hs : (indexNodes r.nodes)[e.source]? = r.node? e.source := getElem?_indexNodes ..
  have ht : (indexNodes r.nodes)[e.target]? = r.node? e.target := getElem?_indexNodes ..
  simp only [wire?, hs, ht]
  cases r.node? e.source <;> cases r.node? e.target <;> simp [eq_comm]

theorem mem_incoming {r : Rung} {n : Node} {c : Option String} {w : Wire} :
    w ∈ (ofRung r).incoming n c ↔
      r.Leads w.source w.edge w.target ∧ w.edge.target = n.id ∧
        ∀ h ∈ c, w.edge.targetHandle = h := by
  rw [incoming_ofRung]
  simp only [List.mem_filter, List.mem_filterMap, wire?_eq_some, beq_iff_eq, Option.all_eq_true]
  constructor
  · rintro ⟨⟨⟨e, he, rfl, hs, ht⟩, hn⟩, hc⟩
    exact ⟨⟨he, hs, ht⟩, hn, hc⟩
  · rintro ⟨⟨he, hs, ht⟩, hn, hc⟩
    exact ⟨⟨⟨_, he, rfl, hs, ht⟩, hn⟩, hc⟩

theorem mem_outgoing {r : Rung} {n : Node} {c : String} {w : Wire} :
    w ∈ (ofRung r).outgoing n c ↔
      r.Leads w.source w.edge w.target ∧ w.edge.source = n.id ∧ w.edge.sourceHandle = c := by
  rw [outgoing_ofRung]
  simp only [List.mem_filter, List.mem_filterMap, wire?_eq_some, beq_iff_eq]
  constructor
  · rintro ⟨⟨⟨e, he, rfl, hs, ht⟩, hn⟩, hc⟩
    exact ⟨⟨he, hs, ht⟩, hn, hc⟩
  · rintro ⟨⟨he, hs, ht⟩, hn, hc⟩
    exact ⟨⟨⟨_, he, rfl, hs, ht⟩, hn⟩, hc⟩

/-- A resolution that succeeds, step by step. -/
inductive Resolves (t : Topology) :
    List String → Option String → Node → Resolution → Prop where
  | direct {fresh : List String} {leaving : Option String} {n : Node} :
      n.kind.isParallel = false → Resolves t fresh leaving n (.direct n)
  | opener {fresh : List String} {leaving : Option String} {n : Node} {branch : Connector}
      {w : Wire} {feed : Resolution} :
      n.kind = .parallelOpen branch → n.id ∈ fresh → t.incoming n = [w] →
      Resolves t (without fresh n.id) (some w.edge.sourceHandle) w.source feed →
      Resolves t fresh leaving n (.behindOpen n branch (leaving == some branch.id) feed)
  | close {fresh : List String} {leaving : Option String} {n : Node} {branch : Connector}
      {s p : Wire} {serial parallel : Resolution} :
      n.kind = .parallelClose branch → n.id ∈ fresh →
      (t.incoming n).partition (·.edge.targetHandle == branch.id) = ([p], [s]) →
      Resolves t (without fresh n.id) (some s.edge.sourceHandle) s.source serial →
      Resolves t (without fresh n.id) (some p.edge.sourceHandle) p.source parallel →
      Resolves t fresh leaving n (.behindClose n branch serial parallel)

section
variable {t : Topology} {fresh : List String} {leaving : Option String} {n : Node}

theorem resolveFrom_direct (hn : n.kind.isParallel = false) :
    t.resolveFrom fresh leaving n = .ok (.direct n) := by
  rw [resolveFrom]
  cases hk : n.kind with
  | parallelOpen _ | parallelClose _ => rw [hk] at hn; cases hn
  | _ => rfl

theorem resolveFrom_opener {branch : Connector} {w : Wire} (hk : n.kind = .parallelOpen branch)
    (hn : n.id ∈ fresh) (hw : t.incoming n = [w]) :
    t.resolveFrom fresh leaving n =
      (t.resolveFrom (without fresh n.id) (some w.edge.sourceHandle) w.source >>= fun feed =>
        return .behindOpen n branch (leaving == some branch.id) feed) := by
  rw [resolveFrom]
  simp only [hk, hn, ↓reduceDIte, hw]

theorem resolveFrom_close {branch : Connector} {s p : Wire} (hk : n.kind = .parallelClose branch)
    (hn : n.id ∈ fresh)
    (hp : (t.incoming n).partition (·.edge.targetHandle == branch.id) = ([p], [s])) :
    t.resolveFrom fresh leaving n =
      (t.resolveFrom (without fresh n.id) (some s.edge.sourceHandle) s.source >>= fun serial =>
        t.resolveFrom (without fresh n.id) (some p.edge.sourceHandle) p.source >>= fun parallel =>
          return .behindClose n branch serial parallel) := by
  rw [resolveFrom]
  simp only [hk, hn, ↓reduceDIte, hp]

theorem resolveFrom_met (hk : n.kind.isParallel = true) (hn : n.id ∉ fresh) :
    t.resolveFrom fresh leaving n = .error (.markerCycle n.id) := by
  rw [resolveFrom]
  cases h : n.kind with
  | parallelOpen _ | parallelClose _ => simp only [hn, ↓reduceDIte]
  | _ => rw [h] at hk; cases hk

theorem resolveFrom_opener_wires {branch : Connector} (hk : n.kind = .parallelOpen branch)
    (hn : n.id ∈ fresh) (hw : ∀ w, t.incoming n ≠ [w]) :
    t.resolveFrom fresh leaving n =
      .error (.markerCardinality n.id .serial (t.incoming n).length) := by
  rw [resolveFrom]
  simp only [hk, hn, ↓reduceDIte]

theorem resolveFrom_close_serial {branch : Connector} {parallel serial : List Wire}
    (hk : n.kind = .parallelClose branch) (hn : n.id ∈ fresh)
    (hp : (t.incoming n).partition (·.edge.targetHandle == branch.id) = (parallel, serial))
    (hs : ∀ s, serial ≠ [s]) :
    t.resolveFrom fresh leaving n = .error (.markerCardinality n.id .serial serial.length) := by
  rw [resolveFrom]
  simp only [hk, hn, ↓reduceDIte, hp]
  split
  · exact (hs _ rfl).elim
  · exact (hs _ rfl).elim
  · rfl

theorem resolveFrom_close_parallel {branch : Connector} {parallel : List Wire} {s : Wire}
    (hk : n.kind = .parallelClose branch) (hn : n.id ∈ fresh)
    (hp : (t.incoming n).partition (·.edge.targetHandle == branch.id) = (parallel, [s]))
    (hne : ∀ p, parallel ≠ [p]) :
    t.resolveFrom fresh leaving n =
      .error (.markerCardinality n.id .parallel parallel.length) := by
  rw [resolveFrom]
  simp only [hk, hn, ↓reduceDIte, hp]

theorem resolves_of_resolveFrom {res : Resolution} (h : t.resolveFrom fresh leaving n = .ok res) :
    Resolves t fresh leaving n res := by
  induction fresh, leaving, n using resolveFrom.induct t generalizing res with
  | case1 fresh leaving n branch hk hn w hw ih =>
    rw [resolveFrom_opener hk hn hw, bind_eq_ok] at h
    obtain ⟨feed, hf, h⟩ := h
    rw [← pure_eq_ok.1 h]
    exact .opener hk hn hw (ih hf)
  | case4 fresh leaving n branch hk hn s p hp ihs ihp =>
    simp only [resolveFrom_close hk hn hp, bind_eq_ok] at h
    obtain ⟨serial, hs, parallel, hq, h⟩ := h
    rw [← pure_eq_ok.1 h]
    exact .close hk hn hp (ihs hs) (ihp hq)
  | case8 fresh leaving n ho hc =>
    have hn := Node.isParallel_eq_false ho hc
    rw [resolveFrom_direct hn] at h
    rw [← Except.ok.inj h]
    exact .direct hn
  | case2 fresh leaving n branch hk hn hw =>
    rw [resolveFrom_opener_wires hk hn hw] at h
    cases h
  | case5 fresh leaving n branch hk hn s parallel hne hp =>
    rw [resolveFrom_close_parallel hk hn hp hne] at h
    cases h
  | case6 fresh leaving n branch hk hn parallel serial hne _ hp =>
    rw [resolveFrom_close_serial hk hn hp hne] at h
    cases h
  | case3 fresh leaving n branch hk hn | case7 fresh leaving n branch hk hn =>
    rw [resolveFrom_met (by rw [hk]; rfl) hn] at h
    cases h

theorem resolveFrom_of_resolves {res : Resolution} (h : Resolves t fresh leaving n res) :
    t.resolveFrom fresh leaving n = .ok res := by
  induction h with
  | direct hn => exact resolveFrom_direct hn
  | opener hk hn hw _ ih => rw [resolveFrom_opener hk hn hw, ih]; rfl
  | close hk hn hp _ _ ihs ihp => rw [resolveFrom_close hk hn hp, ihs, ihp]; rfl

theorem resolves_iff {res : Resolution} :
    t.resolveFrom fresh leaving n = .ok res ↔ Resolves t fresh leaving n res :=
  ⟨resolves_of_resolveFrom, resolveFrom_of_resolves⟩

/-- Only a resolution that starts from a marker has markers on its way. -/
theorem Resolves.path_isEmpty {res : Resolution} (h : Resolves t fresh leaving n res) :
    res.path.isEmpty = !n.kind.isParallel := by
  cases h with
  | direct hn => rw [hn]; rfl
  | opener hk => rw [hk]; rfl
  | close hk => rw [hk]; rfl

end

theorem leads_of_mem_incoming {r : Rung} {n : Node} {c : Option String} {w : Wire}
    (hn : r.node? n.id = some n) (hw : w ∈ (ofRung r).incoming n c) :
    r.Leads w.source w.edge n := by
  obtain ⟨hl, ht, -⟩ := mem_incoming.1 hw
  have hb : w.target = n := by
    have h := hl.target
    rw [ht, hn] at h
    exact (Option.some.inj h).symm
  exact hb ▸ hl

theorem mem_incoming_of_leads {r : Rung} {m n : Node} {l : Edge} (h : r.Leads m l n) :
    ⟨l, m, n⟩ ∈ (ofRung r).incoming n :=
  mem_incoming.2 ⟨h, (Rung.id_of_node? h.target).symm, by simp⟩

theorem behind_iff_incoming {r : Rung} {a n : Node} (hk : n.kind.isParallel = true)
    (hn : r.node? n.id = some n) :
    r.Behind a n ↔ ∃ w ∈ (ofRung r).incoming n, r.Behind a w.source := by
  rw [Rung.behind_of_parallel hk]
  constructor
  · rintro ⟨l, m, hl, hm⟩
    exact ⟨⟨l, m, n⟩, mem_incoming_of_leads hl, hm⟩
  · rintro ⟨w, hw, hm⟩
    exact ⟨w.edge, w.source, leads_of_mem_incoming hn hw, hm⟩

/-- A resolution names exactly the nodes behind the one it starts from. -/
theorem Resolves.mem_sources_iff {r : Rung} {fresh : List String} {leaving : Option String}
    {n : Node} {res : Resolution} (h : Resolves (ofRung r) fresh leaving n res)
    (hn : r.node? n.id = some n) {a : Node} :
    (∃ s ∈ res.sources, s.node = a) ↔ r.Behind a n := by
  induction h generalizing a with
  | direct hk => simp [Resolution.direct, Rung.behind_of_not_parallel hk, eq_comm]
  | @opener fresh leaving n branch w feed hk _ hw _ ih =>
    have hs : r.node? w.source.id = some w.source :=
      (mem_incoming.1 (hw ▸ List.mem_singleton_self w)).1.node?_source
    have hb : r.Behind a n ↔ r.Behind a w.source := by
      rw [behind_iff_incoming (by rw [hk]; rfl) hn, hw]
      simp
    rw [hb, ← ih hs]
    unfold Resolution.behindOpen
    split
    · exact Source.exists_mem_through_iff
    · rfl
  | @close fresh leaving n branch s p serial parallel hk _ hp _ _ ihs ihp =>
    have hmem : ∀ w, w ∈ (ofRung r).incoming n ↔ w = p ∨ w = s := by
      intro w
      rw [List.mem_partition (p := (·.edge.targetHandle == branch.id)), hp, List.mem_singleton,
        List.mem_singleton]
    have hs : r.node? s.source.id = some s.source :=
      (mem_incoming.1 ((hmem s).2 (.inr rfl))).1.node?_source
    have hq : r.node? p.source.id = some p.source :=
      (mem_incoming.1 ((hmem p).2 (.inl rfl))).1.node?_source
    have hall (b : Node) : (∃ x ∈ serial.sources ++ Source.through branch parallel.sources,
        x.node = b) ↔ r.Behind b n := by
      simp only [List.mem_append, or_and_right, exists_or, ihs hs, Source.exists_mem_through_iff,
        ihp hq, behind_iff_incoming (a := b) (by rw [hk]; rfl) hn, hmem, exists_eq_left]
      exact or_comm
    rw [← hall]
    apply Source.exists_mem_distinct_iff
    intro x hx y hy e
    have hx' := ((hall x.node).1 ⟨x, hx, rfl⟩).node? hn
    have hy' := ((hall y.node).1 ⟨y, hy, rfl⟩).node? hn
    rw [e, hy'] at hx'
    exact (Option.some.inj hx').symm

end Topology

end LadderDiagram
