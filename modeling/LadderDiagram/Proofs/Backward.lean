import LadderDiagram.Proofs.Failure

/-!
# Backward chains

A wire that leaves a marker stands for the elements behind it. `Rung.Backward` says that a chain of
links leads back from a node, by way of markers, to one that is no marker; `Rung.Unwinds` lists all
of these chains depth first, at a close marker those of its serial side before those of its branch.
On each of them the connector of a branch that is met first gives the column (`Link.column`).

The resolver keeps each node once at every close marker, and rewrites columns on its way out.
`trace_unwinds` says that it comes to the same as to list the chains, to take the end and the column
of each, and then to keep the first source with each id.
-/

namespace LadderDiagram

open LadderDiagram.Topology (ofRung Resolves without mem_incoming resolves_iff)

namespace Node

/-- The branch connector of a close marker, if the edge lands on it. -/
def landing (n : Node) (e : Edge) : Option Connector :=
  match n.kind with
  | .parallelClose branch => if e.targetHandle = branch.id then some branch else none
  | _ => none

/-- The branch connector of an open marker, if the edge leaves through it. -/
def departure (n : Node) (e : Edge) : Option Connector :=
  match n.kind with
  | .parallelOpen branch => if e.sourceHandle = branch.id then some branch else none
  | _ => none

end Node

structure Link where
  edge : Edge
  source : Node
  deriving DecidableEq

namespace Link

/-- Where the chain of links that starts at `n` ends. -/
def origin (n : Node) : List Link → Node
  | [] => n
  | l :: rest => origin l.source rest

/-- The connector of a branch that is met first on the chain of links that starts at `n`. -/
def column (n : Node) : List Link → Option Connector
  | [] => none
  | l :: rest => (n.landing l.edge).or ((l.source.departure l.edge).or (column l.source rest))

/-- What a chain that begins with the link `l` contributes. Where `l` itself lands is left out. -/
def contribution (l : Link) (rest : List Link) : Source :=
  ⟨origin l.source rest, (l.source.departure l.edge).or (column l.source rest)⟩

end Link

namespace Rung

/-- The links lead back from `n`, by way of markers, to a node that is no marker. -/
inductive Backward (r : Rung) : Node → List Link → Prop where
  | ends {n : Node} : n.kind.isParallel = false → Backward r n []
  | goes {n : Node} {l : Link} {rest : List Link} :
      n.kind.isParallel = true → l.edge ∈ r.entering n → r.node? l.edge.source = some l.source →
      Backward r l.source rest → Backward r n (l :: rest)

/-- The chains of links that lead back from a node, and the markers met, both depth first: at a
close marker the serial side comes before the branch. -/
inductive Unwinds (r : Rung) : Node → List (List Link) → List Node → Prop where
  | element {n : Node} : n.kind.isParallel = false → Unwinds r n [[]] []
  | opener {n : Node} {branch : Connector} {l : Link} {chains : List (List Link)}
      {met : List Node} :
      n.kind = .parallelOpen branch → r.entering n = [l.edge] →
      r.node? l.edge.source = some l.source → Unwinds r l.source chains met →
      Unwinds r n (chains.map (l :: ·)) (n :: met)
  | close {n : Node} {branch : Connector} {s p : Link} {serial parallel : List (List Link)}
      {met met' : List Node} :
      n.kind = .parallelClose branch →
      (r.entering n).filter (·.targetHandle != branch.id) = [s.edge] →
      (r.entering n).filter (·.targetHandle == branch.id) = [p.edge] →
      r.node? s.edge.source = some s.source → r.node? p.edge.source = some p.source →
      Unwinds r s.source serial met → Unwinds r p.source parallel met' →
      Unwinds r n (serial.map (s :: ·) ++ parallel.map (p :: ·)) (n :: (met ++ met'))

theorem link_unique {r : Rung} {l l' : Link} (h : r.node? l.edge.source = some l.source)
    (h' : r.node? l'.edge.source = some l'.source) (he : l.edge = l'.edge) : l = l' := by
  obtain ⟨e, n⟩ := l
  obtain ⟨e', n'⟩ := l'
  obtain rfl : e = e' := he
  obtain rfl : n = n' := Option.some.inj (h.symm.trans h')
  rfl

/-- There is one way to list the chains. -/
theorem Unwinds.unique {r : Rung} {n : Node} {chains chains' : List (List Link)}
    {met met' : List Node} (h : r.Unwinds n chains met) (h' : r.Unwinds n chains' met') :
    chains' = chains ∧ met' = met := by
  induction h generalizing chains' met' with
  | element hk =>
    cases h' with
    | element _ => exact ⟨rfl, rfl⟩
    | opener hk' | close hk' => rw [hk'] at hk; cases hk
  | opener hk he hs _ ih =>
    cases h' with
    | element hk' => rw [hk] at hk'; cases hk'
    | close hk' => rw [hk] at hk'; cases hk'
    | opener _ he' hs' h' =>
      obtain rfl := link_unique hs' hs (List.singleton_inj.1 (he'.symm.trans he))
      obtain ⟨rfl, rfl⟩ := ih h'
      exact ⟨rfl, rfl⟩
  | close hk hse hpe hs hp _ _ ihs ihp =>
    cases h' with
    | element hk' => rw [hk] at hk'; cases hk'
    | opener hk' => rw [hk] at hk'; cases hk'
    | close hk' hse' hpe' hs' hp' h₁ h₂ =>
      obtain rfl := NodeKind.parallelClose.inj (hk'.symm.trans hk)
      obtain rfl := link_unique hs' hs (List.singleton_inj.1 (hse'.symm.trans hse))
      obtain rfl := link_unique hp' hp (List.singleton_inj.1 (hpe'.symm.trans hpe))
      obtain ⟨rfl, rfl⟩ := ihs h₁
      obtain ⟨rfl, rfl⟩ := ihp h₂
      exact ⟨rfl, rfl⟩

theorem backward_iff_of_parallel {r : Rung} {n : Node} (hk : n.kind.isParallel = true)
    {c : List Link} : r.Backward n c ↔ ∃ l rest, c = l :: rest ∧ l.edge ∈ r.entering n ∧
      r.node? l.edge.source = some l.source ∧ r.Backward l.source rest := by
  constructor
  · intro h
    cases h with
    | ends hk' => rw [hk] at hk'; cases hk'
    | goes _ he hs h => exact ⟨_, _, rfl, he, hs, h⟩
  · rintro ⟨l, rest, rfl, he, hs, h⟩
    exact .goes hk he hs h

/-- The chains that are listed are all that lead back from the node. -/
theorem Unwinds.mem_iff {r : Rung} {n : Node} {chains : List (List Link)} {met : List Node}
    (h : r.Unwinds n chains met) (c : List Link) : c ∈ chains ↔ r.Backward n c := by
  induction h generalizing c with
  | element hk =>
    rw [List.mem_singleton]
    constructor
    · rintro rfl
      exact .ends hk
    · intro h
      cases h with
      | ends _ => rfl
      | goes hk' => rw [hk] at hk'; cases hk'
  | @opener n branch l chains met hk he hs _ ih =>
    rw [backward_iff_of_parallel (by rw [hk]; rfl), List.mem_map, he]
    constructor
    · rintro ⟨rest, hrest, rfl⟩
      exact ⟨l, rest, rfl, List.mem_singleton_self _, hs, (ih rest).1 hrest⟩
    · rintro ⟨l', rest, rfl, he', hs', h⟩
      obtain rfl := link_unique hs' hs (List.mem_singleton.1 he')
      exact ⟨rest, (ih rest).2 h, rfl⟩
  | @close n branch s p serial parallel met met' hk hse hpe hs hp _ _ ihs ihp =>
    have hmem {e : Edge} : e ∈ r.entering n ↔ e = s.edge ∨ e = p.edge := by
      rw [← List.mem_singleton (a := e) (b := s.edge), ← hse, ← List.mem_singleton (b := p.edge),
        ← hpe, List.mem_filter, List.mem_filter, ← and_or_left]
      cases h : e.targetHandle == branch.id <;> simp [bne, h]
    rw [backward_iff_of_parallel (by rw [hk]; rfl), List.mem_append, List.mem_map, List.mem_map]
    constructor
    · rintro (⟨rest, hrest, rfl⟩ | ⟨rest, hrest, rfl⟩)
      · exact ⟨s, rest, rfl, hmem.2 (.inl rfl), hs, (ihs rest).1 hrest⟩
      · exact ⟨p, rest, rfl, hmem.2 (.inr rfl), hp, (ihp rest).1 hrest⟩
    · rintro ⟨l, rest, rfl, he, hl, h⟩
      rcases hmem.1 he with he | he
      · obtain rfl := link_unique hl hs he
        exact .inl ⟨rest, (ihs rest).2 h, rfl⟩
      · obtain rfl := link_unique hl hp he
        exact .inr ⟨rest, (ihp rest).2 h, rfl⟩

end Rung

/-! ### Keeping first sources -/

namespace Source

/-- The first sources with each id are those left over without repeated ids. -/
theorem distinctFrom_eq_eraseDupsBy (l : List Source) (seen : List String) :
    distinctFrom seen l =
      (l.filter (·.node.id ∉ seen)).eraseDupsBy (fun a b => a.node.id == b.node.id) := by
  induction l generalizing seen with
  | nil => rfl
  | cons a l ih =>
    rw [distinctFrom]
    by_cases ha : a.node.id ∈ seen
    · rw [if_pos ha, ih, List.filter_cons_of_neg (by simpa using ha)]
    · rw [if_neg ha, ih, List.filter_cons_of_pos (by simpa using ha), List.eraseDupsBy_cons,
        List.filter_filter]
      simp [not_or]

theorem distinct_eq_eraseDupsBy (l : List Source) :
    distinct l = l.eraseDupsBy (fun a b => a.node.id == b.node.id) := by
  rw [distinct, distinctFrom_eq_eraseDupsBy]
  simp

theorem distinctFrom_through (column : Connector) (seen : List String) (l : List Source) :
    distinctFrom seen (through column l) = through column (distinctFrom seen l) := by
  induction l generalizing seen with
  | nil => rfl
  | cons a l ih =>
    show distinctFrom seen ({ a with column := some column } :: through column l) = _
    simp only [distinctFrom]
    split
    · exact ih seen
    · rw [ih]
      rfl

/-- What is left out of a first part would be left out of the whole. -/
theorem distinctFrom_distinctFrom_append {seen seen' : List String} (h : seen' ⊆ seen)
    (a b : List Source) :
    distinctFrom seen (distinctFrom seen' a ++ b) = distinctFrom seen (a ++ b) := by
  induction a generalizing seen seen' with
  | nil => rfl
  | cons x a ih =>
    rw [distinctFrom]
    by_cases hx' : x.node.id ∈ seen'
    · rw [if_pos hx', ih h, List.cons_append, distinctFrom, if_pos (h hx')]
    · rw [if_neg hx', List.cons_append, List.cons_append, distinctFrom, distinctFrom]
      by_cases hx : x.node.id ∈ seen
      · rw [if_pos hx, if_pos hx, ih (List.cons_subset.2 ⟨hx, h⟩)]
      · rw [if_neg hx, if_neg hx, ih (List.cons_subset_cons _ h)]

theorem distinctFrom_append_distinct (seen : List String) (a b : List Source) :
    distinctFrom seen (a ++ distinct b) = distinctFrom seen (a ++ b) := by
  induction a generalizing seen with
  | nil =>
    have h := distinctFrom_distinctFrom_append (List.nil_subset seen) b []
    rwa [List.append_nil, List.append_nil] at h
  | cons x a ih => rw [List.cons_append, List.cons_append, distinctFrom, distinctFrom, ih, ih]

/-- At a close marker it makes no difference that each side has kept first sources already. -/
theorem distinct_append_through_distinct (column : Connector) (a b : List Source) :
    distinct (distinct a ++ through column (distinct b)) = distinct (a ++ through column b) := by
  rw [distinct.eq_1 b, ← distinctFrom_through, ← distinct.eq_1, distinct.eq_1 a, distinct,
    distinctFrom_distinctFrom_append (List.Subset.refl _), distinctFrom_append_distinct, distinct]

end Source

/-! ### The resolver -/

namespace Link

variable {l m : Link}

/-- A further link in front of a chain counts by how it leaves the node that `m` enters, and by
where `m` lands there. -/
theorem contribution_cons (l m : Link) (c : List Link) : l.contribution (m :: c) =
    { m.contribution c with
      column := ((l.source.departure l.edge).or (l.source.landing m.edge)).or
        (m.contribution c).column } := by
  rw [Option.or_assoc]
  rfl

/-- Between two links that use no branch connector, nothing changes. -/
theorem map_contribution_of_none (h : l.source.departure l.edge = none)
    (h' : l.source.landing m.edge = none) (chains : List (List Link)) :
    (chains.map (m :: ·)).map l.contribution = chains.map m.contribution := by
  rw [List.map_map]
  refine List.map_congr_left fun c _ => ?_
  rw [Function.comp_apply, contribution_cons, h, h']
  rfl

/-- A branch connector between two links is met before all that is further back. -/
theorem map_contribution_of_some {branch : Connector}
    (h : (l.source.departure l.edge).or (l.source.landing m.edge) = some branch)
    (chains : List (List Link)) : (chains.map (m :: ·)).map l.contribution =
      Source.through branch (chains.map m.contribution) := by
  rw [List.map_map, Source.through, List.map_map]
  refine List.map_congr_left fun c _ => ?_
  rw [Function.comp_apply, contribution_cons, h]
  rfl

end Link

namespace Node

variable {n : Node} {branch : Connector}

theorem departure_of_not_parallel (hk : n.kind.isParallel = false) (e : Edge) :
    n.departure e = none := by
  unfold departure
  split
  · rename_i hk'
    rw [hk'] at hk
    cases hk
  · rfl

theorem departure_opener (hk : n.kind = .parallelOpen branch) (e : Edge) :
    n.departure e = if e.sourceHandle = branch.id then some branch else none := by
  rw [departure, hk]

theorem landing_opener (hk : n.kind = .parallelOpen branch) (e : Edge) : n.landing e = none := by
  rw [landing, hk]

theorem departure_close (hk : n.kind = .parallelClose branch) (e : Edge) :
    n.departure e = none := by rw [departure, hk]

theorem landing_close (hk : n.kind = .parallelClose branch) (e : Edge) :
    n.landing e = if e.targetHandle = branch.id then some branch else none := by
  rw [landing, hk]

end Node

namespace Topology

variable {r : Rung} {fresh : List String} {leaving : Option String} {n : Node}

/-- A resolution that starts over the edge `e` names what the chains behind it contribute. -/
theorem Resolves.unwinds {res : Resolution} (h : Resolves (ofRung r) fresh leaving n res)
    {e : Edge} (he : leaving = some e.sourceHandle) :
    ∃ chains met, r.Unwinds n chains met ∧
      res.sources = Source.distinct (chains.map (Link.contribution ⟨e, n⟩)) ∧ res.path = met := by
  induction h generalizing e with
  | @direct fresh leaving n hk =>
    refine ⟨[[]], [], .element hk, ?_, rfl⟩
    show [⟨n, none⟩] = Source.distinct [⟨n, (n.departure e).or none⟩]
    rw [Node.departure_of_not_parallel hk]
    rfl
  | @opener fresh leaving n branch w feed hk _ hw _ ih =>
    obtain ⟨chains, met, hun, hs, rfl⟩ := ih rfl
    have hedges : r.entering n = [w.edge] := by rw [← map_edge_incoming, hw]; rfl
    have hsource := (mem_incoming.1 (hw ▸ List.mem_singleton_self w)).1.source
    refine ⟨_, _, .opener (l := ⟨w.edge, w.source⟩) hk hedges hsource hun, ?_, rfl⟩
    rw [Resolution.behindOpen, he, hs]
    have hleave := Node.departure_opener hk e
    by_cases hb : e.sourceHandle = branch.id
    · rw [if_pos hb] at hleave
      rw [Link.map_contribution_of_some (by rw [hleave, Option.some_or]), Source.distinct,
        Source.distinct, Source.distinctFrom_through, if_pos (by rw [hb, beq_self_eq_true])]
    · rw [if_neg hb] at hleave
      rw [Link.map_contribution_of_none hleave (Node.landing_opener hk _),
        if_neg (by simpa using hb)]
  | @close fresh leaving n branch s p serial parallel hk _ hpart _ _ ihs ihp =>
    obtain ⟨serialChains, met, hserial, hs, hmet⟩ := ihs rfl
    obtain ⟨parallelChains, met', hparallel, hp, hmet'⟩ := ihp rfl
    obtain ⟨hpe, hse⟩ := filter_entering_of_partition hpart
    rw [List.map_singleton] at hpe hse
    have hmem (w : Wire) : w ∈ (ofRung r).incoming n ↔ w = p ∨ w = s := by
      rw [List.mem_partition (p := (·.edge.targetHandle == branch.id)), hpart, List.mem_singleton,
        List.mem_singleton]
    have hss := (mem_incoming.1 ((hmem s).2 (.inr rfl))).1.source
    have hps := (mem_incoming.1 ((hmem p).2 (.inl rfl))).1.source
    refine ⟨_, _, .close (s := ⟨s.edge, s.source⟩) (p := ⟨p.edge, p.source⟩) hk hse hpe hss hps
      hserial hparallel, ?_, ?_⟩
    · have hs' : n.landing s.edge = none := by
        have h := (List.mem_filter.1 (hse ▸ List.mem_singleton_self s.edge)).2
        rw [Node.landing_close hk, if_neg (by simpa using h)]
      have hp' : n.landing p.edge = some branch := by
        have h := (List.mem_filter.1 (hpe ▸ List.mem_singleton_self p.edge)).2
        rw [Node.landing_close hk, if_pos (by simpa using h)]
      have hleave := Node.departure_close hk e
      rw [List.map_append, Link.map_contribution_of_none hleave hs',
        Link.map_contribution_of_some (by rw [hleave, hp', Option.none_or]),
        Resolution.behindClose, hs, hp, Source.distinct_append_through_distinct]
    · rw [Resolution.behindClose, hmet, hmet']

end Topology

/-- **The resolver finds the sources behind an edge, in order and with the right columns.** Where
it succeeds, the chains of links that lead back from the edge can be listed depth first. Its sources
are the ends of the chains, the first with each id kept, with the connector of a branch that is met
first on the way; the edge itself counts only by how it leaves its source. Its path has the markers
in the order in which they are met, and is empty exactly if the source is no marker. -/
theorem trace_unwinds {r : Rung} {e : Edge} {s : Node} {res : Resolution}
    (h : (ofRung r).trace e s = .ok res) :
    ∃ chains met, (∀ chains' met', r.Unwinds s chains' met' ↔ chains' = chains ∧ met' = met) ∧
      (∀ c, c ∈ chains ↔ r.Backward s c) ∧
      res.sources = (chains.map (Link.contribution ⟨e, s⟩)).eraseDupsBy
        (fun a b => a.node.id == b.node.id) ∧
      res.path = met ∧ (met = [] ↔ s.kind.isParallel = false) := by
  have hres := resolves_iff.1 h
  obtain ⟨chains, met, hun, hs, hp⟩ := hres.unwinds rfl
  refine ⟨chains, met, fun chains' met' => ⟨hun.unique, ?_⟩, hun.mem_iff, ?_, hp, ?_⟩
  · rintro ⟨rfl, rfl⟩
    exact hun
  · rw [hs, Source.distinct_eq_eraseDupsBy]
  · rw [← hp, ← List.isEmpty_iff, hres.path_isEmpty, Bool.not_eq_true']

/-- Two close markers in a row. The contact `b` is on the serial side of both. -/
def sharedContact : Rung where
  nodes := [
    { id := "rail", numericId := 1, kind := .leftRail },
    { id := "open", numericId := 2, kind := .parallelOpen { id := "down" } },
    { id := "b", numericId := 3, kind := .contact "b" .normal },
    { id := "inner", numericId := 4, kind := .parallelClose { id := "up" } },
    { id := "outer", numericId := 5, kind := .parallelClose { id := "join" } },
    { id := "x", numericId := 6, kind := .coil "x" .normal }]
  edges := [
    ⟨"rail", "out", "open", "in"⟩, ⟨"open", "out", "b", "in"⟩, ⟨"b", "out", "inner", "in"⟩,
    ⟨"open", "down", "inner", "up"⟩, ⟨"b", "out", "outer", "in"⟩, ⟨"inner", "out", "outer", "join"⟩,
    ⟨"outer", "out", "x", "in"⟩]

theorem sharedContact_inner_unwinds :
    sharedContact.Unwinds sharedContact.nodes[3]
      [[⟨sharedContact.edges[2], sharedContact.nodes[2]⟩],
        [⟨sharedContact.edges[3], sharedContact.nodes[1]⟩,
          ⟨sharedContact.edges[0], sharedContact.nodes[0]⟩]]
      [sharedContact.nodes[3], sharedContact.nodes[1]] :=
  .close (s := ⟨sharedContact.edges[2], sharedContact.nodes[2]⟩)
    (p := ⟨sharedContact.edges[3], sharedContact.nodes[1]⟩) rfl rfl rfl rfl rfl
    (.element rfl) (.opener (l := ⟨sharedContact.edges[0], sharedContact.nodes[0]⟩) rfl rfl rfl
      (.element rfl))

theorem sharedContact_outer_unwinds :
    sharedContact.Unwinds sharedContact.nodes[4]
      [[⟨sharedContact.edges[4], sharedContact.nodes[2]⟩],
        [⟨sharedContact.edges[5], sharedContact.nodes[3]⟩,
          ⟨sharedContact.edges[2], sharedContact.nodes[2]⟩],
        [⟨sharedContact.edges[5], sharedContact.nodes[3]⟩,
          ⟨sharedContact.edges[3], sharedContact.nodes[1]⟩,
          ⟨sharedContact.edges[0], sharedContact.nodes[0]⟩]]
      [sharedContact.nodes[4], sharedContact.nodes[3], sharedContact.nodes[1]] :=
  .close (s := ⟨sharedContact.edges[4], sharedContact.nodes[2]⟩)
    (p := ⟨sharedContact.edges[5], sharedContact.nodes[3]⟩) rfl rfl rfl rfl rfl
    (.element rfl) sharedContact_inner_unwinds

/-- Of the three chains behind the coil, two end at the contact: it is cited once, straight. The
rail is drawn through the outer column. -/
theorem sharedContact_trace :
    ∃ res, (ofRung sharedContact).trace sharedContact.edges[6] sharedContact.nodes[4] = .ok res ∧
      res.sources = [⟨sharedContact.nodes[2], none⟩,
        ⟨sharedContact.nodes[0], some { id := "join" }⟩] ∧
      res.path = [sharedContact.nodes[4], sharedContact.nodes[3], sharedContact.nodes[1]] := by
  have hok : ((ofRung sharedContact).trace sharedContact.edges[6]
      sharedContact.nodes[4]).toOption.isSome = true := by decide +kernel
  cases hres : (ofRung sharedContact).trace sharedContact.edges[6] sharedContact.nodes[4] with
  | error cause =>
    rw [hres] at hok
    cases hok
  | ok res =>
    obtain ⟨chains, met, hun, -, hs, hp, -⟩ := trace_unwinds hres
    obtain ⟨rfl, rfl⟩ := (hun _ _).1 sharedContact_outer_unwinds
    exact ⟨res, rfl, hs.trans (by decide +kernel), hp⟩

/-- **The edge that is traced counts only by how it leaves its source.** If it lands on the branch
connector of a close marker, then that gives its sources no column, though it would be the first on
their chains. -/
theorem landing_of_traced_edge_left_out :
    ∃ res, sharedContact.Leads sharedContact.nodes[3] sharedContact.edges[5]
        sharedContact.nodes[4] ∧
      (ofRung sharedContact).trace sharedContact.edges[5] sharedContact.nodes[3] = .ok res ∧
      ∃ chains met, sharedContact.Unwinds sharedContact.nodes[3] chains met ∧
        res.sources ≠ (chains.map fun c => (⟨Link.origin sharedContact.nodes[3] c,
          Link.column sharedContact.nodes[4]
            (⟨sharedContact.edges[5], sharedContact.nodes[3]⟩ :: c)⟩ : Source)).eraseDupsBy
          (fun a b => a.node.id == b.node.id) := by
  have hok : ((ofRung sharedContact).trace sharedContact.edges[5]
      sharedContact.nodes[3]).toOption = some
        ⟨[⟨sharedContact.nodes[2], none⟩, ⟨sharedContact.nodes[0], some { id := "up" }⟩],
          [sharedContact.nodes[3], sharedContact.nodes[1]]⟩ := by decide +kernel
  cases hres : (ofRung sharedContact).trace sharedContact.edges[5] sharedContact.nodes[3] with
  | error cause =>
    rw [hres] at hok
    cases hok
  | ok res =>
    rw [hres] at hok
    obtain rfl := Option.some.inj hok
    exact ⟨_, ⟨by decide, rfl, rfl⟩, rfl, _, _, sharedContact_inner_unwinds, by decide +kernel⟩

end LadderDiagram
