import LadderDiagram.Proofs.Pairs
import LadderDiagram.Proofs.Renaming.Basic

/-!
# Topologies that are alike

Two topologies are `Alike` under a renaming if the second has the nodes of the first renamed, the
same wires into each of them in the same order, and the same wires out of each in any order. What
is made of a node is then the same, renamed (`emit_alike`), and so is what goes wrong: ids are
only compared, and a walk along a branch goes on only where a single wire leads, so it does not
see in which order the wires out of a node are listed.
-/

namespace LadderDiagram

open Body (Connection)
open LadderDiagram.Topology (without ofRung)

section
variable (ρ : Renaming)

def Wire.rename (w : Wire) : Wire := ⟨w.edge.rename ρ, w.source.rename ρ, w.target.rename ρ⟩

@[simp] theorem Wire.edge_rename (w : Wire) : (w.rename ρ).edge = w.edge.rename ρ := rfl
@[simp] theorem Wire.source_rename (w : Wire) : (w.rename ρ).source = w.source.rename ρ := rfl
@[simp] theorem Wire.target_rename (w : Wire) : (w.rename ρ).target = w.target.rename ρ := rfl
@[simp] theorem Wire.endsBranch_rename (w : Wire) : (w.rename ρ).endsBranch = w.endsBranch := rfl

def MarkerPair.rename (p : MarkerPair) : MarkerPair := ⟨p.opener.rename ρ, p.close.rename ρ⟩

def Source.rename (s : Source) : Source := { s with node := s.node.rename ρ }

def Resolution.rename (r : Resolution) : Resolution where
  sources := r.sources.map (·.rename ρ)
  path := r.path.map (·.rename ρ)

def Emitted.rename (e : Emitted) : Emitted where
  element := e.element.map (·.rename ρ)
  warnings := e.warnings.map (·.rename ρ)

/-- What is computed, with its result or its fault renamed. -/
def Renaming.outcome {α β : Type} (f : α → β) :
    Except MalformedGraph α → Except MalformedGraph β
  | .ok a => .ok (f a)
  | .error cause => .error (cause.rename ρ)

namespace Renaming

variable {α α' β β' : Type}

@[simp] theorem outcome_ok (f : α → β) (a : α) : ρ.outcome f (.ok a) = .ok (f a) := rfl

@[simp] theorem outcome_error (f : α → β) (cause : MalformedGraph) :
    ρ.outcome f (.error cause) = .error (cause.rename ρ) := rfl

theorem outcome_bind {f : α → α'} {g : β → β'} {x : Except MalformedGraph α}
    {k : α → Except MalformedGraph β} {k' : α' → Except MalformedGraph β'}
    (h : ∀ a, k' (f a) = ρ.outcome g (k a)) : ρ.outcome f x >>= k' = ρ.outcome g (x >>= k) := by
  cases x with
  | error cause => rfl
  | ok a => exact h a

theorem outcome_mapM {f : α → α'} {g : β → β'} {k : α → Except MalformedGraph β}
    {k' : α' → Except MalformedGraph β'} (h : ∀ a, k' (f a) = ρ.outcome g (k a)) (as : List α) :
    (as.map f).mapM k' = ρ.outcome (List.map g) (as.mapM k) := by
  induction as with
  | nil => rfl
  | cons a as ih =>
    rw [List.map_cons, List.mapM_cons, List.mapM_cons, h, ih]
    exact ρ.outcome_bind fun b => ρ.outcome_bind fun bs => rfl

theorem outcome_mapM_self {g : β → β'} {k : α → Except MalformedGraph β}
    {k' : α → Except MalformedGraph β'} (h : ∀ a, k' a = ρ.outcome g (k a)) (as : List α) :
    as.mapM k' = ρ.outcome (List.map g) (as.mapM k) := by
  have hm := ρ.outcome_mapM (f := fun a => a) h as
  rwa [List.map_id'] at hm

end Renaming

theorem Renaming.mem_ids {id : String} {ids : List String} :
    ρ.id id ∈ ids.map ρ.id ↔ id ∈ ids := List.mem_map_of_injective ρ.id_injective

theorem Topology.without_rename (ids : List String) (id : String) :
    without (ids.map ρ.id) (ρ.id id) = (without ids id).map ρ.id := by
  simp [without, List.filter_map, Function.comp_def]

namespace Source

theorem distinctFrom_rename (seen : List String) (sources : List Source) :
    distinctFrom (seen.map ρ.id) (sources.map (·.rename ρ)) =
      (distinctFrom seen sources).map (·.rename ρ) := by
  induction sources generalizing seen with
  | nil => rfl
  | cons s rest ih =>
    have hs : (s.rename ρ).node.id ∈ seen.map ρ.id ↔ s.node.id ∈ seen := ρ.mem_ids
    simp only [List.map_cons, distinctFrom, hs]
    split
    · exact ih seen
    · exact congrArg (_ :: ·) (ih (s.node.id :: seen))

theorem distinct_rename (sources : List Source) :
    distinct (sources.map (·.rename ρ)) = (distinct sources).map (·.rename ρ) :=
  distinctFrom_rename ρ [] sources

theorem through_rename (column : Connector) (sources : List Source) :
    through column (sources.map (·.rename ρ)) = (through column sources).map (·.rename ρ) := by
  simp [through, rename]

end Source

namespace Resolution

theorem behindOpen_rename (opener : Node) (branch : Connector) (byBranch : Bool)
    (feed : Resolution) :
    behindOpen (opener.rename ρ) branch byBranch (feed.rename ρ) =
      (behindOpen opener branch byBranch feed).rename ρ := by
  cases byBranch <;> simp [behindOpen, rename, Source.through_rename]

theorem behindClose_rename (close : Node) (branch : Connector) (serial parallel : Resolution) :
    behindClose (close.rename ρ) branch (serial.rename ρ) (parallel.rename ρ) =
      (behindClose close branch serial parallel).rename ρ := by
  simp [behindClose, rename, Source.through_rename, ← Source.distinct_rename]

end Resolution

end

namespace Topology

/-- The second topology is the first one renamed, but for the order of the wires out of nodes. -/
structure Alike (ρ : Renaming) (t t' : Topology) : Prop where
  nodes : t'.rung.nodes = t.rung.nodes.map (·.rename ρ)
  bindings : t'.rung.bindings = t.rung.bindings.map (·.rename ρ)
  ids : t'.ids = t.ids.map ρ.id
  node? : ∀ id, t'.node? (ρ.id id) = (t.node? id).map (·.rename ρ)
  incoming : ∀ n c, t'.incoming (n.rename ρ) c = (t.incoming n c).map (·.rename ρ)
  outgoing : ∀ n c, (t'.outgoing (n.rename ρ) c).Perm ((t.outgoing n c).map (·.rename ρ))

namespace Alike

variable {ρ : Renaming} {t t' : Topology} (h : t.Alike ρ t')
include h

theorem forward (n : Node) (c : String) :
    (t'.forward (n.rename ρ) c).Perm ((t.forward n c).map (·.rename ρ)) := by
  have hf := (h.outgoing n c).filter fun w => !w.target.kind.isVariable
  rwa [List.filter_map] at hf

theorem branchEnd {opener : Node} {fresh : List String} {next next' : List Wire}
    (hn : next'.Perm (next.map (·.rename ρ))) :
    t'.branchEnd (opener.rename ρ) (fresh.map ρ.id) next' =
      ρ.outcome (·.rename ρ) (t.branchEnd opener fresh next) := by
  -- A walk that goes on has a single wire before it, which is then single in any order.
  fun_induction t.branchEnd opener fresh next generalizing next' with
  | case1 fresh w hw he =>
    obtain rfl : next' = [w.rename ρ] := List.perm_singleton.1 hn
    rw [branchEnd_singleton]
    simp [ρ.mem_ids, hw, he]
  | case2 fresh w hw he out ho ih =>
    obtain rfl : next' = [w.rename ρ] := List.perm_singleton.1 hn
    rw [branchEnd_singleton]
    simp [ρ.mem_ids, hw, he, ho, without_rename, ih (h.forward w.target out.id)]
  | case3 fresh w hw he ho =>
    obtain rfl : next' = [w.rename ρ] := List.perm_singleton.1 hn
    rw [branchEnd_singleton]
    simp [ρ.mem_ids, hw, he, ho, MalformedGraph.rename]
  | case4 fresh w hw =>
    obtain rfl : next' = [w.rename ρ] := List.perm_singleton.1 hn
    rw [branchEnd_singleton]
    simp [ρ.mem_ids, hw, MalformedGraph.rename]
  | case5 fresh next hne =>
    rw [branchEnd_of_ne_singleton]
    · rfl
    · rintro w' rfl
      obtain ⟨w, hw, -⟩ := List.map_eq_singleton_iff.1 (List.singleton_perm.1 hn).symm
      exact hne w hw

theorem pairFrom (made : List MarkerPair) (nodes : List Node) :
    t'.pairFrom (made.map (·.rename ρ)) (nodes.map (·.rename ρ)) =
      ρ.outcome (List.map (·.rename ρ)) (t.pairFrom made nodes) := by
  induction nodes generalizing made with
  | nil => rfl
  | cons n rest ih =>
    rw [List.map_cons, Topology.pairFrom, Topology.pairFrom, Node.kind_rename]
    split
    · rename_i branch hk
      rw [h.ids, h.branchEnd (h.forward n branch.id)]
      apply ρ.outcome_bind
      intro close
      have hfind : (made.map (·.rename ρ)).find? (·.close.id == (close.rename ρ).id) =
          (made.find? (·.close.id == close.id)).map (·.rename ρ) := by
        rw [List.find?_map]
        simp [Function.comp_def, MarkerPair.rename]
      rw [hfind]
      cases made.find? (·.close.id == close.id) with
      | none =>
        have hmade := ih (made ++ [⟨n, close⟩])
        rwa [List.map_append] at hmade
      | some pair => rfl
    · exact ih made

theorem pairs : t'.pairs = ρ.outcome (List.map (·.rename ρ)) t.pairs := by
  rw [Topology.pairs, Topology.pairs, h.nodes, ← List.map_nil, h.pairFrom]
  apply ρ.outcome_bind
  intro made
  have hclose : (t.rung.nodes.map (·.rename ρ)).find?
        (fun n => n.isClose && !(made.map (·.rename ρ)).any (·.close.id == n.id)) =
      (t.rung.nodes.find? fun n => n.isClose && !made.any (·.close.id == n.id)).map
        (·.rename ρ) := by
    rw [List.find?_map]
    simp [Function.comp_def, MarkerPair.rename, Node.isClose]
  rw [hclose]
  cases t.rung.nodes.find? fun n => n.isClose && !made.any (·.close.id == n.id) <;> rfl

theorem partition_incoming (n : Node) (c : String) :
    (t'.incoming (n.rename ρ)).partition (·.edge.targetHandle == c) =
      Prod.map (List.map (·.rename ρ)) (List.map (·.rename ρ))
        ((t.incoming n).partition (·.edge.targetHandle == c)) := by
  simp only [List.partition_eq_filter_filter, h.incoming, List.filter_map]
  rfl

omit h in
theorem ne_singleton_of_map {ws : List Wire} (hws : ∀ w, ws ≠ [w]) (w' : Wire) :
    ws.map (·.rename ρ) ≠ [w'] := by
  intro he
  obtain ⟨w, hw, -⟩ := List.map_eq_singleton_iff.1 he
  exact hws w hw

theorem resolveFrom (fresh : List String) (leaving : Option String) (n : Node) :
    t'.resolveFrom (fresh.map ρ.id) leaving (n.rename ρ) =
      ρ.outcome (·.rename ρ) (t.resolveFrom fresh leaving n) := by
  induction fresh, leaving, n using resolveFrom.induct t with
  | case1 fresh leaving n branch hk hn w hw ih =>
    have hw' : t'.incoming (n.rename ρ) = [w.rename ρ] := by rw [h.incoming, hw]; rfl
    rw [resolveFrom_opener hk hn hw, resolveFrom_opener (n := n.rename ρ) hk (ρ.mem_ids.2 hn) hw',
      Node.id_rename, without_rename]
    refine (congrArg (· >>= _) ih).trans (ρ.outcome_bind fun feed => ?_)
    exact congrArg Except.ok (Resolution.behindOpen_rename ρ n branch _ feed)
  | case4 fresh leaving n branch hk hn s p hp ihs ihp =>
    have hp' : (t'.incoming (n.rename ρ)).partition (·.edge.targetHandle == branch.id) =
        ([p.rename ρ], [s.rename ρ]) := by
      rw [h.partition_incoming, hp]
      rfl
    rw [resolveFrom_close hk hn hp, resolveFrom_close (n := n.rename ρ) hk (ρ.mem_ids.2 hn) hp',
      Node.id_rename, without_rename]
    refine (congrArg (· >>= _) ihs).trans (ρ.outcome_bind fun serial => ?_)
    refine (congrArg (· >>= _) ihp).trans (ρ.outcome_bind fun parallel => ?_)
    exact congrArg Except.ok (Resolution.behindClose_rename ρ n branch serial parallel)
  | case8 fresh leaving n ho hc =>
    have hn := Node.isParallel_eq_false ho hc
    rw [resolveFrom_direct hn, resolveFrom_direct (n := n.rename ρ) hn]
    rfl
  | case2 fresh leaving n branch hk hn hw =>
    have hw' : ∀ w, t'.incoming (n.rename ρ) ≠ [w] := by
      rw [h.incoming]
      exact ne_singleton_of_map hw
    rw [resolveFrom_opener_wires hk hn hw,
      resolveFrom_opener_wires (n := n.rename ρ) hk (ρ.mem_ids.2 hn) hw', h.incoming,
      List.length_map]
    rfl
  | case5 fresh leaving n branch hk hn s parallel hne hp =>
    have hp' := h.partition_incoming n branch.id
    rw [hp] at hp'
    rw [resolveFrom_close_parallel hk hn hp hne, resolveFrom_close_parallel (n := n.rename ρ) hk
      (ρ.mem_ids.2 hn) hp' (ne_singleton_of_map hne), List.length_map]
    rfl
  | case6 fresh leaving n branch hk hn parallel serial hne _ hp =>
    have hp' := h.partition_incoming n branch.id
    rw [hp] at hp'
    rw [resolveFrom_close_serial hk hn hp hne, resolveFrom_close_serial (n := n.rename ρ) hk
      (ρ.mem_ids.2 hn) hp' (ne_singleton_of_map hne), List.length_map]
    rfl
  | case3 fresh leaving n branch hk hn | case7 fresh leaving n branch hk hn =>
    rw [resolveFrom_met (by rw [hk]; rfl) hn,
      resolveFrom_met (n := n.rename ρ) (by rw [Node.kind_rename, hk]; rfl) (mt ρ.mem_ids.1 hn)]
    rfl

theorem bindingForHandle? (block handle : String) :
    t'.rung.bindingForHandle? (ρ.id block) handle =
      (t.rung.bindingForHandle? block handle).map (·.rename ρ) := by
  rw [Rung.bindingForHandle?, h.bindings, List.find?_map]
  simp [Function.comp_def, Binding.rename, Rung.bindingForHandle?]

theorem bindingForVariable? (id : String) :
    t'.rung.bindingForVariable? (ρ.id id) =
      (t.rung.bindingForVariable? id).map (·.rename ρ) := by
  rw [Rung.bindingForVariable?, h.bindings, List.find?_map]
  simp [Function.comp_def, Binding.rename, Rung.bindingForVariable?]

section
variable (index : Nat) (offset : Offset)

omit h in
theorem connection (target : Point) (s : Source) (pin : Option String) :
    RungContext.connection ⟨index, t', offset⟩ target (s.rename ρ) pin =
      (RungContext.connection ⟨index, t, offset⟩ target s pin).rename ρ := by
  obtain ⟨n, column⟩ := s
  simp only [RungContext.connection, Source.rename, Node.kind_rename]
  cases n.kind <;> cases pin <;> rfl

theorem connectionsOf (target : Point) (w : Wire) :
    RungContext.connectionsOf ⟨index, t', offset⟩ target (w.rename ρ) =
      ρ.outcome (List.map (·.rename ρ))
        (RungContext.connectionsOf ⟨index, t, offset⟩ target w) := by
  have hsource : (w.rename ρ).source.isWireSource = w.source.isWireSource := rfl
  rw [RungContext.connectionsOf, RungContext.connectionsOf, hsource]
  split
  · have htrace : t'.trace (w.rename ρ).edge (w.rename ρ).source =
        ρ.outcome (·.rename ρ) (t.trace w.edge w.source) := by
      rw [trace, trace, h.ids]
      exact h.resolveFrom _ _ _
    refine (congrArg (· >>= _) htrace).trans (ρ.outcome_bind fun r => congrArg Except.ok ?_)
    have hpin (s : Source) : (if (r.rename ρ).path.isEmpty then some (w.rename ρ).edge.sourceHandle
        else (s.rename ρ).node.output.map (·.id)) =
          if r.path.isEmpty then some w.edge.sourceHandle else s.node.output.map (·.id) := by
      simp [Resolution.rename, Edge.rename, Source.rename]
    have hsources : ((r.rename ρ).sources.filter (·.node.isWireSource)) =
        (r.sources.filter (·.node.isWireSource)).map (·.rename ρ) := by
      rw [Resolution.rename, List.filter_map]
      rfl
    simp only [hsources, List.map_map, Function.comp_def, hpin, connection (t := t)]
  · rfl

theorem collect (n : Node) (c : Option String) (target : Point) :
    RungContext.collect ⟨index, t', offset⟩ (n.rename ρ) c target =
      ρ.outcome (List.map (·.rename ρ))
        (RungContext.collect ⟨index, t, offset⟩ n c target) := by
  have hm := ρ.outcome_mapM (h.connectionsOf index offset target) (t.incoming n c)
  rw [← h.incoming] at hm
  refine (congrArg (· >>= _) hm).trans (ρ.outcome_bind fun cs => congrArg Except.ok ?_)
  exact List.map_flatten.symm

theorem boundExpression (n : Node) (pin : Connector) :
    RungContext.boundExpression ⟨index, t', offset⟩ (n.rename ρ) pin =
      RungContext.boundExpression ⟨index, t, offset⟩ n pin := by
  rw [RungContext.boundExpression, RungContext.boundExpression, Node.id_rename,
    h.bindingForHandle?]
  cases t.rung.bindingForHandle? n.id pin.id with
  | none => rfl
  | some binding =>
    have hv : t'.node? (binding.rename ρ).variableId =
        (t.node? binding.variableId).map (·.rename ρ) := h.node? _
    simp only [Option.map_some, Option.bind_eq_bind, Option.bind_some, hv]
    cases t.node? binding.variableId <;> rfl

theorem boundPin (n : Node) :
    RungContext.boundPin ⟨index, t', offset⟩ (n.rename ρ) =
      (RungContext.boundPin ⟨index, t, offset⟩ n).map (·.rename ρ) := by
  rw [RungContext.boundPin, RungContext.boundPin, Node.id_rename, h.bindingForVariable?]
  cases t.rung.bindingForVariable? n.id with
  | none => rfl
  | some binding =>
    have hb : t'.node? (binding.rename ρ).blockId =
        (t.node? binding.blockId).map (·.rename ρ) := h.node? _
    simp only [Option.map_some, Option.bind_eq_bind, Option.bind_some, hb]
    cases t.node? binding.blockId with
    | none => rfl
    | some b =>
      simp only [Option.map_some, Option.bind_some, Node.kind_rename]
      cases b.kind <;> rfl

theorem pinSource (n : Node) (pin : Connector) :
    RungContext.pinSource ⟨index, t', offset⟩ (n.rename ρ) pin =
      ρ.outcome (Option.map (·.mapSide (·.rename ρ)))
        (RungContext.pinSource ⟨index, t, offset⟩ n pin) := by
  refine (congrArg (· >>= _) (h.collect index offset n _ _)).trans (ρ.outcome_bind fun cs => ?_)
  rw [h.boundExpression]
  cases cs with
  | nil =>
    cases RungContext.boundExpression ⟨index, t, offset⟩ n pin <;> rfl
  | cons c rest => rfl

theorem pins (n : Node) (data : BlockData) :
    RungContext.pins ⟨index, t', offset⟩ (n.rename ρ) data =
      ρ.outcome (List.map fun p => (p.1, p.2.map (·.mapSide (·.rename ρ))))
        (RungContext.pins ⟨index, t, offset⟩ n data) := by
  apply ρ.outcome_mapM_self
  intro pin
  exact (congrArg (· >>= _) (h.pinSource index offset n pin)).trans (ρ.outcome_bind fun _ => rfl)

theorem block (n : Node) (data : BlockData) :
    RungContext.block ⟨index, t', offset⟩ (n.rename ρ) data =
      ρ.outcome (Prod.map (·.rename ρ) (List.map (·.rename ρ)))
        (RungContext.block ⟨index, t, offset⟩ n data) := by
  refine (congrArg (· >>= _) (h.pins index offset n data)).trans
    (ρ.outcome_bind fun pins => congrArg Except.ok ?_)
  simp only [Prod.map_apply, Prod.mk.injEq, Body.Block.rename, Body.Block.mapInputs,
    Body.Block.mk.injEq, List.filterMap_map, List.map_filterMap, List.filter_map, List.map_map,
    and_true, true_and]
  refine ⟨⟨rfl, rfl, List.filterMap_congr ?_⟩, ?_⟩
  · rintro ⟨pin, source⟩ -
    cases source <;> rfl
  · have hmissing : ((fun p : Connector × Option Body.InputSource => p.2.isNone) ∘
        fun p : Connector × Option Body.InputSource =>
          (p.1, p.2.map (·.mapSide (·.rename ρ)))) = fun p => p.2.isNone := by
      funext p
      exact Option.isNone_map
    rw [hmissing]
    rfl

theorem outVariable (n : Node) (data : VariableData) :
    RungContext.outVariable ⟨index, t', offset⟩ (n.rename ρ) data =
      (RungContext.outVariable ⟨index, t, offset⟩ n data).map
        (Prod.map (·.rename ρ) (List.map (·.rename ρ))) := by
  rw [RungContext.outVariable, RungContext.outVariable, h.boundPin]
  split
  · rfl
  · cases RungContext.boundPin ⟨index, t, offset⟩ n <;> rfl

theorem emit (n : Node) :
    RungContext.emit ⟨index, t', offset⟩ (n.rename ρ) =
      ρ.outcome (·.rename ρ) (RungContext.emit ⟨index, t, offset⟩ n) := by
  have hinto := h.collect index offset n none n.inputPoint
  rw [RungContext.emit, RungContext.emit, Node.kind_rename]
  cases hk : n.kind with
  | leftRail => rfl
  | rightRail =>
    have hrail : RungContext.rightRail ⟨index, t', offset⟩ (n.rename ρ) =
        ρ.outcome (·.rename ρ) (RungContext.rightRail ⟨index, t, offset⟩ n) :=
      (congrArg (· >>= _) hinto).trans (ρ.outcome_bind fun _ => rfl)
    exact (congrArg (· >>= _) hrail).trans (ρ.outcome_bind fun _ => rfl)
  | contact operand variant =>
    have hcontact : RungContext.contact ⟨index, t', offset⟩ (n.rename ρ) operand variant =
        ρ.outcome (·.rename ρ) (RungContext.contact ⟨index, t, offset⟩ n operand variant) :=
      (congrArg (· >>= _) hinto).trans (ρ.outcome_bind fun _ => rfl)
    exact (congrArg (· >>= _) hcontact).trans (ρ.outcome_bind fun _ => rfl)
  | coil operand variant =>
    have hcoil : RungContext.coil ⟨index, t', offset⟩ (n.rename ρ) operand variant =
        ρ.outcome (·.rename ρ) (RungContext.coil ⟨index, t, offset⟩ n operand variant) :=
      (congrArg (· >>= _) hinto).trans (ρ.outcome_bind fun _ => rfl)
    exact (congrArg (· >>= _) hcoil).trans (ρ.outcome_bind fun _ => rfl)
  | block data =>
    exact (congrArg (· >>= _) (h.block index offset n data)).trans (ρ.outcome_bind fun _ => rfl)
  | variableIn data =>
    simp only [RungContext.inVariable]
    cases data.name.isEmpty <;> rfl
  | variableOut data =>
    simp only [h.outVariable]
    cases RungContext.outVariable ⟨index, t, offset⟩ n data <;> rfl
  | parallelOpen _ | parallelClose _ => rfl
  | unknown => rfl

end

end Alike

end Topology

namespace Rung

/-- What the nodes of a rung become, unless its markers are malformed. -/
def emission (r : Rung) (index : Nat) (offset : Offset) : Except MalformedGraph (List Emitted) := do
  let _ ← (ofRung r).pairs
  r.nodes.mapM (r.context index offset).emit

theorem lower_eq_emission (r : Rung) (index : Nat) (offset : Offset) :
    r.lower index offset = (do
      let emitted ← r.emission index offset
      return {
        elements := emitted.filterMap (·.element)
        warnings := r.danglingWarnings index ++ emitted.flatMap (·.warnings) }) :=
  (bind_assoc (ofRung r).pairs _ _).symm

/-- The nodes of rungs that are alike become the same, renamed. -/
theorem emission_alike {ρ : Renaming} {r r' : Rung} (h : (ofRung r).Alike ρ (ofRung r'))
    (index : Nat) (offset : Offset) :
    r'.emission index offset = ρ.outcome (List.map (·.rename ρ)) (r.emission index offset) := by
  have hnodes : r'.nodes = r.nodes.map (·.rename ρ) := h.nodes
  have hemit := ρ.outcome_mapM (h.emit index offset) r.nodes
  rw [← hnodes] at hemit
  rw [emission, emission, h.pairs]
  exact ρ.outcome_bind fun _ => hemit

end Rung

end LadderDiagram
