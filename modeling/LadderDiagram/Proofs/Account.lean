import LadderDiagram.Proofs.Failure
import LadderDiagram.Proofs.Scan

/-!
# The account of a report

A rung is told of in one failure, or it is exported. `report_accounts_for_rungs` says of the
exported rungs what the report holds of them, read off their drawings: in each list of the body
the local ids of the nodes of one kind, and in the warnings what is missing in the drawing
(`Rung.notices`).
-/

namespace LadderDiagram

open Body (Element)
open LadderDiagram.Topology (ofRung)

namespace Body

def localIds (b : Body) : List (List UInt64) :=
  [b.leftRails.map (·.localId), b.rightRails.map (·.localId), b.blocks.map (·.localId),
    b.contacts.map (·.localId), b.coils.map (·.localId), b.inVariables.map (·.localId),
    b.outVariables.map (·.localId)]

def kinds : List String :=
  ["leftRail", "rightRail", "block", "contact", "coil", "variableIn", "variableOut"]

/-- What is kept of the ids of a kind: where rails are shared, the first rail on either side. -/
def keptIds (config : Config) (kind : String) (ids : List UInt64) : List UInt64 :=
  if config.sharedPowerRails && (kind = "leftRail" || kind = "rightRail") then ids.take 1 else ids

theorem map_filterMap_eq {α : Type} {pick : Element → Option α} {id : α → UInt64} {kind : String}
    (h : ∀ e, (pick e).map id = if e.tag = kind then some e.localId else none)
    (es : List Element) :
    (es.filterMap pick).map id = (es.filter (·.tag = kind)).map (·.localId) := by
  rw [List.map_filterMap, ← List.filterMap_eq_map, List.filterMap_filter]
  simp [h]

theorem localIds_ofElements (es : List Element) :
    (ofElements es).localIds =
      kinds.map fun kind => (es.filter (·.tag = kind)).map (·.localId) := by
  simp only [localIds, ofElements, kinds, List.map_cons, List.map_nil, List.cons.injEq, and_true]
  refine ⟨?_, ?_, ?_, ?_, ?_, ?_, ?_⟩ <;>
    exact map_filterMap_eq (fun e => by cases e <;> rfl) es

@[simp] theorem localIds_mapInputs (f : InputSide → InputSide) (b : Body) :
    (b.mapInputs f).localIds = b.localIds := by
  simp [localIds, mapInputs, Block.mapInputs, Function.comp_def]

@[simp] theorem localIds_mapOutputs (f : OutputSide → OutputSide) (b : Body) :
    (b.mapOutputs f).localIds = b.localIds := by
  simp [localIds, mapOutputs, Function.comp_def]

theorem localIds_blankOutputs (b : Body) : b.blankOutputs.localIds = b.localIds := by
  simp [localIds, blankOutputs, mapConnections, mapInputs, Block.mapInputs, Function.comp_def]

theorem localIds_shareRails (b : Body) : b.shareRails.localIds = b.firstRails.localIds := by
  rw [shareRails, redirectRails_eq]
  simp [localIds, firstRails, mapConnections, mapInputs, Block.mapInputs, Function.comp_def]

/-- Of the passes only the one that shares rails drops anything. -/
theorem localIds_adapt (config : Config) (b : Body) :
    (b.adapt config).localIds = (b.cutRails config).localIds := by
  unfold adapt cutRails
  cases config.sharedPowerRails <;> cases config.routingPoints <;>
    cases config.blankDefaultOutput <;>
    simp [localIds_blankOutputs, stripRouting, localIds_shareRails]

theorem localIds_adapt_of_eq {config : Config} {b : Body} {ids : String → List UInt64}
    (h : b.localIds = kinds.map ids) :
    (b.adapt config).localIds = kinds.map fun kind => keptIds config kind (ids kind) := by
  rw [localIds_adapt, cutRails]
  cases hs : config.sharedPowerRails with
  | false => simpa [keptIds, hs] using h
  | true =>
    simp only [localIds, kinds, List.map_cons, List.map_nil, List.cons.injEq, and_true] at h ⊢
    simp [firstRails, keptIds, hs, List.map_take, h]

def Element.pins : Element → List String
  | block e => e.inputs.map (·.formalParameter)
  | _ => []

/-- No pass gives a pin to a block, or takes one away. -/
theorem Element.pins_adapted (config : Config) (f : UInt64 → UInt64) (e : Element) :
    (e.adapted config f).pins = e.pins := by
  have hmap (g : InputSide → InputSide) (x : Block) : ((block x).mapInputs g).pins =
      (block x).pins := by
    simp [mapInputs, pins, Block.mapInputs, Function.comp_def]
  have hshared (e : Element) : (e.shared f).pins = e.pins := by
    cases e with
    | block x => exact hmap _ x
    | _ => rfl
  have hstripped (e : Element) : e.stripped.pins = e.pins := by
    cases e with
    | block x => exact hmap _ x
    | _ => rfl
  have hblanked (e : Element) : e.blanked.pins = e.pins := by
    cases e with
    | block x => exact hmap _ x
    | _ => rfl
  unfold adapted
  cases config.sharedPowerRails <;> cases config.routingPoints <;>
    cases config.blankDefaultOutput <;> simp [hshared, hstripped, hblanked]

end Body

namespace Rung

/-- The local ids of the nodes of a kind, less the nodes that become no element. -/
def localIds (r : Rung) (kind : String) : List UInt64 :=
  (r.nodes.filter fun n => n.isExported && n.kind.tag = kind).map (·.numericId)

/-- A pin of the block `b` takes its value from a wire. -/
def WiredPin (r : Rung) (b : Node) (pin : Connector) : Prop :=
  ∃ m l a, r.Enters m l b (some pin.id) ∧ r.Behind a m ∧ a.isWireSource = true

/-- A pin of the block `b` takes its value from a variable that has a name. -/
def BoundPin (r : Rung) (b : Node) (pin : Connector) : Prop :=
  ∃ binding v data, r.bindingForHandle? b.id pin.id = some binding ∧
    r.node? binding.variableId = some v ∧ v.kind = .variableIn data ∧ data.name ≠ ""

/-- A pin of the block `b` that is neither wired nor bound. -/
def Omits (r : Rung) (b : Node) (pin : Connector) : Prop := ¬ r.WiredPin b pin ∧ ¬ r.BoundPin b pin

/-- The first binding of the variable `n` leads to a block. -/
def TakesPin (r : Rung) (n : Node) : Prop :=
  ∃ binding b, r.bindingForVariable? n.id = some binding ∧ r.node? binding.blockId = some b ∧
    b.kind.tag = "block"

open Classical in
/-- What is missing at a node. -/
noncomputable def noticesAt (r : Rung) (index : Nat) (n : Node) : List Warning :=
  match n.kind with
  | .unknown => [.unknownNodeKind index n.id]
  | .block data =>
    (data.inputs.filter (r.Omits n)).map fun pin => .danglingReference index n.id pin.id
  | .variableOut data =>
    if data.name ≠ "" ∧ ¬ r.TakesPin n then [.danglingReference index n.id data.name] else []
  | _ => []

/-- What is missing in the drawing: first the ends of edges, then what is missing at nodes. -/
noncomputable def notices (r : Rung) (index : Nat) : List Warning :=
  (r.edges.filter (!r.isComplete ·)).map (fun e => .danglingEdge index e.source e.target) ++
    r.nodes.flatMap (r.noticesAt index)

end Rung

namespace RungContext

variable {r : Rung} {index : Nat} {offset : Offset} {n : Node}

theorem collect_eq_nil_iff {pin : Connector} {target : Point} {cs : List Body.Connection}
    (h : (r.context index offset).collect n (some pin.id) target = .ok cs) :
    cs = [] ↔ ¬ r.WiredPin n pin := by
  rw [List.eq_nil_iff_forall_not_mem, ← not_exists, not_iff_not]
  constructor
  · rintro ⟨c, hc⟩
    obtain ⟨m, l, a, hm, hb, hsrc, -⟩ := (collect_cites_iff h).1 ⟨c, hc, rfl, rfl⟩
    exact ⟨m, l, a, hm, hb, hsrc⟩
  · rintro ⟨m, l, a, hm, hb, hsrc⟩
    obtain ⟨c, hc, -⟩ := (collect_cites_iff h).2 ⟨m, l, a, hm, hb, hsrc, rfl, rfl⟩
    exact ⟨c, hc⟩

theorem boundExpression_eq_none_iff {pin : Connector} :
    (r.context index offset).boundExpression n pin = none ↔ ¬ r.BoundPin n pin := by
  rw [← Option.not_isSome_iff_eq_none, not_iff_not, Option.isSome_iff_exists, boundExpression_eq]
  simp only [Option.bind_eq_some_iff, Rung.operand?_eq_some_iff]
  constructor
  · rintro ⟨_, binding, hb, v, data, hv, hk, hname, rfl⟩
    exact ⟨binding, v, data, hb, hv, hk, hname⟩
  · rintro ⟨binding, v, data, hb, hv, hk, hname⟩
    exact ⟨data.name, binding, hb, v, data, hv, hk, hname, rfl⟩

theorem boundPin_eq_none_iff :
    (r.context index offset).boundPin n = none ↔ ¬ r.TakesPin n := by
  rw [boundPin_eq, Option.map_eq_none_iff, ← Option.not_isSome_iff_eq_none, not_iff_not,
    Option.isSome_iff_exists]
  simp only [Rung.drawnPin_eq_some_iff]
  constructor
  · rintro ⟨_, binding, block, hb, hv, ht, rfl⟩
    exact ⟨binding, block, hb, hv, ht⟩
  · rintro ⟨binding, block, hb, hv, ht⟩
    exact ⟨_, binding, block, hb, hv, ht, rfl⟩

theorem pinSource_eq_none_iff {pin : Connector} {source : Option Body.InputSource}
    (h : (r.context index offset).pinSource n pin = .ok source) :
    source = none ↔ r.Omits n pin := by
  obtain ⟨cs, hcs, rfl⟩ := pinSource_eq_ok h
  have hbound : (r.context index offset).boundExpression n pin = none ↔ ¬ r.BoundPin n pin :=
    boundExpression_eq_none_iff
  rw [Rung.Omits, ← collect_eq_nil_iff hcs, ← hbound]
  split
  · rename_i hnil
    simp [hnil]
  · rename_i hne
    simp [hne]

open Classical in
theorem map_isNone_pins {data : BlockData} {pins : List (Connector × Option Body.InputSource)}
    (h : data.inputs.mapM (fun pin => do
      return (pin, ← (r.context index offset).pinSource n pin)) = .ok pins) :
    pins.map (fun p => (p.1, p.2.isNone)) =
      data.inputs.map fun pin => (pin, decide (r.Omits n pin)) := by
  apply map_of_mapM_eq_ok h
  intro pin p hp
  obtain ⟨source, hsource, hp⟩ := bind_eq_ok.1 hp
  cases hp
  rw [Prod.mk.injEq, Bool.eq_iff_iff, Option.isNone_iff_eq_none, decide_eq_true_iff]
  exact ⟨rfl, pinSource_eq_none_iff hsource⟩

open Classical in
/-- A block shows the pins that it does not omit, and is told of for each that it does. -/
theorem pins_of_block {data : BlockData} {x : Body.Block} {warnings : List Warning}
    (h : (r.context index offset).block n data = .ok (x, warnings)) :
    x.inputs.map (·.formalParameter) =
        (data.inputs.filter fun pin => ¬ r.Omits n pin).map (·.id) ∧
      warnings = (data.inputs.filter (r.Omits n)).map fun pin =>
        .danglingReference index n.id pin.id := by
  obtain ⟨pins, hpins, -, hin, hwarn⟩ := block_eq_ok h
  have hmap := map_isNone_pins hpins
  have hpick (keep : Bool → Bool) :
      (pins.filter fun p => keep p.2.isNone).map (·.1) =
        data.inputs.filter fun pin => keep (decide (r.Omits n pin)) := by
    have hkeep := congrArg (fun l => (l.filter (keep ·.2)).map (·.1)) hmap
    simpa only [List.filter_map, List.map_map, Function.comp_def, List.map_id'] using hkeep
  constructor
  · calc x.inputs.map (·.formalParameter)
        = pins.filterMap fun p => if !p.2.isNone then some p.1.id else none := by
          rw [hin, List.map_filterMap]
          apply List.filterMap_congr
          rintro ⟨pin, source⟩ -
          cases source <;> rfl
      _ = ((pins.filter (!·.2.isNone)).map (·.1)).map (·.id) := by
          rw [List.map_map, ← List.filterMap_eq_map, List.filterMap_filter]
          rfl
      _ = _ := by
          rw [hpick (!·)]
          simp
  · rw [hwarn, ← hpick fun b => b, List.map_map]
    rfl

theorem warnings_of_emit {em : Emitted} (h : (r.context index offset).emit n = .ok em) :
    em.warnings = r.noticesAt index n := by
  unfold Rung.noticesAt
  cases emits_of_emit h with
  | leftRail hk | rightRail hk | contact hk | coil hk | inVariable hk => rw [hk]
  | unknown hk => rw [hk]; rfl
  | block hk hx => rw [hk]; exact (pins_of_block hx).2
  | @outVariable data x warnings hk hx =>
    have hname := mt outVariable_eq_none_iff.2 (by rw [hx]; simp)
    have hpin : (r.context index offset).boundPin n = none ↔ ¬ r.TakesPin n :=
      boundPin_eq_none_iff
    rw [hk, warnings_of_outVariable hx]
    by_cases ht : r.TakesPin n
    · rw [if_pos (Option.isSome_iff_ne_none.2 fun h => hpin.1 h ht)]
      exact (if_neg fun h => h.2 ht).symm
    · rw [if_neg (by simp [hpin.2 ht])]
      exact (if_pos ⟨hname, ht⟩).symm
  | unnamed hk hx =>
    rw [hk]
    simp [outVariable_eq_none_iff.1 hx]
  | marker hk =>
    unfold NodeKind.isParallel at hk
    split at hk <;> simp_all

end RungContext

namespace Rung

variable {r : Rung} {index : Nat} {offset : Offset} {low : Lowered}

theorem danglingWarnings_eq (r : Rung) (index : Nat) :
    r.danglingWarnings index =
      (r.edges.filter (!r.isComplete ·)).map fun e => .danglingEdge index e.source e.target := by
  have hc (e : Edge) :
      (Topology.wire? (Topology.indexNodes r.nodes) e).isNone = !r.isComplete e := by
    rw [← Topology.isSome_wire?, Option.not_isSome]
  show ((r.edges.filter _).map _ : List Warning) = _
  simp only [hc]

theorem warnings_of_lower (h : r.lower index offset = .ok low) :
    low.warnings = r.notices index := by
  obtain ⟨-, emitted, hem, -, hw⟩ := lower_eq_ok h
  have hmap := map_of_mapM_eq_ok hem fun _ _ => RungContext.warnings_of_emit
  rw [hw, danglingWarnings_eq, notices, List.flatMap, hmap, List.flatMap]

theorem filter_tag_of_lower (h : r.lower index offset = .ok low) (kind : String) :
    (low.elements.filter (·.tag = kind)).map (·.localId) = r.localIds kind := by
  have hkeys := congrArg (fun keys => (keys.filter (·.1 = kind)).map (·.2)) (map_key_of_lower h)
  simpa only [List.filter_map, List.map_map, List.filter_filter, Function.comp_def, localIds,
    Bool.and_comm] using hkeys

end Rung

def exported (config : Config) (rungs : List Rung) : List (Rung × Nat) :=
  rungs.zipIdx.filter fun p => p.2 ∉ (lower config rungs).failures.map (·.rung)

theorem exported_eq (config : Config) (rungs : List Rung) :
    exported config rungs =
      ((outcomes rungs).filter (·.failure?.isNone)).map fun o => (o.rung, o.index) := by
  rw [exported, ← map_index_outcomes, List.filter_map]
  congr 1
  apply List.filter_congr
  intro o ho
  have hfail : (∃ f ∈ (lower config rungs).failures, f.rung = o.index) ↔
      ¬ ∃ low, o.result = .ok low := exists_failure_iff ho
  rw [Bool.eq_iff_iff, Function.comp_apply, decide_eq_true_iff, Option.isNone_iff_eq_none,
    Outcome.failure?_eq_none_iff, not_iff_comm, ← hfail, List.mem_map]

/-- What is gathered from the rungs that were lowered is gathered from those exported. -/
theorem flatMap_outcomes {α : Type} {config : Config} {rungs : List Rung} {g : Outcome → List α}
    {k : Rung × Nat → List α} (hfail : ∀ o cause, o.result = .error cause → g o = [])
    (hok : ∀ o ∈ outcomes rungs, ∀ low, o.result = .ok low → g o = k (o.rung, o.index)) :
    (outcomes rungs).flatMap g = (exported config rungs).flatMap k := by
  rw [exported_eq, List.flatMap_map]
  generalize outcomes rungs = os at hok
  induction os with
  | nil => rfl
  | cons o os ih =>
    have hrest := ih fun o ho => hok o (List.mem_cons_of_mem _ ho)
    rw [List.flatMap_cons, hrest]
    cases hres : o.result with
    | error cause => simp [hfail o cause hres, Outcome.failure?, hres]
    | ok low => simp [hok o List.mem_cons_self low hres, Outcome.failure?, hres]

theorem localIds_plainBody (config : Config) (rungs : List Rung) :
    (plainBody rungs).localIds = Body.kinds.map fun kind =>
      (exported config rungs).flatMap fun p => p.1.localIds kind := by
  rw [plainBody, Body.localIds_ofElements]
  apply List.map_congr_left
  intro kind _
  rw [List.filter_flatMap, List.map_flatMap]
  apply flatMap_outcomes
  · intro o cause hres
    rw [Outcome.elements_of_error hres]
    rfl
  · intro o ho low hres
    rw [Outcome.elements_of_ok hres]
    exact Rung.filter_tag_of_lower (lower_of_mem_outcomes ho hres) kind

theorem warnings_lower (config : Config) (rungs : List Rung) :
    (lower config rungs).warnings =
      (exported config rungs).flatMap fun p => p.1.notices p.2 := by
  apply flatMap_outcomes
  · intro o cause hres
    exact Outcome.warnings_of_error hres
  · intro o ho low hres
    rw [Outcome.warnings_of_ok hres]
    exact Rung.warnings_of_lower (lower_of_mem_outcomes ho hres)

theorem pairwise_failures (config : Config) (rungs : List Rung) :
    ((lower config rungs).failures.map (·.rung)).Pairwise (· < ·) := by
  have hidx : (outcomes rungs).Pairwise (·.index < ·.index) := by
    have hnumbered := pairwise_zipIdx_snd rungs 0
    rw [← map_index_outcomes, List.pairwise_map] at hnumbered
    exact hnumbered
  rw [List.pairwise_map]
  refine List.pairwise_filterMap.2 (hidx.imp ?_)
  intro o o' hlt f hf f' hf'
  rwa [(Outcome.rung_of_failure? hf).1, (Outcome.rung_of_failure? hf').1]

open Classical in
theorem Contributes.pins {config : Config} {rungs : List Rung} {i : Nat} {r : Rung} {n : Node}
    {e : Element} {data : BlockData} (h : Contributes config rungs i r n e)
    (hk : n.kind = .block data) :
    e.pins = (data.inputs.filter fun pin => ¬ r.Omits n pin).map (·.id) := by
  obtain ⟨o, -, -, -, -, e₀, ⟨-, em, hem, he⟩, rfl⟩ := h
  rw [RungContext.emit, hk] at hem
  obtain ⟨⟨x, warnings⟩, hx, hem⟩ := bind_eq_ok.1 hem
  cases hem
  cases he
  rw [Element.pins_adapted, ← (RungContext.pins_of_block hx).1]
  rfl

open Classical in
/-- **Every rung, element and warning is accounted for.** Failures tell of rungs in their order,
each of a rung by its position and its id. Each list of the body holds the local ids of the nodes
of its kind in the rungs that are exported, rung by rung and node by node; only the rails are
cut to the first where they are shared. The warnings tell of what is missing in these rungs, and
the pins that are told of are those that the blocks of the body do not show. -/
theorem report_accounts_for_rungs (config : Config) (rungs : List Rung) :
    ((lower config rungs).failures.map (·.rung)).Pairwise (· < ·) ∧
      (∀ f ∈ (lower config rungs).failures, ∃ r, rungs[f.rung]? = some r ∧ f.rungId = r.id) ∧
      (lower config rungs).body.localIds = (Body.kinds.map fun kind =>
        Body.keptIds config kind ((exported config rungs).flatMap fun p => p.1.localIds kind)) ∧
      (lower config rungs).warnings =
        ((exported config rungs).flatMap fun p => p.1.notices p.2) ∧
      ∀ i r n e data, Contributes config rungs i r n e → n.kind = .block data →
        e.pins = (data.inputs.filter fun pin => ¬ r.Omits n pin).map (·.id) := by
  refine ⟨pairwise_failures config rungs, ?_, ?_, warnings_lower config rungs, ?_⟩
  · intro f hf
    obtain ⟨o, ho, hf⟩ := List.mem_filterMap.1 hf
    obtain ⟨hrung, hid, -⟩ := Outcome.rung_of_failure? hf
    exact ⟨o.rung, hrung ▸ (getElem?_of_mem_outcomes ho).1, hid⟩
  · exact Body.localIds_adapt_of_eq (localIds_plainBody config rungs)
  · intro i r n e data h hk
    exact h.pins hk

/-- A block with one pin that is wired, one that is bound and one that is neither, beside an
out-variable that is bound to no block. -/
def halfWiredBlock : Rung where
  id := "halfWiredBlock"
  nodes := [
    { id := "rail", numericId := 1, kind := .leftRail },
    { id := "spare", numericId := 2, kind := .leftRail },
    { id := "add", numericId := 3,
      kind := .block { typeName := "ADD", outputs := [{ id := "OUT" }],
                       inputs := [{ id := "EN" }, { id := "IN1" }, { id := "IN2" }] } },
    { id := "k", numericId := 4, kind := .variableIn { name := "k" } },
    { id := "blank", numericId := 5, kind := .variableIn {} },
    { id := "note", numericId := 6, kind := .unknown },
    { id := "s", numericId := 7, kind := .variableOut { name := "s" } }]
  edges := [⟨"rail", "out", "add", "EN"⟩, ⟨"add", "OUT", "nowhere", "in"⟩]
  bindings := [⟨"k", "add", "IN1"⟩, ⟨"s", "gone", "OUT"⟩]

open Classical in
/-- Beside a rung that fails, the block shows two pins of three, and four things are told of. -/
theorem halfWiredBlock_accounted :
    let config := Config.ofDialect .codesys
    let rungs := [selfFedGroup, halfWiredBlock]
    (∃ f ∈ (lower config rungs).failures, f.rung = 0 ∧ f.rungId = selfFedGroup.id) ∧
      (Body.kinds.map fun kind => Body.keptIds config kind
        ((exported config rungs).flatMap fun p => p.1.localIds kind)) =
          [[1], [], [3], [], [], [4], [7]] ∧
      ((exported config rungs).flatMap fun p => p.1.notices p.2) =
        [.danglingEdge 1 "add" "nowhere", .danglingReference 1 "add" "IN2",
          .unknownNodeKind 1 "note", .danglingReference 1 "s" "s"] ∧
      ∃ i r n e data, Contributes config rungs i r n e ∧ n.kind = .block data ∧
        (data.inputs.filter fun pin => ¬ r.Omits n pin).map (·.id) = ["EN", "IN1"] := by
  intro config rungs
  obtain ⟨-, hfail, hids, hwarn, hpins⟩ := report_accounts_for_rungs config rungs
  have hf : ∃ f ∈ (lower config rungs).failures, f.rung = 0 := by decide +kernel
  have he : (3, ["EN", "IN1"]) ∈ (lower config rungs).body.elements.map
      fun e => (e.localId, e.pins) := by decide +kernel
  have hblock : ∀ r ∈ rungs, ∀ n ∈ r.nodes, n.numericId = 3 → n.kind.tag = "block" := by
    decide +kernel
  obtain ⟨f, hf, hi⟩ := hf
  obtain ⟨r, hr, hid⟩ := hfail f hf
  rw [hi] at hr
  cases hr
  refine ⟨⟨f, hf, hi, hid⟩, ?_, ?_, ?_⟩
  · rw [← hids]
    decide +kernel
  · rw [← hwarn]
    decide +kernel
  · obtain ⟨e, he, hshows⟩ := List.mem_map.1 he
    obtain ⟨hlocal, hshows⟩ := Prod.mk.inj hshows
    obtain ⟨i, r, n, hc⟩ := exists_contributes he
    have htag := hblock r (List.mem_of_getElem? hc.getElem?) n hc.mem_nodes
      (hc.localId.1.symm.trans hlocal)
    obtain ⟨data, hk⟩ := Node.exists_block_of_tag htag
    exact ⟨i, r, n, e, data, hc, hk, (hpins i r n e data hc hk).symm.trans hshows⟩

end LadderDiagram
