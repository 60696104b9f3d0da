import LadderDiagram.Proofs.Element
import Mathlib.Data.List.Flatten

/-!
# Lowered rungs

Which elements a rung that is lowered contributes (`Rung.Emits`), and how the
rungs of a list are accounted for by their outcomes: every rung has one, and the
body before the passes of the dialect holds the elements of all of them.
-/

namespace LadderDiagram

open Body (Element)
open LadderDiagram.Topology (ofRung)

namespace Offset

theorem length_stack (o : Offset) (heights : List Float) :
    (stack o heights).length = heights.length := by
  induction heights generalizing o with
  | nil => rfl
  | cons height rest ih => simp [stack, ih]

@[simp] theorem length_ofRungs (rungs : List Rung) : (ofRungs rungs).length = rungs.length := by
  rw [ofRungs, length_stack, List.length_map]

end Offset

namespace Rung

/-- The node `n` of the rung becomes the element `e`. -/
def Emits (r : Rung) (index : Nat) (offset : Offset) (n : Node) (e : Element) : Prop :=
  n ∈ r.nodes ∧ ∃ em, (r.context index offset).emit n = .ok em ∧ em.element = some e

section
variable {r : Rung} {index : Nat} {offset : Offset} {low : Lowered}

theorem Emits.localId {n : Node} {e : Element} (h : r.Emits index offset n e) :
    e.localId = n.numericId ∧ e.tag = n.kind.tag := by
  obtain ⟨-, em, hem, he⟩ := h
  exact RungContext.localId_of_emit hem he

/-- A rung is lowered by way of what each of its nodes becomes. -/
theorem lower_eq_ok (h : r.lower index offset = .ok low) :
    (∃ pairs, (ofRung r).pairs = .ok pairs) ∧
      ∃ emitted, r.nodes.mapM (r.context index offset).emit = .ok emitted ∧
        low.elements = emitted.filterMap (·.element) ∧
        low.warnings = r.danglingWarnings index ++ emitted.flatMap (·.warnings) := by
  obtain ⟨pairs, hp, h⟩ := bind_eq_ok.1 h
  obtain ⟨emitted, hem, h⟩ := bind_eq_ok.1 h
  cases h
  exact ⟨⟨pairs, hp⟩, emitted, hem, rfl, rfl⟩

theorem mem_elements_of_lower (h : r.lower index offset = .ok low) {e : Element} :
    e ∈ low.elements ↔ ∃ n, r.Emits index offset n e := by
  obtain ⟨-, emitted, hem, hl, -⟩ := lower_eq_ok h
  rw [hl, List.mem_filterMap]
  constructor
  · rintro ⟨em, hm, he⟩
    obtain ⟨n, hn, hn'⟩ := (mem_of_mapM_eq_ok hem).1 hm
    exact ⟨n, hn, em, hn', he⟩
  · rintro ⟨n, hn, em, hn', he⟩
    exact ⟨em, (mem_of_mapM_eq_ok hem).2 ⟨n, hn, hn'⟩, he⟩

theorem exists_emits_of_isExported (h : r.lower index offset = .ok low) {n : Node}
    (hn : n ∈ r.nodes) (he : n.isExported = true) : ∃ e, r.Emits index offset n e := by
  obtain ⟨-, emitted, hem, -⟩ := lower_eq_ok h
  obtain ⟨em, -, hn'⟩ := exists_of_mapM_eq_ok hem hn
  obtain ⟨e, he⟩ := RungContext.exists_element_of_emit hn' he
  exact ⟨e, hn, em, hn', he⟩

theorem exists_emits_of_lower (h : r.lower index offset = .ok low) {n : Node} (hn : n ∈ r.nodes)
    (hc : n.isCitable = true) : ∃ e, r.Emits index offset n e :=
  exists_emits_of_isExported h hn (Node.isExported_of_isCitable hc)

theorem map_key_of_lower (h : r.lower index offset = .ok low) :
    low.elements.map (fun e => (e.tag, e.localId)) =
      (r.nodes.filter (·.isExported)).map fun n => (n.kind.tag, n.numericId) := by
  obtain ⟨-, emitted, hem, hl, -⟩ := lower_eq_ok h
  have hkey := map_of_mapM_eq_ok hem fun _ _ => RungContext.map_key_of_emit
  calc low.elements.map (fun e => (e.tag, e.localId))
      = (emitted.map fun em => em.element.map fun e => (e.tag, e.localId)).filterMap
          fun key => key := by
        rw [hl, List.map_filterMap, List.filterMap_map]
        rfl
    _ = r.nodes.filterMap fun n =>
          if n.isExported then some (n.kind.tag, n.numericId) else none := by
        rw [hkey, List.filterMap_map]
        rfl
    _ = (r.nodes.filter (·.isExported)).map fun n => (n.kind.tag, n.numericId) := by
        rw [← List.filterMap_eq_map, List.filterMap_filter]
        rfl

/-- The local ids of the elements are those of the nodes, less the nodes that become none. -/
theorem localIds_of_lower (h : r.lower index offset = .ok low) :
    low.elements.map (·.localId) = (r.nodes.filter (·.isExported)).map (·.numericId) := by
  have hkey := congrArg (List.map Prod.snd) (map_key_of_lower h)
  rw [List.map_map, List.map_map] at hkey
  exact hkey

theorem localIds_sublist_of_lower (h : r.lower index offset = .ok low) :
    (low.elements.map (·.localId)).Sublist (r.nodes.map (·.numericId)) := by
  rw [localIds_of_lower h]
  exact List.filter_sublist.map _

end

end Rung

namespace Outcome

variable {o : Outcome}

theorem elements_of_ok {low : Lowered} (h : o.result = .ok low) : o.elements = low.elements := by
  rw [elements, h]
  rfl

theorem elements_of_error {cause : MalformedGraph} (h : o.result = .error cause) :
    o.elements = [] := by
  rw [elements, h]
  rfl

theorem warnings_of_ok {low : Lowered} (h : o.result = .ok low) : o.warnings = low.warnings := by
  rw [warnings, h]
  rfl

theorem warnings_of_error {cause : MalformedGraph} (h : o.result = .error cause) :
    o.warnings = [] := by
  rw [warnings, h]
  rfl

theorem failure?_eq_none_iff : o.failure? = none ↔ ∃ low, o.result = .ok low := by
  unfold failure?
  cases o.result <;> simp

theorem rung_of_failure? {f : Failure} (h : o.failure? = some f) :
    f.rung = o.index ∧ f.rungId = o.rung.id ∧ o.result = .error f.cause := by
  unfold failure? at h
  split at h
  · cases h
  · rename_i hres
    cases h
    exact ⟨rfl, rfl, hres⟩

end Outcome

theorem getElem?_outcomes {rungs : List Rung} {i : Nat} {o : Outcome} :
    (outcomes rungs)[i]? = some o ↔
      o.index = i ∧ rungs[i]? = some o.rung ∧ (Offset.ofRungs rungs)[i]? = some o.offset ∧
        o.result = o.rung.lower i o.offset := by
  obtain ⟨index, rung, offset, result⟩ := o
  rw [outcomes, List.getElem?_mapIdx, Option.map_eq_some_iff]
  simp only [Prod.exists, List.getElem?_zip_eq_some, Outcome.mk.injEq]
  constructor
  · rintro ⟨r, o, ⟨hr, ho⟩, rfl, rfl, rfl, rfl⟩
    exact ⟨rfl, hr, ho, rfl⟩
  · rintro ⟨rfl, hr, ho, rfl⟩
    exact ⟨rung, offset, ⟨hr, ho⟩, rfl, rfl, rfl, rfl⟩

theorem getElem?_of_mem_outcomes {rungs : List Rung} {o : Outcome} (h : o ∈ outcomes rungs) :
    rungs[o.index]? = some o.rung ∧ o.result = o.rung.lower o.index o.offset := by
  obtain ⟨i, hi⟩ := List.mem_iff_getElem?.1 h
  obtain ⟨rfl, hr, -, hres⟩ := getElem?_outcomes.1 hi
  exact ⟨hr, hres⟩

theorem lower_of_mem_outcomes {rungs : List Rung} {o : Outcome} {low : Lowered}
    (ho : o ∈ outcomes rungs) (h : o.result = .ok low) :
    o.rung.lower o.index o.offset = .ok low :=
  (getElem?_of_mem_outcomes ho).2.symm.trans h

theorem exists_outcome {rungs : List Rung} {i : Nat} {r : Rung} (h : rungs[i]? = some r) :
    ∃ o ∈ outcomes rungs, o.index = i ∧ o.rung = r := by
  obtain ⟨hi, -⟩ := List.getElem?_eq_some_iff.1 h
  obtain ⟨offset, ho⟩ : ∃ offset, (Offset.ofRungs rungs)[i]? = some offset :=
    ⟨_, List.getElem?_eq_getElem (by rw [Offset.length_ofRungs]; exact hi)⟩
  have hm : (outcomes rungs)[i]? = some ⟨i, r, offset, r.lower i offset⟩ :=
    getElem?_outcomes.2 ⟨rfl, h, ho, rfl⟩
  exact ⟨_, List.mem_of_getElem? hm, rfl, rfl⟩

/-- There is one outcome for each rung, at the position of the rung. -/
theorem map_index_outcomes (rungs : List Rung) :
    (outcomes rungs).map (fun o => (o.rung, o.index)) = rungs.zipIdx := by
  have hfst : (rungs.zip (Offset.ofRungs rungs)).map (·.1) = rungs :=
    List.map_fst_zip (by simp)
  conv_rhs => rw [← hfst, List.zipIdx_map]
  rw [outcomes, List.mapIdx_eq_zipIdx_map, List.map_map]
  rfl

theorem map_rung_outcomes (rungs : List Rung) : (outcomes rungs).map (·.rung) = rungs := by
  have h := congrArg (List.map Prod.fst) (map_index_outcomes rungs)
  rwa [List.map_map, List.zipIdx_map_fst] at h

namespace Body

/-- Sorting elements by kind loses none and adds none. -/
theorem perm_elements_ofElements (es : List Element) : (ofElements es).elements.Perm es := by
  rw [List.perm_iff_count]
  intro x
  induction es with
  | nil => rfl
  | cons e es ih =>
    simp only [elements, ofElements, List.count_append] at ih
    cases e <;>
      simp only [elements, ofElements, List.filterMap_cons, Element.leftRail?, Element.rightRail?,
        Element.block?, Element.contact?, Element.coil?, Element.inVariable?,
        Element.outVariable?, List.map_cons, List.count_append, List.count_cons] <;>
      omega

theorem mem_elements_ofElements {es : List Element} {e : Element} :
    e ∈ (ofElements es).elements ↔ e ∈ es :=
  (perm_elements_ofElements es).mem_iff

end Body

/-- The body of all rungs, before the passes of the dialect. -/
def plainBody (rungs : List Rung) : Body :=
  Body.ofElements ((outcomes rungs).flatMap (·.elements))

theorem body_lower (config : Config) (rungs : List Rung) :
    (lower config rungs).body = (plainBody rungs).adapt config := rfl

theorem mem_elements_plainBody {rungs : List Rung} {e : Element} :
    e ∈ (plainBody rungs).elements ↔
      ∃ o ∈ outcomes rungs, (∃ low, o.result = .ok low) ∧
        ∃ n, o.rung.Emits o.index o.offset n e := by
  rw [plainBody, Body.mem_elements_ofElements, List.mem_flatMap]
  refine exists_congr fun o => and_congr_right fun ho => ?_
  cases hlow : o.result with
  | error cause => simp [Outcome.elements_of_error hlow]
  | ok low =>
    rw [Outcome.elements_of_ok hlow, Rung.mem_elements_of_lower (lower_of_mem_outcomes ho hlow)]
    simp

/-- The local ids of the plain body are among the numeric ids of the nodes, each once. -/
theorem localIds_sublist_numericIds (rungs : List Rung) :
    (((outcomes rungs).flatMap (·.elements)).map (·.localId)).Sublist
      (rungs.flatMap fun r => r.nodes.map (·.numericId)) := by
  have hr : (rungs.flatMap fun r => r.nodes.map (·.numericId)) =
      (outcomes rungs).flatMap fun o => o.rung.nodes.map (·.numericId) := by
    conv_lhs => rw [← map_rung_outcomes rungs, List.flatMap_map]
  rw [hr, List.map_flatMap]
  apply List.Sublist.flatMap_right _
  intro o ho
  cases hlow : o.result with
  | error cause =>
    rw [Outcome.elements_of_error hlow]
    exact List.nil_sublist _
  | ok low =>
    rw [Outcome.elements_of_ok hlow]
    exact Rung.localIds_sublist_of_lower (lower_of_mem_outcomes ho hlow)

theorem eq_of_index_eq {rungs : List Rung} {o o' : Outcome} (h : o ∈ outcomes rungs)
    (h' : o' ∈ outcomes rungs) (hi : o.index = o'.index) : o = o' := by
  obtain ⟨i, ho⟩ := List.mem_iff_getElem?.1 h
  obtain ⟨j, ho'⟩ := List.mem_iff_getElem?.1 h'
  obtain ⟨rfl, -⟩ := getElem?_outcomes.1 ho
  obtain ⟨rfl, -⟩ := getElem?_outcomes.1 ho'
  rw [hi, ho'] at ho
  exact (Option.some.inj ho).symm

/-- A failure tells of each rung that was not lowered, and of no other. -/
theorem exists_failure_iff {config : Config} {rungs : List Rung} {o : Outcome}
    (ho : o ∈ outcomes rungs) :
    (∃ f ∈ (lower config rungs).failures, f.rung = o.index) ↔ ¬ ∃ low, o.result = .ok low := by
  rw [← Outcome.failure?_eq_none_iff, ← ne_eq, Option.ne_none_iff_exists']
  constructor
  · rintro ⟨f, hf, hi⟩
    obtain ⟨o', ho', hf⟩ := List.mem_filterMap.1 hf
    obtain ⟨hrung, -⟩ := Outcome.rung_of_failure? hf
    rw [eq_of_index_eq ho ho' (hi.symm.trans hrung)]
    exact ⟨f, hf⟩
  · rintro ⟨f, hf⟩
    exact ⟨f, List.mem_filterMap.2 ⟨o, ho, hf⟩, (Outcome.rung_of_failure? hf).1⟩

theorem exists_lowered {config : Config} {rungs : List Rung} {i : Nat} {r : Rung}
    (h : rungs[i]? = some r) (hf : ∀ f ∈ (lower config rungs).failures, f.rung ≠ i) :
    ∃ o ∈ outcomes rungs, o.index = i ∧ o.rung = r ∧ ∃ low, o.result = .ok low := by
  obtain ⟨o, ho, rfl, rfl⟩ := exists_outcome h
  refine ⟨o, ho, rfl, rfl, ?_⟩
  by_contra hres
  obtain ⟨f, hmem, hi⟩ := (exists_failure_iff ho).2 hres
  exact hf f hmem hi

/-- Where numeric ids are distinct, a local id names one element of the plain body. -/
theorem eq_of_localId_eq {rungs : List Rung}
    (hd : (rungs.flatMap fun r => r.nodes.map (·.numericId)).Nodup) {e e' : Element}
    (he : e ∈ (plainBody rungs).elements) (he' : e' ∈ (plainBody rungs).elements)
    (h : e.localId = e'.localId) : e = e' :=
  List.inj_on_of_nodup_map (hd.sublist (localIds_sublist_numericIds rungs))
    (Body.mem_elements_ofElements.1 he) (Body.mem_elements_ofElements.1 he') h

end LadderDiagram
