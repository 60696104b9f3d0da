import LadderDiagram.Proofs.Reference
import LadderDiagram.Proofs.Repetition

/-!
# Identity of elements

Local ids are checked rung by rung, but the body is flat: what a clean export says of them is that
no two nodes of one rung share one. `clean_export_unambiguous` says what else is needed for a
local id to name one element of the body, `sharedId_exported` that it is needed.
-/

namespace LadderDiagram

open Body (Element)

/-- The local ids of the nodes that become elements. -/
def Rung.elementIds (r : Rung) : List UInt64 := (r.nodes.filter (·.isExported)).map (·.numericId)

namespace Program

variable {p : Program} {codec : Codec} {e : Export}

theorem nodup_of_duplicateWarnings (h : p.duplicateWarnings = []) {r : Rung} (hr : r ∈ p.rungs) :
    (r.nodes.map (·.numericId)).Nodup := by
  obtain ⟨i, hi⟩ := List.mem_iff_getElem?.1 hr
  have hnone := List.flatten_eq_nil_iff.1 h (r.repeatedIds.map (.duplicateLocalId i)) <|
    List.mem_iff_getElem?.2 ⟨i, by rw [List.getElem?_mapIdx, hi]; rfl⟩
  refine List.nodup_iff_count_le_one.2 fun id => Nat.le_of_not_lt fun hcount => ?_
  have hid := Rung.mem_repeatedIds.2 (Rung.exists_secondAt_iff.2 hcount)
  rw [List.map_eq_nil_iff.1 hnone] at hid
  exact List.not_mem_nil hid

/-- No two rungs share the local id of an element. -/
def IdsApart (p : Program) : Prop :=
  p.rungs.Pairwise fun r r' => r.elementIds.Disjoint r'.elementIds

/-- The local ids of the right rails that are dropped where rails are shared. -/
def spareRightRails (p : Program) : List UInt64 :=
  (p.rungs.flatMap (·.localIds "rightRail")).tail

end Program

namespace Body

theorem elements_firstRails_sublist (b : Body) : b.firstRails.elements.Sublist b.elements := by
  simp only [elements, firstRails, List.append_assoc]
  exact ((List.take_sublist 1 _).map _).append (((List.take_sublist 1 _).map _).append_right _)

theorem elements_cutRails_sublist (config : Config) (b : Body) :
    (b.cutRails config).elements.Sublist b.elements := by
  unfold cutRails
  split
  · exact elements_firstRails_sublist b
  · exact List.Sublist.refl _

theorem map_localId_adapt (config : Config) (b : Body) :
    (b.adapt config).elements.map (·.localId) =
      (b.cutRails config).elements.map (·.localId) := by
  rw [elements_adapt, List.map_map]
  exact List.map_congr_left fun e _ => e.localId_adapted config b.redirect

end Body

theorem exists_cited_plain {rungs : List Rung} {e : Element} (he : e ∈ (plainBody rungs).elements)
    {id : UInt64} (hid : id ∈ e.refs) : ∃ s ∈ (plainBody rungs).elements, s.localId = id := by
  obtain ⟨o, ho, ⟨low, hlow⟩, n, hn⟩ := mem_elements_plainBody.1 he
  obtain ⟨c, hc, rfl⟩ := List.mem_map.1 hid
  obtain ⟨m, hm, htag, hmid, -⟩ := hn.exists_cited hc
  obtain ⟨s, hs⟩ := Rung.exists_emits_of_lower (lower_of_mem_outcomes ho hlow) hm
    (Node.isCitable_iff.2 htag)
  exact ⟨s, mem_elements_plainBody.2 ⟨o, ho, ⟨low, hlow⟩, m, hs⟩, hs.localId.1.trans hmid⟩

section
variable {config : Config} {rungs : List Rung}

/-- What an element of the plain body is cited by names an element of the body, unless it is a
right rail that was dropped. -/
theorem exists_cited_kept {e : Element} (he : e ∈ (plainBody rungs).elements)
    (hr : config.sharedPowerRails = true →
      citedId config rungs e.localId ∉ ((plainBody rungs).rightRails.map (·.localId)).tail) :
    ∃ s ∈ (lower config rungs).body.elements, s.localId = citedId config rungs e.localId := by
  simp only [body_lower, Body.mem_elements_adapt]
  by_cases hl : e.localId ∈ (plainBody rungs).leftRails.map (·.localId)
  · obtain ⟨x, hx, hid⟩ := List.mem_map.1 hl
    obtain ⟨y, hy, hk, hyid⟩ := exists_leftRail_cited config hx
    have hy' : Element.leftRail y ∈ (plainBody rungs).elements := by simp [Body.elements, hy]
    refine ⟨_, ⟨_, hy', hk, rfl⟩, ?_⟩
    rw [Element.localId_adapted, ← hid]
    exact hyid
  · rw [citedId_of_not_mem hl] at hr ⊢
    refine ⟨_, ⟨e, he, fun hs => ?_, rfl⟩, Element.localId_adapted ..⟩
    cases e with
    | leftRail x =>
      have hx : x ∈ (plainBody rungs).leftRails := by simpa [Body.elements] using he
      exact (hl (List.mem_map_of_mem hx)).elim
    | rightRail x =>
      have hx : x ∈ (plainBody rungs).rightRails := by simpa [Body.elements] using he
      have hr := hr hs
      unfold Body.Keeps
      cases hrails : (plainBody rungs).rightRails with
      | nil => rw [hrails] at hx; cases hx
      | cons first rest =>
        rw [hrails] at hx hr
        rcases List.mem_cons.1 hx with rfl | hx
        · exact List.mem_cons_self
        · exact (hr (List.mem_map_of_mem hx)).elim
    | _ => trivial

theorem exported_of_failures_eq_nil (h : (lower config rungs).failures = []) :
    exported config rungs = rungs.zipIdx := by
  rw [exported, h, List.filter_eq_self]
  intro p _
  rfl

theorem flatMap_exported {α : Type} (h : (lower config rungs).failures = []) (k : Rung → List α) :
    ((exported config rungs).flatMap fun p => k p.1) = rungs.flatMap k := by
  conv_rhs => rw [← List.zipIdx_map_fst 0 rungs, List.flatMap_map]
  rw [exported_of_failures_eq_nil h]

theorem perm_localIds_plainBody (h : (lower config rungs).failures = []) :
    ((plainBody rungs).elements.map (·.localId)).Perm (rungs.flatMap (·.elementIds)) := by
  have hids : ((outcomes rungs).flatMap (·.elements)).map (·.localId) =
      rungs.flatMap (·.elementIds) := by
    rw [List.map_flatMap, ← flatMap_exported h]
    apply flatMap_outcomes
    · intro o cause hres
      rw [Outcome.elements_of_error hres]
      rfl
    · intro o ho low hres
      rw [Outcome.elements_of_ok hres]
      exact Rung.localIds_of_lower (lower_of_mem_outcomes ho hres)
  rw [← hids]
  exact (Body.perm_elements_ofElements _).map _

theorem rightRails_plainBody (h : (lower config rungs).failures = []) :
    (plainBody rungs).rightRails.map (·.localId) = rungs.flatMap (·.localIds "rightRail") := by
  have hids := localIds_plainBody config rungs
  simp only [Body.localIds, Body.kinds, List.map_cons, List.cons.injEq] at hids
  rw [hids.2.1, flatMap_exported h (·.localIds "rightRail")]

end

/-- In a program that is exported clean, the plain body names its elements apart exactly if the
rungs do. -/
theorem Program.nodup_plainBody_iff {p : Program} {config : Config}
    (hdup : p.duplicateWarnings = []) (hfail : (lower config p.rungs).failures = []) :
    ((plainBody p.rungs).elements.map (·.localId)).Nodup ↔ p.IdsApart := by
  have heach : ∀ r ∈ p.rungs, r.elementIds.Nodup := fun r hr =>
    (nodup_of_duplicateWarnings hdup hr).sublist (List.filter_sublist.map _)
  rw [(perm_localIds_plainBody hfail).nodup_iff, List.nodup_flatMap]
  exact and_iff_right heach

/-- **A clean export names its elements apart if no two rungs share a local id.** Where rails are
not shared, it does so only then. Each reference then leads to one element; nothing is said of
the right rails that are dropped where rails are shared. -/
theorem clean_export_unambiguous {p : Program} {codec : Codec} {e : Export}
    (he : p.exportAs codec = .ok e) (hw : e.warnings = []) (hf : e.failures = []) :
    (codec.config.sharedPowerRails = false →
      ((e.pou.body.elements.map (·.localId)).Nodup ↔ p.IdsApart)) ∧
    (p.IdsApart → (e.pou.body.elements.map (·.localId)).Nodup ∧
      ∀ x ∈ e.pou.body.elements, ∀ id ∈ x.refs,
        (codec.config.sharedPowerRails = true → id ∉ p.spareRightRails) →
          ∃! s, s ∈ e.pou.body.elements ∧ s.localId = id) := by
  obtain ⟨hbody, hwarn, hfail⟩ := Program.exportAs_eq_ok he
  rw [hf] at hfail
  rw [hw] at hwarn
  obtain ⟨hdup, -⟩ := List.append_eq_nil_iff.1 hwarn.symm
  have hplain := Program.nodup_plainBody_iff hdup hfail.symm
  have hids : e.pou.body.elements.map (·.localId) =
      ((plainBody p.rungs).cutRails codec.config).elements.map (·.localId) := by
    rw [hbody, body_lower, Body.map_localId_adapt]
  refine ⟨fun hs => ?_, fun hapart => ?_⟩
  · rw [hids, Body.cutRails, hs]
    exact hplain
  have hnodup : (e.pou.body.elements.map (·.localId)).Nodup := by
    rw [hids]
    exact (hplain.2 hapart).sublist ((Body.elements_cutRails_sublist codec.config _).map _)
  refine ⟨hnodup, fun x hx id hid hspare => ?_⟩
  rw [hbody, body_lower, Body.mem_elements_adapt] at hx
  obtain ⟨x₀, hx₀, -, rfl⟩ := hx
  rw [Element.refs_adapted] at hid
  split at hid
  · cases hid
  obtain ⟨id₀, hid₀, rfl⟩ := List.mem_map.1 hid
  obtain ⟨t, ht, rfl⟩ := exists_cited_plain hx₀ hid₀
  rw [Program.spareRightRails, ← rightRails_plainBody hfail.symm] at hspare
  obtain ⟨s, hs, hsid⟩ := exists_cited_kept ht hspare
  rw [← hbody] at hs
  refine ⟨s, ⟨hs, hsid⟩, ?_⟩
  rintro s' ⟨hs', hsid'⟩
  exact List.inj_on_of_nodup_map hnodup hs' hs (hsid'.trans hsid.symm)

def twoRungs : Program where
  name := "p"
  rungs := [
    { nodes := [
        { id := "left", numericId := 1, kind := .leftRail },
        { id := "a", numericId := 2, kind := .contact "a" .normal },
        { id := "x", numericId := 3, kind := .coil "x" .normal },
        { id := "right", numericId := 4, kind := .rightRail }]
      edges := [⟨"left", "out", "a", "in"⟩, ⟨"a", "out", "x", "in"⟩, ⟨"x", "out", "right", "in"⟩] },
    { nodes := [
        { id := "left", numericId := 5, kind := .leftRail },
        { id := "y", numericId := 6, kind := .coil "y" .normal },
        { id := "right", numericId := 7, kind := .rightRail }]
      edges := [⟨"left", "out", "y", "in"⟩, ⟨"y", "out", "right", "in"⟩] }]

/-- Where rails are shared, the coil of the second rung leads to the rail of the first. -/
theorem twoRungs_unambiguous :
    twoRungs.IdsApart ∧
      (∃ e, twoRungs.exportAs .json = .ok e ∧ e.warnings = [] ∧ e.failures = [] ∧
        Codec.json.config.sharedPowerRails = false ∧
        (e.pou.body.elements.map (·.localId)).Nodup) ∧
      ∃ e, twoRungs.exportAs (.plcOpen (.ofDialect .codesys)) = .ok e ∧ e.warnings = [] ∧
        e.failures = [] ∧ (e.pou.body.elements.map (·.localId)).Nodup ∧
        1 ∉ twoRungs.spareRightRails ∧
        ∃ x ∈ e.pou.body.elements, x.localId = 6 ∧ 1 ∈ x.refs ∧
          ∃! s, s ∈ e.pou.body.elements ∧ s.localId = 1 := by
  have hname : Text.isBlank twoRungs.name = false := by decide +kernel
  have hdup : twoRungs.duplicateWarnings = [] := by decide +kernel
  have hlow (d : Dialect) : (lower (.ofDialect d) twoRungs.rungs).warnings = [] ∧
      (lower (.ofDialect d) twoRungs.rungs).failures = [] := by
    cases d <;> decide +kernel
  have hclean (codec : Codec) (d : Dialect) (hc : codec.config = .ofDialect d) :
      ∃ e, twoRungs.exportAs codec = .ok e ∧ e.warnings = [] ∧ e.failures = [] := by
    obtain ⟨e, he⟩ := twoRungs.exists_exportAs hname codec
    obtain ⟨-, hwarn, hfail⟩ := Program.exportAs_eq_ok he
    rw [hc] at hwarn hfail
    rw [hdup, (hlow d).1] at hwarn
    exact ⟨e, he, hwarn, hfail.trans (hlow d).2⟩
  have hplain : ((plainBody twoRungs.rungs).elements.map (·.localId)).Nodup := by decide +kernel
  have hapart := (Program.nodup_plainBody_iff hdup (hlow .openPlc).2).1 hplain
  refine ⟨hapart, ?_, ?_⟩
  · obtain ⟨e, he, hw, hf⟩ := hclean .json .openPlc rfl
    obtain ⟨hiff, -⟩ := clean_export_unambiguous he hw hf
    exact ⟨e, he, hw, hf, rfl, (hiff rfl).2 hapart⟩
  · obtain ⟨e, he, hw, hf⟩ := hclean (.plcOpen (.ofDialect .codesys)) .codesys rfl
    obtain ⟨-, hall⟩ := clean_export_unambiguous he hw hf
    obtain ⟨hnodup, hrefs⟩ := hall hapart
    have hspare : 1 ∉ twoRungs.spareRightRails := by decide +kernel
    have hcoil : ∃ x ∈ e.pou.body.elements, x.localId = 6 ∧ 1 ∈ x.refs := by
      rw [(Program.exportAs_eq_ok he).1]
      decide +kernel
    obtain ⟨x, hx, hid, hx1⟩ := hcoil
    exact ⟨e, he, hw, hf, hnodup, hspare, x, hx, hid, hx1, hrefs x hx 1 hx1 fun _ => hspare⟩

/-- A contact of the first rung and the rail of the second share a local id. -/
def sharedId : Program where
  name := "p"
  rungs := [
    { nodes := [
        { id := "left", numericId := 1, kind := .leftRail },
        { id := "a", numericId := 2, kind := .contact "a" .normal },
        { id := "x", numericId := 3, kind := .coil "x" .normal }]
      edges := [⟨"left", "out", "a", "in"⟩, ⟨"a", "out", "x", "in"⟩] },
    { nodes := [
        { id := "left", numericId := 2, kind := .leftRail },
        { id := "y", numericId := 4, kind := .coil "y" .normal }]
      edges := [⟨"left", "out", "y", "in"⟩] }]

/-- The export is clean, and the coils cite an id that two elements have. -/
theorem sharedId_exported :
    ∃ e, sharedId.exportAs (.plcOpen (.ofDialect .openPlc)) = .ok e ∧ e.warnings = [] ∧
      e.failures = [] ∧ ¬ (e.pou.body.elements.map (·.localId)).Nodup ∧
      ∃ x ∈ e.pou.body.elements, ∃ id ∈ x.refs,
        1 < (e.pou.body.elements.map (·.localId)).count id := by
  obtain ⟨e, he⟩ := sharedId.exists_exportAs (by decide +kernel) (.plcOpen (.ofDialect .openPlc))
  obtain ⟨hbody, hwarn, hfail⟩ := Program.exportAs_eq_ok he
  refine ⟨e, he, ?_, ?_, ?_⟩
  · rw [hwarn]
    decide +kernel
  · rw [hfail]
    decide +kernel
  · rw [hbody]
    decide +kernel

end LadderDiagram
