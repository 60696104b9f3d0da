import LadderDiagram.Batch.Basic
import Mathlib.Data.List.Basic
import Mathlib.Data.List.Induction

/-!
# What a folder keeps of its snapshots

Where every result can be written, the run over a folder prints and writes, snapshot by snapshot
in the order of their names, what each of them gives in a folder of its own (`run_files`). A file
holds what was written to it last, and two snapshots write to the same files exactly if their
names agree up to the extension: so a snapshot keeps its results unless a later one of the same
stem gives others.
-/

namespace LadderDiagram.Batch

namespace CaseFile

def exports (f : CaseFile) : Bool :=
  match Program.load (some f.content) with
  | .ok p => !Text.isBlank p.name
  | .error _ => false

end CaseFile

namespace Target

def suffixes (t : Target) : List String :=
  ["_" ++ t.label ++ "." ++ t.extension, "_" ++ t.label ++ ".report.json"]

end Target

/-- What the names of results have behind the stem. -/
def suffixes : List String := targets.flatMap Target.suffixes

namespace CaseFile

def resultNames (f : CaseFile) : List String := suffixes.map (f.stem ++ ·)

def resultPaths (folder : String) (f : CaseFile) : List String :=
  f.resultNames.map (joinPath (resultsPath folder))

end CaseFile

/-- The snapshots among the files of a folder, in the order of their names. -/
def snapshots (files : List CaseFile) : List CaseFile :=
  (files.filter CaseFile.isSnapshot).mergeSort fun a b => decide (a.name ≤ b.name)

/-- The last snapshot of a folder that can be exported and has the given stem. -/
def lastOfStem (files : List CaseFile) (stem : String) : Option CaseFile :=
  ((snapshots files).filter fun f => f.exports && f.stem == stem).getLast?

/-- The run over a folder that holds nothing but one file. -/
def runAlone (folder : String) (taken : List String) (f : CaseFile) : Run :=
  run folder (.files [f] taken)

/-- What the file at a path holds after a run that wrote it: what was written there last. -/
def Run.content? (r : Run) (path : String) : Option String := r.written.reverse.lookup path

/-! ## Runs one after the other -/

namespace Run

@[simp] theorem concat_nil : concat [] = {} := rfl

theorem concat_cons (r : Run) (runs : List Run) : concat (r :: runs) = r.append (concat runs) := rfl

theorem concat_singleton (r : Run) : concat [r] = r := by
  obtain ⟨lines, written, stop⟩ := r
  cases stop <;> simp [concat_cons, append]

theorem concat_eq {runs : List Run} (h : ∀ r ∈ runs, r.stop = none) :
    concat runs = ⟨runs.flatMap (·.lines), runs.flatMap (·.written), none⟩ := by
  induction runs with
  | nil => rfl
  | cons r rest ih =>
    have hr := h r List.mem_cons_self
    rw [concat_cons, ih fun q hq => h q (List.mem_cons_of_mem r hq)]
    simp [append, hr]

end Run

/-! ## One file -/

section
variable {folder : String} {taken : List String}

/-- Every result of the file can be written. -/
def CaseFile.Writable (folder : String) (taken : List String) (f : CaseFile) : Prop :=
  f.exports → ∀ name ∈ f.resultNames, Results.refusal? ⟨resultsPath folder, taken⟩ name = none

theorem exportTo_of_blank (results : Results) (stem : String) {p : Program}
    (h : Text.isBlank p.name) (t : Target) :
    exportTo results stem p t =
      { lines := [s!"[fail] {stem} {t.label}: {ExportError.emptyName.message}"] } := by
  simp [exportTo, Program.exportAs, h]

theorem exportTo_of_name {results : Results} {stem : String} {p : Program}
    (h : Text.isBlank p.name = false) {t : Target}
    (hw : ∀ suffix ∈ t.suffixes, results.refusal? (stem ++ suffix) = none) :
    (exportTo results stem p t).stop = none ∧
      (exportTo results stem p t).written.map (·.1) =
        t.suffixes.map fun suffix => joinPath results.path (stem ++ suffix) := by
  have hname : s!"{stem}_{t.label}.{t.extension}" =
      stem ++ ("_" ++ t.label ++ "." ++ t.extension) := by
    simp only [toString, String.append_assoc]
  have hreport : s!"{stem}_{t.label}.report.json" = stem ++ ("_" ++ t.label ++ ".report.json") := by
    simp only [toString, String.append_assoc]
  simp only [Target.suffixes, List.mem_cons, List.not_mem_nil, or_false, forall_eq_or_imp,
    forall_eq] at hw
  simp [exportTo, Program.exportAs, h, hname, hreport, hw.1, hw.2, Target.suffixes]

theorem runAlone_eq {f : CaseFile} (h : f.isSnapshot) :
    runAlone folder taken f = exportFile folder ⟨resultsPath folder, taken⟩ f := by
  simp [runAlone, run, h, Run.concat_singleton]

theorem runAlone_of_error {f : CaseFile} (h : f.isSnapshot) {e : LoadError}
    (he : Program.load (some f.content) = .error e) :
    runAlone folder taken f =
      { lines := [s!"[fail] {f.stem}: {e.message (joinPath folder f.name)}"] } := by
  rw [runAlone_eq h, exportFile, he]

theorem runAlone_of_ok {f : CaseFile} (h : f.isSnapshot) {p : Program}
    (hp : Program.load (some f.content) = .ok p) :
    runAlone folder taken f =
      .concat (targets.map (exportTo ⟨resultsPath folder, taken⟩ f.stem p)) := by
  rw [runAlone_eq h, exportFile, hp]

/-- A file whose results can be written does not stop the run, and what is written are its
results, if its program can be exported. -/
theorem runAlone_spec {f : CaseFile} (h : f.isSnapshot) (hw : f.Writable folder taken) :
    (runAlone folder taken f).stop = none ∧
      (runAlone folder taken f).written.map (·.1) =
        if f.exports then f.resultPaths folder else [] := by
  cases hl : Program.load (some f.content) with
  | error e =>
    rw [runAlone_of_error h hl]
    simp [CaseFile.exports, hl]
  | ok p =>
    have hx : f.exports = !Text.isBlank p.name := by simp [CaseFile.exports, hl]
    rw [runAlone_of_ok h hl]
    cases hb : Text.isBlank p.name with
    | true =>
      have hrun := exportTo_of_blank ⟨resultsPath folder, taken⟩ f.stem hb
      rw [Run.concat_eq (by simp [hrun])]
      simp [hx, hb, hrun]
    | false =>
      rw [hb, Bool.not_false] at hx
      have hrun (t : Target) (ht : t ∈ targets) := exportTo_of_name hb fun suffix hs =>
        hw hx (f.stem ++ suffix) (List.mem_map_of_mem (List.mem_flatMap_of_mem ht hs))
      rw [Run.concat_eq (List.forall_mem_map.2 fun t ht => (hrun t ht).1), hx, if_pos rfl]
      refine ⟨rfl, ?_⟩
      show List.map _ (List.flatMap _ (targets.map _)) = _
      rw [List.flatMap_map, List.map_flatMap, CaseFile.resultPaths, CaseFile.resultNames, suffixes,
        List.map_map, List.map_flatMap]
      exact List.flatMap_congr fun t ht => (hrun t ht).2

end

/-! ## Whose results they are -/

/-- The name of a snapshot is its stem with the extension `json`, in letters of any case. -/
theorem CaseFile.name_of_isSnapshot {f : CaseFile} (h : f.isSnapshot) :
    ∃ extension : String, f.name = f.stem ++ "." ++ extension ∧ extension.toLower = "json" := by
  have hsplit := List.takeWhile_append_dropWhile (p := (· ≠ '.')) (l := f.name.toList.reverse)
  have hdot := List.head?_dropWhile_not (· ≠ '.') f.name.toList.reverse
  rw [isSnapshot, splitExtension] at h
  rw [stem, splitExtension]
  split at h
  · rename_i c a as hd
    simp only [hd] at hsplit hdot ⊢
    obtain rfl : c = '.' := by simpa using hdot
    generalize f.name.toList.reverse.takeWhile (· ≠ '.') = extension at h hsplit
    refine ⟨String.ofList extension.reverse, String.toList_injective ?_, by simpa using h⟩
    rw [← List.reverse_reverse f.name.toList, ← hsplit]
    simp
  · simp at h

/-- What stands behind the stem begins where the last underscore of a name is. -/
theorem exists_of_mem_suffixes {suffix : String} (h : suffix ∈ suffixes) :
    ∃ rest, suffix.toList = '_' :: rest ∧ '_' ∉ rest := by
  have hall : ∀ suffix ∈ suffixes, suffix.toList.head? = some '_' ∧
      '_' ∉ suffix.toList.tail := by decide +kernel
  obtain ⟨hhead, htail⟩ := hall suffix h
  obtain ⟨rest, hrest⟩ := List.head?_eq_some_iff.1 hhead
  rw [hrest] at htail
  exact ⟨rest, hrest, htail⟩

/-- From the name of a result its stem can be read off. -/
theorem stem_eq_of_append_eq {stem stem' suffix suffix' : String} (h : suffix ∈ suffixes)
    (h' : suffix' ∈ suffixes) (he : stem ++ suffix = stem' ++ suffix') : stem = stem' := by
  obtain ⟨rest, hs, hr⟩ := exists_of_mem_suffixes h
  obtain ⟨rest', hs', hr'⟩ := exists_of_mem_suffixes h'
  have hl := congrArg String.toList he
  rw [String.toList_append, String.toList_append, hs, hs'] at hl
  have hcut (cs rest : List Char) (hr : '_' ∉ rest) :
      (cs ++ '_' :: rest).reverse.dropWhile (· ≠ '_') = '_' :: cs.reverse := by
    rw [List.reverse_append, List.reverse_cons, List.append_assoc, List.dropWhile_append_of_pos]
    · simp
    · intro c hc
      exact decide_eq_true fun h => hr (h ▸ List.mem_reverse.1 hc)
  have hstem := hcut stem.toList rest hr
  rw [hl, hcut stem'.toList rest' hr'] at hstem
  exact (String.toList_injective (List.reverse_injective (List.cons.inj hstem).2)).symm

theorem joinPath_injective (folder : String) : Function.Injective (joinPath folder) := by
  intro a b h
  unfold joinPath at h
  split at h
  · exact (String.append_right_inj _).1 h
  · exact (String.append_right_inj _).1 h

/-- Two files have a result in common only if they have the same stem; then they have all in
common. -/
theorem mem_resultPaths_iff {folder path : String} {f g : CaseFile}
    (h : path ∈ f.resultPaths folder) : path ∈ g.resultPaths folder ↔ g.stem = f.stem := by
  constructor
  · intro hg
    simp only [CaseFile.resultPaths, CaseFile.resultNames, List.map_map, List.mem_map,
      Function.comp_apply] at h hg
    obtain ⟨suffix, hs, rfl⟩ := h
    obtain ⟨suffix', hs', he⟩ := hg
    exact stem_eq_of_append_eq hs' hs (joinPath_injective _ he)
  · intro hs
    rwa [CaseFile.resultPaths, CaseFile.resultNames, hs]

/-! ## A folder -/

theorem snapshots_perm (files : List CaseFile) :
    (snapshots files).Perm (files.filter CaseFile.isSnapshot) := List.mergeSort_perm _ _

theorem mem_snapshots {files : List CaseFile} {f : CaseFile} :
    f ∈ snapshots files ↔ f ∈ files ∧ f.isSnapshot := by
  rw [(snapshots_perm files).mem_iff, List.mem_filter]

theorem pairwise_snapshots (files : List CaseFile) :
    (snapshots files).Pairwise fun a b => a.name ≤ b.name := by
  refine (List.pairwise_mergeSort ?_ ?_ _).imp fun h => of_decide_eq_true h
  · intro a b c hab hbc
    exact decide_eq_true (String.le_trans (of_decide_eq_true hab) (of_decide_eq_true hbc))
  · intro a b
    simpa using String.le_total a.name b.name

/-- Of what was written to a path that only some items of a list write to, the last of them
decides. -/
theorem lookup_flatMap_reverse {α : Type} {w : α → List (String × String)} {p : α → Bool}
    {path : String} {as : List α} (h : ∀ a ∈ as, path ∈ (w a).map (·.1) ↔ p a) :
    (as.flatMap w).reverse.lookup path =
      (as.filter p).getLast?.bind fun a => (w a).reverse.lookup path := by
  induction as using List.reverseRecOn with
  | nil => rfl
  | append_singleton as a ih =>
    have ha : ((w a).reverse.lookup path).isSome ↔ p a := by
      rw [← h a (by simp), List.lookup_isSome_iff]
      simp only [List.mem_reverse, beq_iff_eq, @eq_comm _ path, List.mem_map]
    rw [List.flatMap_append, List.flatMap_singleton, List.reverse_append, List.lookup_append,
      List.filter_append, ih fun b hb => h b (by simp [hb])]
    cases hp : p a with
    | true =>
      obtain ⟨text, ht⟩ := Option.isSome_iff_exists.1 (ha.2 hp)
      simp [hp, ht]
    | false =>
      have hnone : (w a).reverse.lookup path = none := by
        rw [← Option.not_isSome_iff_eq_none, ha, hp]
        exact Bool.false_ne_true
      simp [hp, hnone]

section
variable {folder : String} {taken : List String} {files : List CaseFile}
  (h : ∀ f ∈ files, f.isSnapshot → f.Writable folder taken)
include h

theorem runAlone_spec_of_mem {f : CaseFile} (hf : f ∈ snapshots files) :
    (runAlone folder taken f).stop = none ∧
      (runAlone folder taken f).written.map (·.1) =
        if f.exports then f.resultPaths folder else [] := by
  obtain ⟨hf, hs⟩ := mem_snapshots.1 hf
  exact runAlone_spec hs (h f hf hs)

theorem run_eq :
    run folder (.files files taken) =
      { lines := if snapshots files = [] then [s!"No .json snapshots found in {folder}"]
          else (snapshots files).flatMap fun f => (runAlone folder taken f).lines
        written := (snapshots files).flatMap fun f => (runAlone folder taken f).written } := by
  have hrun : (snapshots files).map (exportFile folder ⟨resultsPath folder, taken⟩) =
      (snapshots files).map (runAlone folder taken) :=
    List.map_congr_left fun f hf => (runAlone_eq (mem_snapshots.1 hf).2).symm
  have hstop : ∀ r ∈ (snapshots files).map (runAlone folder taken), r.stop = none :=
    List.forall_mem_map.2 fun f hf => (runAlone_spec_of_mem h hf).1
  have hconcat := Run.concat_eq hstop
  rw [List.flatMap_map, List.flatMap_map, ← hrun] at hconcat
  rw [run]
  split
  · rename_i hnil
    have hnil : snapshots files = [] := hnil
    simp [hnil]
  · rename_i hne
    have hne : snapshots files ≠ [] := hne
    rw [if_neg hne]
    exact hconcat

/-- A result holds what the last snapshot of its stem gives. -/
theorem content?_run {f : CaseFile} {path : String} (hp : path ∈ f.resultPaths folder) :
    (run folder (.files files taken)).content? path =
      (lastOfStem files f.stem).bind fun g => (runAlone folder taken g).content? path := by
  rw [run_eq h]
  apply lookup_flatMap_reverse
  intro g hg
  rw [(runAlone_spec_of_mem h hg).2]
  cases g.exports with
  | true => simpa using mem_resultPaths_iff hp
  | false => simp

end

theorem exists_lastOfStem {files : List CaseFile} {f : CaseFile} (hf : f ∈ snapshots files)
    (hx : f.exports) : ∃ g, lastOfStem files f.stem = some g := by
  apply Option.isSome_iff_exists.1
  rw [lastOfStem, List.getLast?_isSome]
  exact List.ne_nil_of_mem (List.mem_filter.2 ⟨hf, by simp [hx]⟩)

/-- **What a run over a folder gives.** Where every result can be written, the run does not stop;
it prints and writes, file by file in the order of names, what each snapshot gives in a folder of
its own, which is one line and no file for a snapshot that does not load. The results of a
snapshot that can be exported hold what the last such snapshot of its stem gives: so it keeps its
results exactly if that one gives the same. -/
theorem run_files {folder : String} {taken : List String} {files : List CaseFile}
    (h : ∀ f ∈ files, f.isSnapshot → f.Writable folder taken) :
    (run folder (.files files taken)).stop = none ∧
      (run folder (.files files taken)).lines =
        (if snapshots files = [] then [s!"No .json snapshots found in {folder}"]
          else (snapshots files).flatMap fun f => (runAlone folder taken f).lines) ∧
      (run folder (.files files taken)).written =
        (snapshots files).flatMap (fun f => (runAlone folder taken f).written) ∧
      (∀ f ∈ snapshots files, ∀ e, Program.load (some f.content) = .error e →
        runAlone folder taken f =
          { lines := [s!"[fail] {f.stem}: {e.message (joinPath folder f.name)}"] }) ∧
      (∀ f ∈ snapshots files, f.exports →
        (runAlone folder taken f).written.map (·.1) = f.resultPaths folder ∧
        ∃ g, lastOfStem files f.stem = some g ∧ ∀ path ∈ f.resultPaths folder,
          (run folder (.files files taken)).content? path =
            (runAlone folder taken g).content? path) := by
  rw [run_eq h]
  refine ⟨rfl, rfl, rfl, ?_, ?_⟩
  · intro f hf e he
    exact runAlone_of_error (mem_snapshots.1 hf).2 he
  · intro f hf hx
    obtain ⟨g, hg⟩ := exists_lastOfStem hf hx
    refine ⟨by rw [(runAlone_spec_of_mem h hf).2, if_pos hx], g, hg, fun path hp => ?_⟩
    rw [← run_eq h, content?_run h hp, hg, Option.bind_some]

/-- A snapshot that another one of its stem follows in the order of names. -/
def upperCase : CaseFile := ⟨"a.JSON", "\x7b\"name\":\"q\",\"pouType\":\"program\"\x7d".toUTF8⟩

def lowerCase : CaseFile := ⟨"a.json", "\x7b\"name\":\"p\",\"pouType\":\"program\"\x7d".toUTF8⟩

theorem writable_cases : ∀ f ∈ [upperCase, lowerCase], f.isSnapshot → f.Writable "cases" [] := by
  intro f hf _ _
  revert f
  decide +kernel

theorem snapshots_cases : snapshots [upperCase, lowerCase] = [upperCase, lowerCase] := by
  rw [snapshots, List.filter_eq_self.2 (by decide +kernel)]
  exact List.mergeSort_of_pairwise (by decide +kernel)

theorem run_cases :
    (∀ f ∈ [upperCase, lowerCase], f.isSnapshot → f.Writable "cases" []) ∧
      (run "cases" (.files [upperCase, lowerCase] [])).stop = none ∧
      (run "cases" (.files [upperCase, lowerCase] [])).written =
        (runAlone "cases" [] upperCase).written ++ (runAlone "cases" [] lowerCase).written := by
  obtain ⟨hstop, -, hwritten, -⟩ := run_files writable_cases
  rw [snapshots_cases] at hwritten
  exact ⟨writable_cases, hstop, by simpa using hwritten⟩

/-- Where two snapshots have the same stem, the results of the first are lost. -/
theorem upperCase_overwritten :
    upperCase ∈ snapshots [upperCase, lowerCase] ∧ upperCase.exports ∧
      "cases/exported/a_openplc.xml" ∈ upperCase.resultPaths "cases" ∧
      (run "cases" (.files [upperCase, lowerCase] [])).stop = none ∧
      (run "cases" (.files [upperCase, lowerCase] [])).content? "cases/exported/a_openplc.xml" ≠
        (runAlone "cases" [] upperCase).content? "cases/exported/a_openplc.xml" := by
  have hx : upperCase.exports := by decide +kernel
  have hp : "cases/exported/a_openplc.xml" ∈ upperCase.resultPaths "cases" := by decide +kernel
  have hlast : lastOfStem [upperCase, lowerCase] upperCase.stem = some lowerCase := by
    rw [lastOfStem, snapshots_cases, List.filter_eq_self.2 (by decide +kernel)]
    rfl
  refine ⟨by simp [snapshots_cases], hx, hp, by rw [run_eq writable_cases], ?_⟩
  rw [content?_run writable_cases hp, hlast, Option.bind_some, runAlone_eq (by decide +kernel),
    runAlone_eq (by decide +kernel)]
  decide +kernel

end LadderDiagram.Batch
