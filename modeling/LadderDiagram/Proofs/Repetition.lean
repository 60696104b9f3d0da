import LadderDiagram.Export.Basic
import LadderDiagram.Proofs.Account

/-!
# Repeated local ids

Local ids are checked rung by rung, node by node, with the ids that came before. An id is told of
at its second occurrence (`Rung.SecondAt`): so each id that several nodes share is told of once,
however many they are, and ids in the order in which they begin to repeat
(`repetitions_told_first`).
-/

namespace LadderDiagram

/-! ### Occurrences -/

/-- Where an element occurs often enough, one of its occurrences is the one after `n` others. -/
theorem exists_count_take_iff {α : Type} [DecidableEq α] {l : List α} {x : α} {n : Nat} :
    (∃ k, l[k]? = some x ∧ (l.take k).count x = n) ↔ n < l.count x := by
  induction l generalizing n with
  | nil => simp
  | cons a l ih =>
    by_cases ha : a = x
    · subst ha
      cases n with
      | zero => exact iff_of_true ⟨0, rfl, rfl⟩ (by simp)
      | succ n =>
        rw [List.count_cons_self, Nat.add_lt_add_iff_right, ← ih]
        constructor
        · rintro ⟨k | k, hk, hn⟩
          · simp at hn
          · exact ⟨k, hk, by simpa using hn⟩
        · rintro ⟨k, hk, hn⟩
          exact ⟨k + 1, hk, by simpa using hn⟩
    · rw [List.count_cons_of_ne ha, ← ih]
      constructor
      · rintro ⟨k | k, hk, hn⟩
        · exact (ha (by simpa using hk)).elim
        · exact ⟨k, hk, by simpa [List.count_cons_of_ne ha] using hn⟩
      · rintro ⟨k, hk, hn⟩
        exact ⟨k + 1, hk, by simpa [List.count_cons_of_ne ha] using hn⟩

/-- The sets hold the ids of a prefix, and those that stand in it more than once. -/
structure Tracks (before : List UInt64) (seen told : Std.TreeSet UInt64) : Prop where
  seen (id : UInt64) : id ∈ seen ↔ 1 ≤ before.count id
  told (id : UInt64) : id ∈ told ↔ 2 ≤ before.count id

namespace Tracks

variable {before : List UInt64} {seen told : Std.TreeSet UInt64} {id : UInt64}

theorem nil : Tracks [] ∅ ∅ := ⟨by simp, by simp⟩

theorem insert_seen (h : Tracks before seen told) (hid : id ∉ seen) :
    Tracks (before ++ [id]) (seen.insert id) told := by
  have hcount : before.count id = 0 := by
    rw [h.seen] at hid
    omega
  constructor <;> intro id' <;> by_cases he : id = id'
  · subst he
    simp
  · simp [Std.TreeSet.mem_insert, he, h.seen]
  · subst he
    simp [h.told, hcount]
  · simp [he, h.told]

theorem insert_told (h : Tracks before seen told) (hid : id ∈ seen) :
    Tracks (before ++ [id]) (seen.insert id) (told.insert id) := by
  have hcount := (h.seen id).1 hid
  constructor <;> intro id' <;> by_cases he : id = id'
  · subst he
    simp
  · simp [Std.TreeSet.mem_insert, he, h.seen]
  · subst he
    simpa using hcount
  · simp [Std.TreeSet.mem_insert, he, h.told]

end Tracks

theorem repeatedAfter_cons (seen told : Std.TreeSet UInt64) (id : UInt64) (rest : List UInt64) :
    repeatedAfter seen told (id :: rest) =
      if id ∈ seen then
        if id ∈ told then repeatedAfter (seen.insert id) (told.insert id) rest
        else id :: repeatedAfter (seen.insert id) (told.insert id) rest
      else repeatedAfter (seen.insert id) told rest := by
  simp only [repeatedAfter, Std.TreeSet.containsThenInsert_fst, Std.TreeSet.containsThenInsert_snd,
    Std.TreeSet.mem_iff_contains]

/-- The loop keeps the ids at the positions before which they stand once. -/
theorem repeatedAfter_eq {before : List UInt64} {seen told : Std.TreeSet UInt64}
    (h : Tracks before seen told) (ids : List UInt64) :
    repeatedAfter seen told ids = ((ids.zipIdx before.length).filter fun p =>
      ((before ++ ids).take p.2).count p.1 = 1).map (·.1) := by
  induction ids generalizing before seen told with
  | nil => rfl
  | cons id rest ih =>
    have hbefore : ((before ++ id :: rest).take before.length).count id = before.count id := by
      rw [List.take_left]
    have hnext {seen' told' : Std.TreeSet UInt64} (h' : Tracks (before ++ [id]) seen' told') :
        repeatedAfter seen' told' rest = ((rest.zipIdx (before.length + 1)).filter fun p =>
          ((before ++ id :: rest).take p.2).count p.1 = 1).map (·.1) := by
      simpa using ih h'
    rw [repeatedAfter_cons, List.zipIdx_cons, List.filter_cons]
    simp only [hbefore, decide_eq_true_eq]
    by_cases hseen : id ∈ seen
    · rw [if_pos hseen, hnext (h.insert_told hseen)]
      have hone := (h.seen id).1 hseen
      have htwo := h.told id
      by_cases htold : id ∈ told
      · rw [if_pos htold, if_neg (by rw [htwo] at htold; omega)]
      · rw [if_neg htold, if_pos (by rw [htwo] at htold; omega), List.map_cons]
    · rw [if_neg hseen, hnext (h.insert_seen hseen), if_neg (by rw [h.seen] at hseen; omega)]

namespace Rung

def numericIds (r : Rung) : List UInt64 := r.nodes.map (·.numericId)

/-- The node at position `k` is the second one with the local id. -/
def SecondAt (r : Rung) (id : UInt64) (k : Nat) : Prop :=
  r.numericIds[k]? = some id ∧ (r.numericIds.take k).count id = 1

theorem SecondAt.unique {r : Rung} {id : UInt64} {k k' : Nat} (h : r.SecondAt id k)
    (h' : r.SecondAt id k') : k = k' := by
  have hle {k k' : Nat} (h : r.SecondAt id k) (h' : r.SecondAt id k') : k' ≤ k := by
    by_contra hlt
    have hcount : (r.numericIds.take (k + 1)).count id = 2 := by
      rw [List.take_add_one, h.1, List.count_append, h.2]
      simp
    have hsub := (List.take_sublist_take_left (l := r.numericIds)
      (Nat.lt_of_not_le hlt)).count_le id
    rw [hcount, h'.2] at hsub
    omega
  exact Nat.le_antisymm (hle h' h) (hle h h')

theorem exists_secondAt_iff {r : Rung} {id : UInt64} :
    (∃ k, r.SecondAt id k) ↔ 2 ≤ r.numericIds.count id := exists_count_take_iff

theorem repeatedIds_eq (r : Rung) :
    r.repeatedIds = (r.numericIds.zipIdx.filter fun p =>
      (r.numericIds.take p.2).count p.1 = 1).map (·.1) := repeatedAfter_eq .nil r.numericIds

theorem mem_repeatedIds {r : Rung} {id : UInt64} :
    id ∈ r.repeatedIds ↔ ∃ k, r.SecondAt id k := by
  rw [repeatedIds_eq]
  simp [SecondAt, List.mem_zipIdx_iff_getElem?]

theorem pairwise_repeatedIds (r : Rung) :
    r.repeatedIds.Pairwise fun id id' =>
      ∃ k k', r.SecondAt id k ∧ r.SecondAt id' k' ∧ k < k' := by
  rw [repeatedIds_eq, List.pairwise_map, List.pairwise_filter]
  refine (pairwise_zipIdx_snd r.numericIds 0).imp_of_mem fun {a b} ha hb hlt hka hkb => ?_
  simp only [decide_eq_true_eq] at hka hkb
  exact ⟨a.2, b.2, ⟨List.mem_zipIdx_iff_getElem?.1 ha, hka⟩,
    ⟨List.mem_zipIdx_iff_getElem?.1 hb, hkb⟩, hlt⟩

end Rung

namespace Program

variable {p : Program}

theorem exportAs_eq_ok {codec : Codec} {e : Export} (h : p.exportAs codec = .ok e) :
    e.pou.body = (lower codec.config p.rungs).body ∧
      e.warnings = p.duplicateWarnings ++ (lower codec.config p.rungs).warnings ∧
      e.failures = (lower codec.config p.rungs).failures := by
  unfold exportAs at h
  split at h
  · cases h
  · cases h
    exact ⟨rfl, rfl, rfl⟩

theorem exists_exportAs (h : Text.isBlank p.name = false) (codec : Codec) :
    ∃ e, p.exportAs codec = .ok e := by
  rw [exportAs, h]
  exact ⟨_, rfl⟩

/-- Several nodes of the rung at the given position share the local id. -/
def Shares (p : Program) (index : Nat) (id : UInt64) : Prop :=
  ∃ r, p.rungs[index]? = some r ∧ 2 ≤ r.numericIds.count id

/-- The first id repeats before the other does: in a rung above, or in the same rung with its second
occurrence before that of the other. -/
def RepeatsBefore (p : Program) (a b : Nat × UInt64) : Prop :=
  a.1 < b.1 ∨ a.1 = b.1 ∧ ∃ r k k', p.rungs[a.1]? = some r ∧ r.SecondAt a.2 k ∧
    r.SecondAt b.2 k' ∧ k < k'

theorem not_repeatsBefore_self (a : Nat × UInt64) : ¬ p.RepeatsBefore a a := by
  rintro (hlt | ⟨-, r, k, k', -, hk, hk', hlt⟩)
  · exact Nat.lt_irrefl _ hlt
  · exact Nat.ne_of_lt hlt (hk.unique hk')

def repetitions (p : Program) : List (Nat × UInt64) :=
  (p.rungs.mapIdx fun index r => r.repeatedIds.map fun id => (index, id)).flatten

theorem duplicateWarnings_eq (p : Program) :
    p.duplicateWarnings = p.repetitions.map fun a => .duplicateLocalId a.1 a.2 := by
  rw [duplicateWarnings, repetitions, List.map_flatten]
  congr 1
  apply List.ext_getElem
  · simp
  · intro i hi hi'
    simp only [List.getElem_mapIdx, List.getElem_map, List.map_map, Function.comp_def]

theorem mem_repetitions {a : Nat × UInt64} : a ∈ p.repetitions ↔ p.Shares a.1 a.2 := by
  obtain ⟨index, id⟩ := a
  simp only [repetitions, List.mem_flatten, List.mem_mapIdx, Shares, ← Rung.exists_secondAt_iff,
    ← Rung.mem_repeatedIds]
  constructor
  · rintro ⟨_, ⟨i, hi, rfl⟩, hmem⟩
    obtain ⟨id', hid, he⟩ := List.mem_map.1 hmem
    cases he
    exact ⟨_, List.getElem?_eq_getElem hi, hid⟩
  · rintro ⟨r, hr, hid⟩
    obtain ⟨hi, rfl⟩ := List.getElem?_eq_some_iff.1 hr
    exact ⟨_, ⟨index, hi, rfl⟩, List.mem_map_of_mem hid⟩

theorem pairwise_repetitions (p : Program) : p.repetitions.Pairwise p.RepeatsBefore := by
  rw [repetitions, List.pairwise_flatten]
  constructor
  · intro l hl
    obtain ⟨i, hi, rfl⟩ := List.mem_mapIdx.1 hl
    refine List.pairwise_map.2 ((Rung.pairwise_repeatedIds _).imp ?_)
    rintro id id' ⟨k, k', hk, hk', hlt⟩
    exact .inr ⟨rfl, _, k, k', List.getElem?_eq_getElem hi, hk, hk', hlt⟩
  · rw [List.pairwise_iff_getElem]
    intro i j hi hj hlt a ha b hb
    rw [List.getElem_mapIdx] at ha hb
    obtain ⟨id, -, rfl⟩ := List.mem_map.1 ha
    obtain ⟨id', -, rfl⟩ := List.mem_map.1 hb
    exact .inl hlt

theorem nodup_repetitions (p : Program) : p.repetitions.Nodup := by
  refine p.pairwise_repetitions.imp ?_
  rintro a _ h rfl
  exact not_repeatsBefore_self a h

end Program

theorem duplicateLocalId_not_mem_lower (config : Config) (rungs : List Rung) (index : Nat)
    (id : UInt64) : .duplicateLocalId index id ∉ (lower config rungs).warnings := by
  rw [warnings_lower]
  intro h
  obtain ⟨a, -, h⟩ := List.mem_flatMap.1 h
  rcases List.mem_append.1 h with h | h
  · obtain ⟨e, -, he⟩ := List.mem_map.1 h
    cases he
  · obtain ⟨n, -, h⟩ := List.mem_flatMap.1 h
    unfold Rung.noticesAt at h
    split at h
    · simp at h
    · obtain ⟨pin, -, he⟩ := List.mem_map.1 h
      cases he
    · split at h <;> simp at h
    · cases h

/-- **Repeated local ids are told of exactly, and first.** The warnings of an export begin with one
for each local id that several nodes of a rung share, whatever the nodes are and whether the rung is
exported or not: rung by rung, and in a rung in the order in which the ids begin to repeat. No other
warning is of this kind, and those of the rungs follow as they are. -/
theorem repetitions_told_first {p : Program} (h : Text.isBlank p.name = false) (codec : Codec) :
    ∃ (e : Export) (told : List (Nat × UInt64)), p.exportAs codec = .ok e ∧
      e.warnings = told.map (fun a => .duplicateLocalId a.1 a.2) ++
        (lower codec.config p.rungs).warnings ∧
      told.Nodup ∧ (∀ index id, (index, id) ∈ told ↔ p.Shares index id) ∧
      told.Pairwise p.RepeatsBefore ∧
      ∀ index id, .duplicateLocalId index id ∉ (lower codec.config p.rungs).warnings := by
  obtain ⟨e, he⟩ := p.exists_exportAs h codec
  obtain ⟨-, hwarn, -⟩ := Program.exportAs_eq_ok he
  rw [Program.duplicateWarnings_eq] at hwarn
  exact ⟨e, p.repetitions, he, hwarn, p.nodup_repetitions, fun _ _ => Program.mem_repetitions,
    p.pairwise_repetitions, duplicateLocalId_not_mem_lower codec.config p.rungs⟩

/-- In the first rung, which fails, `7` stands three times and `3` twice, around markers and a node
of unknown kind; in the second, `3` stands twice. -/
def threeRepetitions : Program where
  name := "p"
  rungs := [
    { nodes := [
        { id := "rail", numericId := 3, kind := .leftRail },
        { id := "open", numericId := 7, kind := .parallelOpen { id := "down" } },
        { id := "note", numericId := 7, kind := .unknown },
        { id := "blank", numericId := 3, kind := .variableIn {} },
        { id := "close", numericId := 7, kind := .parallelClose { id := "up" } }] },
    { nodes := [
        { id := "left", numericId := 3, kind := .leftRail },
        { id := "right", numericId := 3, kind := .rightRail }] }]

theorem threeRepetitions_told_first :
    Text.isBlank threeRepetitions.name = false ∧
      ∃ (e : Export) (told : List (Nat × UInt64)), threeRepetitions.exportAs .json = .ok e ∧
        e.warnings = told.map (fun a => .duplicateLocalId a.1 a.2) ++
          (lower Codec.json.config threeRepetitions.rungs).warnings ∧
        told = [(0, 7), (0, 3), (1, 3)] ∧
        (∀ index id, (index, id) ∈ told ↔ threeRepetitions.Shares index id) ∧
        (lower Codec.json.config threeRepetitions.rungs).failures.map (·.rung) = [0] := by
  have hname : Text.isBlank threeRepetitions.name = false := by decide +kernel
  obtain ⟨e, told, he, hwarn, -, hmem, -⟩ := repetitions_told_first hname .json
  have htold : told.map (fun a : Nat × UInt64 => Warning.duplicateLocalId a.1 a.2) =
      [.duplicateLocalId 0 7, .duplicateLocalId 0 3, .duplicateLocalId 1 3] := by
    have hdup : threeRepetitions.duplicateWarnings =
        [.duplicateLocalId 0 7, .duplicateLocalId 0 3, .duplicateLocalId 1 3] := by decide +kernel
    rw [← hdup]
    exact List.append_cancel_right (hwarn.symm.trans (Program.exportAs_eq_ok he).2.1)
  refine ⟨hname, e, told, he, hwarn, ?_, hmem, by decide +kernel⟩
  exact List.map_injective_iff.2 (fun a b hab => Prod.ext (Warning.duplicateLocalId.inj hab).1
    (Warning.duplicateLocalId.inj hab).2) htold

end LadderDiagram
