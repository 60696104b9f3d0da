import Mathlib
import LadderDiagram.Markup.Basic

/-!
# Reading markup

A plain reader of documents. It cuts a document at its tags, resolves the five escapes, keeps the
text of an `expression` and of a `variable` without attributes, and takes any other text for
indentation. A tag opens an element, closes the last one that is open, or is one by itself.
`read_document` says that the reader finds the element that was written.
-/

namespace LadderDiagram.Markup

def cutAt (stop : Char) : List Char → Option (List Char × List Char)
  | [] => none
  | c :: cs => if c = stop then some ([], cs) else (cutAt stop cs).map fun s => (c :: s.1, s.2)

theorem length_of_cutAt {stop : Char} {cs before after : List Char}
    (h : cutAt stop cs = some (before, after)) : after.length < cs.length := by
  induction cs generalizing before with
  | nil => cases h
  | cons c cs ih =>
    rw [cutAt] at h
    split at h
    · cases h
      exact Nat.lt_succ_self _
    · obtain ⟨⟨a, b⟩, hcut, heq⟩ := Option.map_eq_some_iff.1 h
      cases heq
      exact Nat.lt_succ_of_lt (ih hcut)

/-- Resolves the five escapes. There is no other. -/
def unescape : List Char → Option (List Char)
  | [] => some []
  | '&' :: 'l' :: 't' :: ';' :: cs => (unescape cs).map ('<' :: ·)
  | '&' :: 'g' :: 't' :: ';' :: cs => (unescape cs).map ('>' :: ·)
  | '&' :: 'a' :: 'm' :: 'p' :: ';' :: cs => (unescape cs).map ('&' :: ·)
  | '&' :: 'a' :: 'p' :: 'o' :: 's' :: ';' :: cs => (unescape cs).map ('\'' :: ·)
  | '&' :: 'q' :: 'u' :: 'o' :: 't' :: ';' :: cs => (unescape cs).map ('"' :: ·)
  | '&' :: _ => none
  | c :: cs => (unescape cs).map (c :: ·)

/-- Names are made of letters. -/
def isName (cs : List Char) : Bool := !cs.isEmpty && cs.all Char.isAlpha

def isIndentation (cs : List Char) : Bool := cs.all fun c => c = ' ' || c = '\n'

/-- The attributes at the start, each after a blank, and what stands after them. -/
def readAttributes (cs : List Char) : Option (Attributes × List Char) :=
  match cs with
  | ' ' :: cs =>
    match _hname : cutAt '=' cs with
    | some (name, '"' :: quoted) =>
      match _hvalue : cutAt '"' quoted with
      | some (value, rest) => do
        guard (isName name)
        let value ← unescape value
        let (attributes, rest) ← readAttributes rest
        return ((String.ofList name, String.ofList value) :: attributes, rest)
      | none => none
    | _ => none
  | cs => some ([], cs)
termination_by cs.length
decreasing_by
  have hn := length_of_cutAt _hname
  have hv := length_of_cutAt _hvalue
  simp only [List.length_cons] at hn ⊢
  omega

inductive Tag where
  | opening (name : String) (attributes : Attributes)
  | closing (name : String)
  | single (name : String) (attributes : Attributes)

/-- The tag with the given text between its brackets. -/
def Tag.read : List Char → Option Tag
  | '/' :: name => do
    guard (isName name)
    return .closing (String.ofList name)
  | cs => do
    let name := cs.takeWhile Char.isAlpha
    guard (isName name)
    let (attributes, rest) ← readAttributes (cs.dropWhile Char.isAlpha)
    match rest with
    | [] => return .opening (String.ofList name) attributes
    | ['/'] => return .single (String.ofList name) attributes
    | _ => none

structure Frame where
  name : String
  attributes : Attributes
  children : List Markup

/-- The element keeps the text between its tags. -/
def holdsText (name : String) (attributes : Attributes) : Bool :=
  name = "expression" || name = "variable" && attributes.isEmpty

namespace Frame

def add (f : Frame) (m : Markup) : Frame := { f with children := f.children ++ [m] }

/-- The element, closed after the given text. -/
def close (f : Frame) (content : List Char) : Option Markup :=
  if holdsText f.name f.attributes then do
    guard f.children.isEmpty
    let content ← unescape content
    return text f.name f.attributes (String.ofList content)
  else do
    guard (isIndentation content)
    return node f.name f.attributes f.children

end Frame

/-- The elements that are open, the last one first. -/
structure Reading where
  frame : Frame
  outer : List Frame

/-- Goes on after a text and a tag. -/
def Reading.step (r : Reading) (content : List Char) : Tag → Option Reading
  | .opening name attributes => do
    guard (isIndentation content)
    return ⟨⟨name, attributes, []⟩, r.frame :: r.outer⟩
  | .single name attributes => do
    guard (isIndentation content)
    return { r with frame := r.frame.add (empty name attributes) }
  | .closing name =>
    match r.outer with
    | [] => none
    | parent :: outer => do
      guard (name = r.frame.name)
      let m ← r.frame.close content
      return ⟨parent.add m, outer⟩

/-- Reads tag after tag, and gives back the text after the last one. -/
def Reading.run (r : Reading) (cs : List Char) : Option (Reading × List Char) :=
  match _hopen : cutAt '<' cs with
  | none => some (r, cs)
  | some (content, cs) =>
    match _hclose : cutAt '>' cs with
    | none => none
    | some (tag, cs) => do
      let tag ← Tag.read tag
      let r ← r.step content tag
      r.run cs
termination_by cs.length
decreasing_by exact Nat.lt_trans (length_of_cutAt _hclose) (length_of_cutAt _hopen)

/-- The element that a document holds after its declaration, if it holds one and nothing more. -/
def read (document : String) : Option Markup := do
  let cs ← declaration.toList.isPrefixOf? document.toList
  let (r, rest) ← Reading.run ⟨⟨"", [], []⟩, []⟩ cs
  guard (isIndentation rest)
  match r.outer, r.frame.children with
  | [], [root] => return root
  | _, _ => none

theorem cutAt_append {stop : Char} {before : List Char} (h : stop ∉ before) (after : List Char) :
    cutAt stop (before ++ stop :: after) = some (before, after) := by
  induction before with
  | nil => simp [cutAt]
  | cons c cs ih =>
    rw [List.mem_cons, not_or] at h
    rw [List.cons_append, cutAt, if_neg (Ne.symm h.1), ih h.2]
    rfl

theorem unescape_escapeChar (c : Char) (cs : List Char) :
    unescape (escapeChar c ++ cs) = (unescape cs).map (c :: ·) := by
  unfold escapeChar
  split
  case h_6 hamp _ _ =>
    rw [List.singleton_append, unescape] <;> intros <;> exact absurd ‹c = '&'› hamp
  all_goals rfl

theorem toList_escape (s : String) : (escape s).toList = s.toList.flatMap escapeChar := by
  rw [escape, String.toList_ofList]

/-- Every text is read as it was before it was escaped. -/
theorem unescape_escape (s : String) : unescape (escape s).toList = some s.toList := by
  rw [toList_escape]
  induction s.toList with
  | nil => rfl
  | cons c cs ih => rw [List.flatMap_cons, unescape_escapeChar, ih]; rfl

/-- No text that is escaped opens or closes a tag or a value. -/
theorem not_mem_escape {c : Char} (hc : c ∈ ['<', '>', '"', '\'']) (s : String) :
    c ∉ (escape s).toList := by
  rw [toList_escape, List.mem_flatMap]
  rintro ⟨d, -, hd⟩
  simp only [List.mem_cons, List.not_mem_nil, or_false] at hc
  unfold escapeChar at hd
  split at hd
  case h_6 hlt hgt _ hapos hquot =>
    rw [List.mem_singleton.1 hd] at hc
    rcases hc with h | h | h | h
    exacts [hlt h, hgt h, hquot h, hapos h]
  all_goals
    rcases hc with rfl | rfl | rfl | rfl <;> revert hd <;> decide

/-- Every attribute has a name made of letters. -/
def Attributes.proper (attributes : Attributes) : Bool :=
  attributes.all fun a => isName a.1.toList

@[simp] theorem Attributes.proper_nil : Attributes.proper [] = true := rfl

@[simp] theorem Attributes.proper_cons (name value : String) (attributes : Attributes) :
    Attributes.proper ((name, value) :: attributes) =
      (isName name.toList && attributes.proper) := rfl

@[simp] theorem Attributes.proper_append (as bs : Attributes) :
    Attributes.proper (as ++ bs) = (as.proper && bs.proper) :=
  List.all_append

theorem isAlpha_of_isName {cs : List Char} (h : isName cs = true) : ∀ c ∈ cs, c.isAlpha = true :=
  List.all_eq_true.1 (Bool.and_eq_true_iff.1 h).2

theorem not_mem_of_isName {cs : List Char} (h : isName cs = true) {c : Char}
    (hc : c.isAlpha = false) : c ∉ cs := by
  intro hm
  rw [isAlpha_of_isName h c hm] at hc
  cases hc

theorem Attributes.toList_render (attributes : Attributes) :
    attributes.render.toList = attributes.flatMap fun a =>
      ' ' :: (a.1.toList ++ '=' :: '"' :: ((escape a.2).toList ++ ['"'])) := by
  rw [render, String.toList_join, List.flatMap_map]
  simp

theorem readAttributes_blank {cs name quoted value rest content : List Char}
    (hname : cutAt '=' cs = some (name, '"' :: quoted))
    (hvalue : cutAt '"' quoted = some (value, rest)) (hletters : isName name = true)
    (hcontent : unescape value = some content) :
    readAttributes (' ' :: cs) = (readAttributes rest).map fun read =>
      ((String.ofList name, String.ofList content) :: read.1, read.2) := by
  rw [readAttributes]
  split
  · rename_i heq
    rw [hname] at heq
    cases heq
    split
    · rename_i heq
      rw [hvalue] at heq
      cases heq
      simp only [hletters, hcontent, guard_true, Option.map_eq_bind, Option.bind_eq_bind,
        Option.bind_some, Option.pure_def]
      rfl
    · rename_i heq
      rw [hvalue] at heq
      cases heq
  · rename_i hnone
    exact absurd hname (hnone _ _)

theorem readAttributes_render {attributes : Attributes} (h : attributes.proper = true)
    {rest : List Char} (hr : rest.head? ≠ some ' ') :
    readAttributes (attributes.render.toList ++ rest) = some (attributes, rest) := by
  rw [Attributes.toList_render]
  induction attributes with
  | nil =>
    rw [List.flatMap_nil, List.nil_append, readAttributes]
    rintro cs rfl
    exact hr rfl
  | cons a attributes ih =>
    obtain ⟨name, value⟩ := a
    obtain ⟨hname, hmore⟩ := Bool.and_eq_true_iff.1 h
    simp only [List.flatMap_cons, List.cons_append, List.append_assoc, List.nil_append]
    rw [readAttributes_blank (cutAt_append (not_mem_of_isName hname rfl) _)
        (cutAt_append (not_mem_escape (by decide) value) _) hname (unescape_escape value),
      ih hmore]
    simp

def tagText (name : String) (attributes : Attributes) : List Char :=
  name.toList ++ attributes.render.toList

theorem not_mem_tagText {name : String} {attributes : Attributes}
    (hname : isName name.toList = true) (h : attributes.proper = true) :
    '>' ∉ tagText name attributes := by
  rw [tagText, Attributes.toList_render, List.mem_append, List.mem_flatMap, not_or]
  refine ⟨not_mem_of_isName hname rfl, ?_⟩
  rintro ⟨a, ha, hm⟩
  have hletters : '>' ∉ a.1.toList := not_mem_of_isName (List.all_eq_true.1 h a ha) rfl
  have hvalue : '>' ∉ (escape a.2).toList := not_mem_escape (by decide) a.2
  simp [hletters, hvalue] at hm

/-- Where a name ends, the attributes begin. -/
theorem span_tagText {name : String} (hname : isName name.toList = true) (attributes : Attributes)
    {rest : List Char} (hr : rest.head?.all (!·.isAlpha) = true) :
    (tagText name attributes ++ rest).takeWhile Char.isAlpha = name.toList ∧
      (tagText name attributes ++ rest).dropWhile Char.isAlpha =
        attributes.render.toList ++ rest := by
  have hstop : ((attributes.render.toList ++ rest).head?.all (!·.isAlpha)) = true := by
    rw [Attributes.toList_render]
    cases attributes with
    | nil => exact hr
    | cons a attributes => rfl
  rw [tagText, List.append_assoc, List.takeWhile_append_of_pos (isAlpha_of_isName hname),
    List.dropWhile_append_of_pos (isAlpha_of_isName hname)]
  cases hcs : attributes.render.toList ++ rest with
  | nil => simp
  | cons c cs =>
    rw [hcs] at hstop
    have hc : c.isAlpha = false := by simpa using hstop
    simp [hc]

/-- What stands after the attributes tells the kind of a tag. -/
theorem Tag.read_tagText {name : String} {attributes : Attributes}
    (hname : isName name.toList = true) (h : attributes.proper = true) {rest : List Char}
    (hr : rest = [] ∨ rest = ['/']) :
    Tag.read (tagText name attributes ++ rest) =
      some (if rest = [] then .opening name attributes else .single name attributes) := by
  have hstop : rest.head?.all (!·.isAlpha) = true := by rcases hr with rfl | rfl <;> rfl
  have hblank : rest.head? ≠ some ' ' := by rcases hr with rfl | rfl <;> decide
  obtain ⟨htake, hdrop⟩ := span_tagText hname attributes hstop
  rw [Tag.read]
  · simp only [htake, hname, hdrop, readAttributes_render h hblank, String.ofList_toList]
    rcases hr with rfl | rfl <;> rfl
  · intro cs hcs
    rw [hcs] at htake
    rw [← htake] at hname
    cases hname

theorem Tag.read_closing {name : String} (hname : isName name.toList = true) :
    Tag.read ('/' :: name.toList) = some (.closing name) := by
  simp [Tag.read, hname]

theorem isIndentation_newLine (level : Nat) : isIndentation (newLine level).toList = true := by
  simp [isIndentation, newLine]

theorem not_mem_newLine (level : Nat) : '<' ∉ (newLine level).toList := by
  simp [newLine]

mutual

/-- Names are made of letters, and text stands where a reader keeps it. -/
def readable : Markup → Bool
  | empty name attributes => isName name.toList && attributes.proper
  | text name attributes _ => isName name.toList && attributes.proper && holdsText name attributes
  | node name attributes children =>
    isName name.toList && attributes.proper && !holdsText name attributes && readableAll children

def readableAll : List Markup → Bool
  | [] => true
  | m :: ms => readable m && readableAll ms

end

namespace Reading

variable {r : Reading} {content : List Char} (hc : '<' ∉ content) {rest : List Char}
include hc

theorem run_append {tag : List Char} (htag : '>' ∉ tag) {t : Tag} (ht : Tag.read tag = some t) :
    r.run (content ++ '<' :: (tag ++ '>' :: rest)) =
      (r.step content t).bind fun r => r.run rest := by
  rw [run]
  split
  · rename_i heq
    rw [cutAt_append hc] at heq
    cases heq
  · rename_i heq
    rw [cutAt_append hc] at heq
    cases heq
    split
    · rename_i heq
      rw [cutAt_append htag] at heq
      cases heq
    · rename_i heq
      rw [cutAt_append htag] at heq
      cases heq
      rw [ht]
      rfl

theorem run_openTag {name : String} {attributes : Attributes} (hname : isName name.toList = true)
    (h : attributes.proper = true) :
    r.run (content ++ ((openTag name attributes).toList ++ rest)) =
      (r.step content (.opening name attributes)).bind fun r => r.run rest := by
  have ht : Tag.read (tagText name attributes) = some (.opening name attributes) := by
    simpa using Tag.read_tagText hname h (.inl rfl)
  rw [← run_append hc (not_mem_tagText hname h) ht]
  simp [openTag, tagText]

theorem run_emptyTag {name : String} {attributes : Attributes} (hname : isName name.toList = true)
    (h : attributes.proper = true) :
    r.run (content ++ ((emptyTag name attributes).toList ++ rest)) =
      (r.step content (.single name attributes)).bind fun r => r.run rest := by
  have ht : Tag.read (tagText name attributes ++ ['/']) = some (.single name attributes) :=
    Tag.read_tagText hname h (.inr rfl)
  rw [← run_append hc (by simp [not_mem_tagText hname h]) ht]
  simp [emptyTag, tagText]

theorem run_closeTag {name : String} (hname : isName name.toList = true) :
    r.run (content ++ ((closeTag name).toList ++ rest)) =
      (r.step content (.closing name)).bind fun r => r.run rest := by
  rw [← run_append hc (by simp [not_mem_of_isName hname]) (Tag.read_closing hname)]
  simp [closeTag]

end Reading

mutual

/-- An element that was written is read and added to what is open. -/
theorem run_indented : ∀ (m : Markup) (level : Nat), m.readable = true →
    ∀ (r : Reading) (rest : List Char), r.run ((m.indented level).toList ++ rest) =
      Reading.run { r with frame := r.frame.add m } rest
  | empty name attributes, level, h, r, rest => by
    obtain ⟨hname, hattr⟩ := Bool.and_eq_true_iff.1 h
    rw [indented, String.toList_append, List.append_assoc,
      Reading.run_emptyTag (not_mem_newLine level) hname hattr]
    simp [Reading.step, isIndentation_newLine]
  | text name attributes content, level, h, r, rest => by
    obtain ⟨h, hholds⟩ := Bool.and_eq_true_iff.1 h
    obtain ⟨hname, hattr⟩ := Bool.and_eq_true_iff.1 h
    simp only [indented, String.toList_append, List.append_assoc]
    rw [Reading.run_openTag (not_mem_newLine level) hname hattr]
    simp only [Reading.step, isIndentation_newLine, guard_true, Option.pure_def,
      Option.bind_eq_bind, Option.bind_some]
    rw [Reading.run_closeTag (not_mem_escape (by decide) content) hname]
    simp [Reading.step, Frame.close, hholds, unescape_escape]
  | node name attributes children, level, h, r, rest => by
    obtain ⟨h, hchildren⟩ := Bool.and_eq_true_iff.1 h
    obtain ⟨h, hholds⟩ := Bool.and_eq_true_iff.1 h
    obtain ⟨hname, hattr⟩ := Bool.and_eq_true_iff.1 h
    rw [Bool.not_eq_true'] at hholds
    simp only [indented, String.toList_append, List.append_assoc]
    rw [Reading.run_openTag (not_mem_newLine level) hname hattr]
    simp only [Reading.step, isIndentation_newLine, guard_true, Option.pure_def,
      Option.bind_eq_bind, Option.bind_some]
    rw [run_indentedAll children (level + 1) hchildren,
      Reading.run_closeTag (not_mem_newLine level) hname]
    simp [Reading.step, Frame.close, hholds, isIndentation_newLine]

theorem run_indentedAll : ∀ (ms : List Markup) (level : Nat), readableAll ms = true →
    ∀ (r : Reading) (rest : List Char), r.run ((indentedAll level ms).toList ++ rest) =
      Reading.run { r with frame := { r.frame with children := r.frame.children ++ ms } } rest
  | [], level, h, r, rest => by
    simp [indentedAll]
  | m :: ms, level, h, r, rest => by
    obtain ⟨hm, hms⟩ := Bool.and_eq_true_iff.1 h
    rw [indentedAll, String.toList_append, List.append_assoc, run_indented m level hm,
      run_indentedAll ms level hms]
    simp [Frame.add]

end

/-- A document is read as the element that it was written from. -/
theorem read_document {root : Markup} (h : root.readable = true) :
    read (document root) = some root := by
  have hcs : declaration.toList.isPrefixOf? (document root).toList =
      some ((root.indented 0).toList ++ []) :=
    List.isPrefixOf?_eq_some_iff_append_eq.2
      (by rw [List.append_nil, document, String.toList_append])
  have hrun : Reading.run ⟨Frame.add ⟨"", [], []⟩ root, []⟩ [] =
      some (⟨⟨"", [], [root]⟩, []⟩, []) := by
    rw [Reading.run]
    rfl
  rw [read, hcs, Option.bind_eq_bind, Option.bind_some, run_indented root 0 h, hrun]
  rfl

end LadderDiagram.Markup
