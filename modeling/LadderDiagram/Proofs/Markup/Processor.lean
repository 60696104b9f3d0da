import LadderDiagram.Proofs.Markup.Reader

/-!
# What a processor passes on

A processor that conforms to XML 1.0 refuses a document with a character that is not allowed. It
reads every line end as a line feed, and then white space in the value of an attribute as a blank.
Only then are references resolved, so a character that stands as a reference keeps what it is.
`process` does this to a document, and `consume` reads what is left.

Writers escape five characters and no others. So a consumer of a written document finds the element
with its attribute values and its texts changed (`consume_document`), and unchanged exactly if these
have none of the characters in question.
-/

namespace LadderDiagram.Markup

/-- The characters that may stand in a document. -/
def isXmlChar (c : Char) : Bool :=
  c = '\t' || c = '\n' || c = '\r' || 0x20 ≤ c.toNat && c.toNat ≤ 0xD7FF ||
    0xE000 ≤ c.toNat && c.toNat ≤ 0xFFFD || 0x10000 ≤ c.toNat

/-- Every line end as a line feed. -/
def lineEnds : List Char → List Char
  | [] => []
  | '\r' :: '\n' :: cs => '\n' :: lineEnds cs
  | '\r' :: cs => '\n' :: lineEnds cs
  | c :: cs => c :: lineEnds cs

/-- White space as a blank. -/
def blank (c : Char) : Char := if c ∈ ['\t', '\n', '\r'] then ' ' else c

/-- Where a character stands in a document. -/
inductive Region where
  | content
  | tag
  | value

def Region.next : Region → Char → Region
  | content, c => if c = '<' then tag else content
  | tag, c => if c = '>' then content else if c = '"' then value else tag
  | value, c => if c = '"' then tag else value

def Region.passed : Region → Char → Char
  | value, c => blank c
  | _, c => c

/-- White space as blanks in the values of attributes. -/
def blankValues : Region → List Char → List Char
  | _, [] => []
  | region, c :: cs => region.passed c :: blankValues (region.next c) cs

/-- Normalises line ends, and attribute values after them. -/
def process (region : Region) (cs : List Char) : List Char := blankValues region (lineEnds cs)

/-- The element that a conforming consumer finds in a document, if all of it is allowed. -/
def consume (document : String) : Option Markup := do
  guard (document.toList.all isXmlChar)
  read (String.ofList (process .content document.toList))

/-- A text as it is passed on. -/
def textValue (s : String) : String := String.ofList (lineEnds s.toList)

/-- The value of an attribute as it is passed on. -/
def attributeValue (s : String) : String := String.ofList ((lineEnds s.toList).map blank)

/-! ### Line ends -/

theorem lineEnds_cons {c : Char} (hc : c ≠ '\r') (cs : List Char) :
    lineEnds (c :: cs) = c :: lineEnds cs := by
  rw [lineEnds] <;> intros <;> exact absurd ‹c = '\r'› hc

theorem lineEnds_return {cs : List Char} (h : cs.head? ≠ some '\n') :
    lineEnds ('\r' :: cs) = '\n' :: lineEnds cs := by
  rw [lineEnds]
  rintro cs' rfl
  exact h rfl

theorem lineEnds_append {cs : List Char} (h : '\r' ∉ cs) (rest : List Char) :
    lineEnds (cs ++ rest) = cs ++ lineEnds rest := by
  induction cs with
  | nil => rfl
  | cons c cs ih =>
    rw [List.mem_cons, not_or] at h
    rw [List.cons_append, lineEnds_cons (Ne.symm h.1), ih h.2, List.cons_append]

theorem not_mem_lineEnds (cs : List Char) : '\r' ∉ lineEnds cs := by
  induction cs using lineEnds.induct with
  | case1 => exact List.not_mem_nil
  | case2 cs ih => simpa [lineEnds] using ih
  | case3 cs hcs ih =>
    have hhead : cs.head? ≠ some '\n' := by
      cases cs with
      | nil => nofun
      | cons d cs => exact fun h => hcs cs (by rw [Option.some.inj h])
    rw [lineEnds_return hhead]
    simpa using ih
  | case4 c cs _ hc ih =>
    rw [lineEnds_cons hc]
    simpa [Ne.symm hc] using ih

theorem lineEnds_eq_self_iff {cs : List Char} : lineEnds cs = cs ↔ '\r' ∉ cs := by
  constructor
  · intro h
    rw [← h]
    exact not_mem_lineEnds cs
  · intro h
    have ha := lineEnds_append h []
    rwa [lineEnds, List.append_nil] at ha

/-! ### Escaped strings -/

/-- What stands for a character is the character itself or letters of a reference. -/
theorem mem_escapeChar {c d : Char} (h : d ∈ escapeChar c) :
    d = c ∨ d ∈ "&;ltgampoqus".toList := by
  unfold escapeChar at h
  split at h
  case h_6 => exact .inl (List.mem_singleton.1 h)
  all_goals exact .inr ((by decide : _ ⊆ "&;ltgampoqus".toList) h)

theorem head?_escapeChar (c : Char) :
    (escapeChar c).head? = some c ∨ (escapeChar c).head? = some '&' := by
  unfold escapeChar
  split
  case h_6 => exact .inl rfl
  all_goals exact .inr rfl

theorem map_blank_escapeChar (c : Char) : (escapeChar c).map blank = escapeChar (blank c) := by
  by_cases hc : c ∈ ['\t', '\n', '\r']
  · simp only [List.mem_cons, List.not_mem_nil, or_false] at hc
    rcases hc with rfl | rfl | rfl <;> decide
  · rw [show blank c = c from if_neg hc]
    unfold escapeChar
    split
    case h_6 => rw [List.map_singleton, blank, if_neg hc]
    all_goals decide

theorem lineEnds_escape (cs : List Char) {stop : Char} (hs : stop ≠ '\n') (rest : List Char) :
    lineEnds (cs.flatMap escapeChar ++ stop :: rest) =
      (lineEnds cs).flatMap escapeChar ++ lineEnds (stop :: rest) := by
  induction cs using lineEnds.induct with
  | case1 => rfl
  | case2 cs ih =>
    show lineEnds ('\r' :: '\n' :: (cs.flatMap escapeChar ++ stop :: rest)) =
      '\n' :: ((lineEnds cs).flatMap escapeChar ++ lineEnds (stop :: rest))
    rw [lineEnds, ih]
  | case3 cs hcs ih =>
    have hhead : cs.head? ≠ some '\n' := by
      cases cs with
      | nil => nofun
      | cons d cs => exact fun h => hcs cs (by rw [Option.some.inj h])
    have hhead' : (cs.flatMap escapeChar ++ stop :: rest).head? ≠ some '\n' := by
      cases cs with
      | nil => simpa using hs
      | cons d cs =>
        rw [List.flatMap_cons, List.append_assoc, List.head?_append]
        rcases head?_escapeChar d with h | h
        · rw [h]
          simpa using hhead
        · rw [h, Option.some_or]
          decide
    show lineEnds ('\r' :: (cs.flatMap escapeChar ++ stop :: rest)) = _
    rw [lineEnds_return hhead', ih, lineEnds_return hhead]
    rfl
  | case4 c cs _ hc ih =>
    have hr : '\r' ∉ escapeChar c := by
      intro h
      rcases mem_escapeChar h with h | h
      · exact hc h.symm
      · revert h
        decide
    rw [List.flatMap_cons, List.append_assoc, lineEnds_append hr, ih, lineEnds_cons hc,
      List.flatMap_cons, List.append_assoc]

/-! ### Pieces of a document -/

theorem process_cons (region : Region) {c : Char} (hc : c ≠ '\r') (cs : List Char) :
    process region (c :: cs) = region.passed c :: process (region.next c) cs := by
  rw [process, lineEnds_cons hc, blankValues]
  rfl

theorem blankValues_append {region : Region} {cs : List Char}
    (h : ∀ c ∈ cs, region.next c = region) (rest : List Char) :
    blankValues region (cs ++ rest) = cs.map region.passed ++ blankValues region rest := by
  induction cs with
  | nil => rfl
  | cons c cs ih =>
    obtain ⟨hc, hcs⟩ := List.forall_mem_cons.1 h
    rw [List.cons_append, blankValues, hc, ih hcs, List.map_cons, List.cons_append]

theorem process_value (v : String) (rest : List Char) :
    process .value ((escape v).toList ++ '"' :: rest) =
      (escape (attributeValue v)).toList ++ '"' :: process .tag rest := by
  have hnext : ∀ c ∈ (lineEnds v.toList).flatMap escapeChar, Region.next .value c = .value := by
    intro c hc
    have hq := not_mem_escape (c := '"') (by decide) (textValue v)
    rw [toList_escape, textValue, String.toList_ofList] at hq
    rw [Region.next, if_neg]
    rintro rfl
    exact hq hc
  rw [process, toList_escape, toList_escape, lineEnds_escape _ (by decide),
    blankValues_append hnext, lineEnds_cons (by decide), attributeValue, String.toList_ofList,
    List.map_flatMap, List.flatMap_map]
  simp only [show Region.passed .value = blank from rfl, map_blank_escapeChar]
  rfl

theorem process_content (s : String) (rest : List Char) :
    process .content ((escape s).toList ++ '<' :: rest) =
      (escape (textValue s)).toList ++ '<' :: process .tag rest := by
  have hnext : ∀ c ∈ (escape (textValue s)).toList, Region.next .content c = .content := by
    intro c hc
    rw [Region.next, if_neg]
    rintro rfl
    exact not_mem_escape (by decide) _ hc
  have hpassed : Region.passed .content = id := rfl
  rw [process, toList_escape, lineEnds_escape _ (by decide)]
  have h := blankValues_append hnext (lineEnds ('<' :: rest))
  rw [toList_escape, textValue, String.toList_ofList, hpassed, List.map_id] at h
  rw [h, lineEnds_cons (by decide), toList_escape, textValue, String.toList_ofList]
  rfl

/-- What changes no region and no character. -/
theorem process_append {region : Region} {cs : List Char} (hr : '\r' ∉ cs)
    (h : ∀ c ∈ cs, region.next c = region ∧ region.passed c = c) (rest : List Char) :
    process region (cs ++ rest) = cs ++ process region rest := by
  have hpassed : cs.map region.passed = cs :=
    (List.map_congr_left fun c hc => (h c hc).2).trans (List.map_id' cs)
  rw [process, lineEnds_append hr, blankValues_append fun c hc => (h c hc).1, hpassed]
  rfl

theorem process_name {cs : List Char} (h : isName cs = true) (rest : List Char) :
    process .tag (cs ++ rest) = cs ++ process .tag rest := by
  refine process_append (not_mem_of_isName h rfl) (fun c hc => ⟨?_, rfl⟩) rest
  rw [Region.next, if_neg, if_neg]
  · rintro rfl
    exact not_mem_of_isName h rfl hc
  · rintro rfl
    exact not_mem_of_isName h rfl hc

def Attributes.mapValues (f : String → String) (attributes : Attributes) : Attributes :=
  attributes.map fun a => (a.1, f a.2)

theorem process_render {attributes : Attributes} (h : attributes.proper = true)
    (rest : List Char) : process .tag (attributes.render.toList ++ rest) =
      (attributes.mapValues attributeValue).render.toList ++ process .tag rest := by
  rw [Attributes.toList_render, Attributes.toList_render]
  induction attributes with
  | nil => rfl
  | cons a attributes ih =>
    obtain ⟨hname, hmore⟩ := Bool.and_eq_true_iff.1 h
    have hquote (cs : List Char) :
        process .tag ('=' :: '"' :: cs) = '=' :: '"' :: process .value cs := by
      rw [process_cons _ (by decide), process_cons _ (by decide)]
      rfl
    simp only [List.flatMap_cons, List.cons_append, List.append_assoc, List.nil_append,
      Attributes.mapValues, List.map_cons]
    rw [process_cons _ (by decide), show Region.next .tag ' ' = .tag from rfl, process_name hname,
      hquote, process_value, ih hmore]
    rfl

theorem process_newLine (level : Nat) (rest : List Char) :
    process .content ((newLine level).toList ++ rest) =
      (newLine level).toList ++ process .content rest := by
  have hmem : ∀ c ∈ (newLine level).toList, c = '\n' ∨ c = ' ' := by simp [newLine]
  refine process_append (fun h => ?_) (fun c hc => ⟨?_, rfl⟩) rest
  · exact absurd (hmem _ h) (by decide)
  · rcases hmem c hc with rfl | rfl <;> rfl

section
variable {name : String} {attributes : Attributes} (hname : isName name.toList = true)
include hname

theorem process_openTag (h : attributes.proper = true) (rest : List Char) :
    process .content ((openTag name attributes).toList ++ rest) =
      (openTag name (attributes.mapValues attributeValue)).toList ++ process .content rest := by
  have hopen (cs : List Char) : process .content ('<' :: cs) = '<' :: process .tag cs :=
    process_cons _ (by decide) cs
  have hclose (cs : List Char) : process .tag ('>' :: cs) = '>' :: process .content cs :=
    process_cons _ (by decide) cs
  simp [openTag, hopen, hclose, process_name hname, process_render h]

theorem process_emptyTag (h : attributes.proper = true) (rest : List Char) :
    process .content ((emptyTag name attributes).toList ++ rest) =
      (emptyTag name (attributes.mapValues attributeValue)).toList ++ process .content rest := by
  have hopen (cs : List Char) : process .content ('<' :: cs) = '<' :: process .tag cs :=
    process_cons _ (by decide) cs
  have hclose (cs : List Char) :
      process .tag ('/' :: '>' :: cs) = '/' :: '>' :: process .content cs := by
    rw [process_cons _ (by decide), process_cons _ (by decide)]
    rfl
  simp [emptyTag, hopen, hclose, process_name hname, process_render h]

theorem process_closeTag (rest : List Char) :
    process .content ((closeTag name).toList ++ rest) =
      (closeTag name).toList ++ process .content rest := by
  have hopen (cs : List Char) :
      process .content ('<' :: '/' :: cs) = '<' :: '/' :: process .tag cs := by
    rw [process_cons _ (by decide), process_cons _ (by decide)]
    rfl
  have hclose (cs : List Char) : process .tag ('>' :: cs) = '>' :: process .content cs :=
    process_cons _ (by decide) cs
  simp [closeTag, hopen, hclose, process_name hname]

theorem process_text (content : String) (rest : List Char) :
    process .content ((escape content).toList ++ ((closeTag name).toList ++ rest)) =
      (escape (textValue content)).toList ++
        ((closeTag name).toList ++ process .content rest) := by
  have hfirst (cs : List Char) :
      (closeTag name).toList ++ cs = '<' :: ('/' :: (name.toList ++ '>' :: cs)) := by
    simp [closeTag]
  rw [hfirst, process_content, ← process_closeTag hname, hfirst, process_cons _ (by decide)]
  rfl

end

/-! ### Documents -/

mutual

/-- The element with the values of its attributes changed by `f` and its texts by `g`. -/
def mapStrings (f g : String → String) : Markup → Markup
  | empty name attributes => empty name (attributes.mapValues f)
  | text name attributes content => text name (attributes.mapValues f) (g content)
  | node name attributes children =>
    node name (attributes.mapValues f) (mapStringsAll f g children)

def mapStringsAll (f g : String → String) : List Markup → List Markup
  | [] => []
  | m :: ms => mapStrings f g m :: mapStringsAll f g ms

end

mutual

/-- An element that was written is passed on with its strings normalised. -/
theorem process_indented : ∀ (m : Markup) (level : Nat), m.readable = true → ∀ rest,
    process .content ((m.indented level).toList ++ rest) =
      ((m.mapStrings attributeValue textValue).indented level).toList ++ process .content rest
  | empty name attributes, level, h, rest => by
    obtain ⟨hname, hattr⟩ := Bool.and_eq_true_iff.1 h
    simp only [indented, mapStrings, String.toList_append, List.append_assoc]
    rw [process_newLine, process_emptyTag hname hattr]
  | text name attributes content, level, h, rest => by
    obtain ⟨h, -⟩ := Bool.and_eq_true_iff.1 h
    obtain ⟨hname, hattr⟩ := Bool.and_eq_true_iff.1 h
    simp only [indented, mapStrings, String.toList_append, List.append_assoc]
    rw [process_newLine, process_openTag hname hattr, process_text hname]
  | node name attributes children, level, h, rest => by
    obtain ⟨h, hchildren⟩ := Bool.and_eq_true_iff.1 h
    obtain ⟨h, -⟩ := Bool.and_eq_true_iff.1 h
    obtain ⟨hname, hattr⟩ := Bool.and_eq_true_iff.1 h
    simp only [indented, mapStrings, String.toList_append, List.append_assoc]
    rw [process_newLine, process_openTag hname hattr,
      process_indentedAll children (level + 1) hchildren, process_newLine, process_closeTag hname]

theorem process_indentedAll : ∀ (ms : List Markup) (level : Nat), readableAll ms = true → ∀ rest,
    process .content ((indentedAll level ms).toList ++ rest) =
      (indentedAll level (mapStringsAll attributeValue textValue ms)).toList ++
        process .content rest
  | [], level, h, rest => rfl
  | m :: ms, level, h, rest => by
    obtain ⟨hm, hms⟩ := Bool.and_eq_true_iff.1 h
    simp only [indentedAll, mapStringsAll, String.toList_append, List.append_assoc]
    rw [process_indented m level hm, process_indentedAll ms level hms]

end

@[simp] theorem proper_mapValues (f : String → String) (attributes : Attributes) :
    Attributes.proper (attributes.mapValues f) = attributes.proper := by
  simp [Attributes.proper, Attributes.mapValues, Function.comp_def]

@[simp] theorem holdsText_mapValues (name : String) (f : String → String)
    (attributes : Attributes) :
    holdsText name (attributes.mapValues f) = holdsText name attributes := by
  simp [holdsText, Attributes.mapValues]

mutual

@[simp] theorem readable_mapStrings (f g : String → String) : ∀ m : Markup,
    (m.mapStrings f g).readable = m.readable
  | empty name attributes => by simp [mapStrings, readable]
  | text name attributes content => by simp [mapStrings, readable]
  | node name attributes children => by
    simp [mapStrings, readable, readableAll_mapStringsAll f g children]

theorem readableAll_mapStringsAll (f g : String → String) : ∀ ms : List Markup,
    readableAll (mapStringsAll f g ms) = readableAll ms
  | [] => rfl
  | m :: ms => by
    rw [mapStringsAll, readableAll, readableAll, readable_mapStrings f g m,
      readableAll_mapStringsAll f g ms]

end

theorem process_document {root : Markup} (h : root.readable = true) :
    String.ofList (process .content (document root).toList) =
      document (root.mapStrings attributeValue textValue) := by
  have hdeclaration (cs : List Char) : process .content (declaration.toList ++ cs) =
      declaration.toList ++ process .content cs := rfl
  have hroot := process_indented root 0 h []
  rw [List.append_nil] at hroot
  rw [document, String.toList_append, hdeclaration, hroot]
  show String.ofList (declaration.toList ++ (_ ++ [])) = _
  rw [List.append_nil, ← String.toList_append, String.ofList_toList]
  rfl

/-- A consumer finds the element with its strings normalised. -/
theorem consume_document {root : Markup} (h : root.readable = true)
    (hc : (document root).toList.all isXmlChar = true) :
    consume (document root) = some (root.mapStrings attributeValue textValue) := by
  rw [consume, hc, process_document h, read_document (by rw [readable_mapStrings, h])]
  rfl

end LadderDiagram.Markup
