import LadderDiagram.Proofs.Markup.Processor

/-!
# Strings of elements

The strings of an element are the values of its attributes and its texts. All other characters of a
document are allowed, so it is allowed if its strings are (`allowed_document`). An element is passed
on unchanged exactly if its strings are (`mapStrings_eq_self_iff`): values without tabs and line
ends, texts without carriage returns.
-/

namespace LadderDiagram.Markup

/-- All characters of the string may stand in a document. -/
def allowed (s : String) : Bool := s.toList.all isXmlChar

mutual

def values : Markup → List String
  | empty _ attributes => attributes.map (·.2)
  | text _ attributes _ => attributes.map (·.2)
  | node _ attributes children => attributes.map (·.2) ++ valuesAll children

def valuesAll : List Markup → List String
  | [] => []
  | m :: ms => values m ++ valuesAll ms

end

mutual

def texts : Markup → List String
  | empty _ _ => []
  | text _ _ content => [content]
  | node _ _ children => textsAll children

def textsAll : List Markup → List String
  | [] => []
  | m :: ms => texts m ++ textsAll ms

end

theorem valuesAll_eq (ms : List Markup) : valuesAll ms = ms.flatMap values := by
  induction ms with
  | nil => rfl
  | cons m ms ih => rw [valuesAll, ih, List.flatMap_cons]

theorem textsAll_eq (ms : List Markup) : textsAll ms = ms.flatMap texts := by
  induction ms with
  | nil => rfl
  | cons m ms ih => rw [textsAll, ih, List.flatMap_cons]

/-! ### Characters -/

@[simp] theorem allowed_append (s s' : String) : allowed (s ++ s') = (allowed s && allowed s') := by
  rw [allowed, String.toList_append, List.all_append]
  rfl

theorem all_isXmlChar_escapeChar (c : Char) : (escapeChar c).all isXmlChar = isXmlChar c := by
  unfold escapeChar
  split
  case h_6 => rw [List.all_cons, List.all_nil, Bool.and_true]
  all_goals rfl

@[simp] theorem allowed_escape (s : String) : allowed (escape s) = allowed s := by
  rw [allowed, toList_escape, List.all_flatMap]
  simp only [all_isXmlChar_escapeChar]
  rfl

def isGraphicChar (c : Char) : Bool := 0x20 < c.toNat && c.toNat < 0x7F

def isGraphic (s : String) : Bool := s.toList.all isGraphicChar

theorem isXmlChar_of_le {c : Char} (h : 0x20 ≤ c.toNat) (h' : c.toNat ≤ 0xD7FF) :
    isXmlChar c = true := by
  simp [isXmlChar, h, h']

theorem allowed_of_isGraphic {s : String} (h : isGraphic s = true) : allowed s = true := by
  refine List.all_eq_true.2 fun c hc => ?_
  have hc := List.all_eq_true.1 h c hc
  simp only [isGraphicChar, Bool.and_eq_true, decide_eq_true_eq] at hc
  exact isXmlChar_of_le (by omega) (by omega)

theorem isGraphic_of_isName {s : String} (h : isName s.toList = true) : isGraphic s = true := by
  refine List.all_eq_true.2 fun c hc => ?_
  have hc := isAlpha_of_isName h c hc
  simp only [Char.isAlpha, Char.isUpper, Char.isLower, Bool.or_eq_true, Bool.and_eq_true,
    decide_eq_true_eq, UInt32.le_iff_toNat_le, ge_iff_le] at hc
  simp only [isGraphicChar, Bool.and_eq_true, decide_eq_true_eq]
  change (65 ≤ c.toNat ∧ c.toNat ≤ 90) ∨ (97 ≤ c.toNat ∧ c.toNat ≤ 122) at hc
  omega

@[simp] theorem allowed_newLine (level : Nat) : allowed (newLine level) = true := by
  simp [allowed, newLine, isXmlChar]

section
variable {name : String} (hname : isName name.toList = true) {attributes : Attributes}

theorem allowed_render (h : attributes.proper = true) :
    allowed attributes.render = (attributes.map (·.2)).all allowed := by
  induction attributes with
  | nil => rfl
  | cons a attributes ih =>
    obtain ⟨hname, hmore⟩ := Bool.and_eq_true_iff.1 h
    have hcons : Attributes.render (a :: attributes) =
        " " ++ a.1 ++ "=\"" ++ escape a.2 ++ "\"" ++ Attributes.render attributes := by
      rw [Attributes.render, List.map_cons, String.join_cons]
      rfl
    rw [hcons]
    simp [ih hmore, allowed_of_isGraphic (isGraphic_of_isName hname),
      show allowed " " = true from rfl, show allowed "=\"" = true from rfl,
      show allowed "\"" = true from rfl]

include hname

theorem allowed_openTag (h : attributes.proper = true) :
    allowed (openTag name attributes) = (attributes.map (·.2)).all allowed := by
  simp [openTag, allowed_render h, allowed_of_isGraphic (isGraphic_of_isName hname),
    show allowed "<" = true from rfl, show allowed ">" = true from rfl]

theorem allowed_emptyTag (h : attributes.proper = true) :
    allowed (emptyTag name attributes) = (attributes.map (·.2)).all allowed := by
  simp [emptyTag, allowed_render h, allowed_of_isGraphic (isGraphic_of_isName hname),
    show allowed "<" = true from rfl, show allowed "/>" = true from rfl]

theorem allowed_closeTag : allowed (closeTag name) = true := by
  simp [closeTag, allowed_of_isGraphic (isGraphic_of_isName hname),
    show allowed "</" = true from rfl, show allowed ">" = true from rfl]

end

mutual

theorem allowed_indented : ∀ (m : Markup) (level : Nat), m.readable = true →
    allowed (m.indented level) = (m.values ++ m.texts).all allowed
  | empty name attributes, level, h => by
    obtain ⟨hname, hattr⟩ := Bool.and_eq_true_iff.1 h
    rw [indented, allowed_append, allowed_newLine, Bool.true_and, allowed_emptyTag hname hattr,
      values, texts, List.append_nil]
  | text name attributes content, level, h => by
    obtain ⟨h, -⟩ := Bool.and_eq_true_iff.1 h
    obtain ⟨hname, hattr⟩ := Bool.and_eq_true_iff.1 h
    simp [indented, values, texts, allowed_openTag hname hattr, allowed_closeTag hname]
  | node name attributes children, level, h => by
    obtain ⟨h, hchildren⟩ := Bool.and_eq_true_iff.1 h
    obtain ⟨h, -⟩ := Bool.and_eq_true_iff.1 h
    obtain ⟨hname, hattr⟩ := Bool.and_eq_true_iff.1 h
    have hall := allowed_indentedAll children (level + 1) hchildren
    simp only [List.all_append] at hall
    simp [indented, values, texts, allowed_openTag hname hattr, allowed_closeTag hname, hall]

theorem allowed_indentedAll : ∀ (ms : List Markup) (level : Nat), readableAll ms = true →
    allowed (indentedAll level ms) = (valuesAll ms ++ textsAll ms).all allowed
  | [], level, h => rfl
  | m :: ms, level, h => by
    obtain ⟨hm, hms⟩ := Bool.and_eq_true_iff.1 h
    rw [indentedAll, allowed_append, allowed_indented m level hm, allowed_indentedAll ms level hms,
      valuesAll, textsAll]
    simp only [List.all_append]
    ac_rfl

end

theorem allowed_document {root : Markup} (h : root.readable = true) :
    allowed (document root) = (root.values ++ root.texts).all allowed := by
  rw [document, allowed_append, allowed_indented root 0 h]
  rfl

/-! ### Strings that are passed on unchanged -/

theorem textValue_eq_self_iff {s : String} : textValue s = s ↔ '\r' ∉ s.toList := by
  rw [textValue, ← lineEnds_eq_self_iff, ← String.toList_inj, String.toList_ofList]

theorem attributeValue_eq_self_iff {s : String} :
    attributeValue s = s ↔ ∀ c ∈ s.toList, c ∉ ['\t', '\n', '\r'] := by
  rw [attributeValue, ← String.toList_inj, String.toList_ofList]
  constructor
  · intro h c hc
    rw [← h] at hc
    obtain ⟨d, -, rfl⟩ := List.mem_map.1 hc
    unfold blank
    split
    · decide
    · assumption
  · intro h
    rw [lineEnds_eq_self_iff.2 fun hm => h _ hm (by decide)]
    exact (List.map_congr_left fun c hc => if_neg (h c hc)).trans (List.map_id' _)

theorem attributeValue_of_isGraphic {s : String} (h : isGraphic s = true) :
    attributeValue s = s := by
  refine attributeValue_eq_self_iff.2 fun c hc hm => ?_
  have hc := List.all_eq_true.1 h c hc
  simp only [List.mem_cons, List.not_mem_nil, or_false] at hm
  rcases hm with rfl | rfl | rfl <;> revert hc <;> decide

theorem mapValues_eq_self_iff {f : String → String} {attributes : Attributes} :
    attributes.mapValues f = attributes ↔ ∀ s ∈ attributes.map (·.2), f s = s := by
  induction attributes with
  | nil => simp [Attributes.mapValues]
  | cons a attributes ih =>
    obtain ⟨name, value⟩ := a
    show (name, f value) :: Attributes.mapValues f attributes = (name, value) :: attributes ↔ _
    simp [ih]

mutual

theorem mapStrings_eq_self_iff {f g : String → String} : ∀ m : Markup,
    m.mapStrings f g = m ↔ (∀ s ∈ m.values, f s = s) ∧ ∀ s ∈ m.texts, g s = s
  | empty name attributes => by simp [mapStrings, values, texts, mapValues_eq_self_iff]
  | text name attributes content => by simp [mapStrings, values, texts, mapValues_eq_self_iff]
  | node name attributes children => by
    simp [mapStrings, values, texts, mapValues_eq_self_iff,
      mapStringsAll_eq_self_iff children, or_imp, forall_and, and_assoc]

theorem mapStringsAll_eq_self_iff {f g : String → String} : ∀ ms : List Markup,
    mapStringsAll f g ms = ms ↔ (∀ s ∈ valuesAll ms, f s = s) ∧ ∀ s ∈ textsAll ms, g s = s
  | [] => by simp [mapStringsAll, valuesAll, textsAll]
  | m :: ms => by
    simp only [mapStringsAll, valuesAll, textsAll, List.cons.injEq, List.forall_mem_append,
      mapStrings_eq_self_iff m, mapStringsAll_eq_self_iff ms]
    tauto

end

/-! ### Consumers -/

theorem consume_document_eq_some_iff {root m : Markup} (h : root.readable = true) :
    consume (document root) = some m ↔
      allowed (document root) = true ∧ m = root.mapStrings attributeValue textValue := by
  cases hc : allowed (document root) with
  | false =>
    rw [allowed] at hc
    simp [consume, hc]
  | true =>
    rw [consume_document h hc, Option.some.injEq, eq_comm]
    simp

/-- A consumer finds the element that was written exactly if its strings are allowed and passed on
unchanged. -/
theorem consume_document_eq_self_iff {root : Markup} (h : root.readable = true) :
    consume (document root) = some root ↔ (root.values ++ root.texts).all allowed = true ∧
      (∀ s ∈ root.values, attributeValue s = s) ∧ ∀ s ∈ root.texts, textValue s = s := by
  rw [consume_document_eq_some_iff h, allowed_document h, eq_comm (a := root),
    mapStrings_eq_self_iff]

end LadderDiagram.Markup
