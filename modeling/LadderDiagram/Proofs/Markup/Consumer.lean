import LadderDiagram.Export.Basic
import LadderDiagram.Proofs.Markup.RoundTrip
import LadderDiagram.Proofs.Markup.Strings

/-!
# Exported documents at a consumer

What a conforming consumer finds in the document of a unit. Its attributes hold the names of the
unit, printed numbers and fixed words, and its texts are those of the unit (`Pou.all_values`,
`Pou.texts_toMarkup`). Numbers and words need no care, so all depends on the strings of the unit: a
document is allowed if they are, and is read unchanged if the names have no tabs and no line ends
and the texts no carriage returns (`plcOpen_export_consumed`).
-/

namespace LadderDiagram

open Markup (Attributes isXmlChar isGraphicChar isGraphic allowed attributeValue textValue consume)

/-! ### Numbers -/

theorem all_isGraphicChar_toDigits (n : Nat) : (Nat.toDigits 10 n).all isGraphicChar = true := by
  refine List.all_eq_true.2 fun c hc => ?_
  have hc := Nat.isDigit_of_mem_toDigits (by decide) (by decide) hc
  simp only [Char.isDigit, Bool.and_eq_true, decide_eq_true_eq, UInt32.le_iff_toNat_le,
    ge_iff_le] at hc
  change 48 ≤ c.toNat ∧ c.toNat ≤ 57 at hc
  simp only [isGraphicChar, Bool.and_eq_true, decide_eq_true_eq]
  omega

theorem isGraphic_append (s s' : String) :
    isGraphic (s ++ s') = (isGraphic s && isGraphic s') := by
  rw [isGraphic, String.toList_append, List.all_append]
  rfl

theorem isGraphic_toString (n : Nat) : isGraphic (toString n) = true := by
  rw [isGraphic, Nat.toString_eq_repr, Nat.toList_repr, all_isGraphicChar_toDigits]

namespace Decimal.Format

theorem all_isGraphicChar_layOut (f : Format) (d : Scientific) :
    (f.layOut d).all isGraphicChar = true := by
  have hzero : isGraphicChar '0' = true := rfl
  have hpoint : isGraphicChar '.' = true := rfl
  have hzeros (k : Nat) : (List.replicate k '0').all isGraphicChar = true :=
    List.all_eq_true.2 fun c hc => by rw [List.eq_of_mem_replicate hc]; rfl
  have hdigits := all_isGraphicChar_toDigits d.digits
  rw [layOut]
  generalize Nat.toDigits 10 d.digits = digits at hdigits
  have htake (k : Nat) : (digits.take k).all isGraphicChar = true :=
    List.all_eq_true.2 fun c hc => List.all_eq_true.1 hdigits c (List.mem_of_mem_take hc)
  have hdrop (k : Nat) : (digits.drop k).all isGraphicChar = true :=
    List.all_eq_true.2 fun c hc => List.all_eq_true.1 hdigits c (List.mem_of_mem_drop hc)
  have hsign (p : Prop) [Decidable p] : isGraphicChar (if p then '-' else '+') = true := by
    split <;> rfl
  simp only
  split
  · split
    · simp [hzeros, hdigits, hzero, hpoint]
    · split
      · split <;> simp [hzeros, htake, hzero, hpoint]
      · simp [hzeros, htake, hdrop, hpoint]
  · rcases digits with _ | ⟨c, _ | ⟨c', rest⟩⟩ <;>
      simp_all [all_isGraphicChar_toDigits, show isGraphicChar 'e' = true from rfl,
        -List.all_eq_true]

theorem isGraphic_render (f : Format) (x : Float) : isGraphic (f.render x) = true := by
  have hmagnitude (bits : UInt64) : (f.magnitude bits).all isGraphicChar = true := by
    rw [magnitude]
    split
    · split <;> rfl
    · exact all_isGraphicChar_layOut f _
  rw [render]
  split
  · rfl
  · have hsign : isGraphic (if x.toBits >>> 63 = 1 then "-" else "") = true := by split <;> rfl
    by_cases hinf : x.isInf
    · simp only [hinf, ↓reduceIte, isGraphic_append, hsign]
      rfl
    · simp only [hinf, Bool.false_eq_true, ↓reduceIte, isGraphic_append, hsign]
      rw [isGraphic, String.toList_ofList, hmagnitude]
      rfl

end Decimal.Format

/-! ### Names and texts of a unit -/

namespace Body

def Connection.names (c : Connection) : List String := c.formalParameter.toList

def InputSide.names (s : InputSide) : List String := s.connections.flatMap Connection.names

def OutputSide.names (o : OutputSide) : List String := o.formalParameter.toList

def InputSource.names : InputSource → List String
  | connected side => side.names
  | expression _ => []

def InputSource.texts : InputSource → List String
  | connected _ => []
  | expression text => [text]

def BlockInput.names (i : BlockInput) : List String := i.formalParameter :: i.source.names

def BlockOutput.names (o : BlockOutput) : List String := o.formalParameter :: o.output.names

namespace Element

/-- The names of types, instances and formal parameters. -/
def names : Element → List String
  | leftRail e => e.output.names
  | rightRail e => e.input.names
  | block e =>
    e.typeName :: e.instanceName.toList ++ e.inputs.flatMap BlockInput.names
      ++ e.outputs.flatMap BlockOutput.names
  | contact e => e.input.names ++ e.output.names
  | coil e => e.input.names ++ e.output.names
  | inVariable e => e.output.names
  | outVariable e => e.input.names

/-- The operands and expressions. -/
def texts : Element → List String
  | leftRail _ | rightRail _ => []
  | block e => e.inputs.flatMap (·.source.texts)
  | contact e => [e.operand]
  | coil e => [e.operand]
  | inVariable e => [e.expression]
  | outVariable e => [e.expression]

end Element

end Body

/-- The name of the unit, and those of types, instances and formal parameters. -/
def Pou.names (p : Pou) : List String := p.name :: p.body.elements.flatMap Body.Element.names

/-- The operands and expressions of the unit. -/
def Pou.texts (p : Pou) : List String := p.body.elements.flatMap Body.Element.texts

/-! ### Strings of a unit's own markup -/

section
variable (name : String) (attributes : Attributes) (children : List Markup)

@[simp] theorem values_nodeOrEmpty : (nodeOrEmpty name attributes children).values =
    attributes.map (·.2) ++ children.flatMap Markup.values := by
  unfold nodeOrEmpty
  split
  · rename_i h
    rw [List.isEmpty_iff.1 h]
    exact (List.append_nil _).symm
  · rw [Markup.values, Markup.valuesAll_eq]

@[simp] theorem texts_nodeOrEmpty :
    (nodeOrEmpty name attributes children).texts = children.flatMap Markup.texts := by
  unfold nodeOrEmpty
  split
  · rename_i h
    rw [List.isEmpty_iff.1 h]
    rfl
  · rw [Markup.texts, Markup.textsAll_eq]

end

@[simp] theorem Point.texts_toMarkup (name : String) (p : Point) :
    (p.toMarkup name).texts = [] := rfl

namespace Body

@[simp] theorem Connection.texts_toMarkup (c : Connection) : c.toMarkup.texts = [] := by
  simp [toMarkup, List.flatMap_map]

@[simp] theorem InputSide.texts_toMarkup (s : InputSide) : s.toMarkup.texts = [] := by
  cases h : s.relPosition <;> simp [toMarkup, h, List.flatMap_map]

@[simp] theorem OutputSide.texts_toMarkup (o : OutputSide) : o.toMarkup.texts = [] := by
  cases h : o.relPosition <;> simp [toMarkup, h]

theorem Element.texts_toMarkup (e : Element) : e.toMarkup.texts = e.texts := by
  cases e with
  | leftRail e => simp [toMarkup, LeftRail.toMarkup, Markup.texts, Markup.textsAll, position, texts]
  | rightRail e =>
    simp [toMarkup, RightRail.toMarkup, Markup.texts, Markup.textsAll, position, texts]
  | block e =>
    have hin (i : BlockInput) : i.toMarkup.texts = i.source.texts := by
      cases h : i.source <;>
        simp [BlockInput.toMarkup, InputSource.toMarkup, InputSource.texts, Markup.texts,
          Markup.textsAll, h]
    have hout (o : BlockOutput) : o.toMarkup.texts = [] := by
      simp [BlockOutput.toMarkup, Markup.texts, Markup.textsAll]
    simp [toMarkup, Block.toMarkup, Markup.texts, Markup.textsAll, Markup.textsAll_eq, position,
      texts, List.flatMap_map, hin, hout]
  | contact e => simp [toMarkup, Contact.toMarkup, Markup.texts, Markup.textsAll, position, texts]
  | coil e => simp [toMarkup, Coil.toMarkup, Markup.texts, Markup.textsAll, position, texts]
  | inVariable e =>
    simp [toMarkup, InVariable.toMarkup, Markup.texts, Markup.textsAll, position, texts]
  | outVariable e =>
    simp [toMarkup, OutVariable.toMarkup, Markup.texts, Markup.textsAll, position, texts]

end Body

theorem Pou.texts_toMarkup (p : Pou) : p.toMarkup.texts = p.texts := by
  simp [toMarkup, Body.toMarkup, texts, Markup.texts, Markup.textsAll, Markup.textsAll_eq,
    List.flatMap_map, Body.Element.texts_toMarkup]

section
variable {q : String → Bool} (hq : ∀ s, isGraphic s = true → q s = true)
include hq

theorem Point.all_values (name : String) (p : Point) : (p.toMarkup name).values.all q = true := by
  simp [Point.toMarkup, Markup.values, hq _ (Decimal.Format.isGraphic_render _ _)]

namespace Body

theorem Connection.all_values (c : Connection) : c.toMarkup.values.all q = c.names.all q := by
  have hid : q (toString c.refLocalId) = true := hq _ (isGraphic_toString c.refLocalId.toNat)
  cases h : c.formalParameter <;>
    simp [toMarkup, names, h, hid, List.flatMap_map, List.all_flatMap, Point.all_values hq]

theorem InputSide.all_values (s : InputSide) : s.toMarkup.values.all q = s.names.all q := by
  cases h : s.relPosition <;>
    simp [toMarkup, names, h, List.flatMap_map, List.all_flatMap, Point.all_values hq,
      Connection.all_values hq]

theorem OutputSide.all_values (o : OutputSide) : o.toMarkup.values.all q = o.names.all q := by
  cases h : o.formalParameter <;> cases h' : o.relPosition <;>
    simp [toMarkup, names, h, h', Point.all_values hq]

theorem BlockInput.all_values (i : BlockInput) : i.toMarkup.values.all q = i.names.all q := by
  cases h : i.source <;>
    simp [toMarkup, names, h, InputSource.toMarkup, InputSource.names, Markup.values,
      Markup.valuesAll, InputSide.all_values hq]

theorem BlockOutput.all_values (o : BlockOutput) : o.toMarkup.values.all q = o.names.all q := by
  simp [toMarkup, names, Markup.values, Markup.valuesAll, OutputSide.all_values hq]

theorem all_attributes (localId : UInt64) (own : Attributes) (g : Geometry) :
    ((attributes localId own g).map (·.2)).all q = (own.map (·.2)).all q := by
  have hid : q (toString localId) = true := hq _ (isGraphic_toString localId.toNat)
  simp [attributes, hid, hq _ (Decimal.Format.isGraphic_render _ _)]

theorem Element.all_values (e : Element) : e.toMarkup.values.all q = e.names.all q := by
  have hbool (b : Bool) : q (toString b) = true := hq _ (by cases b <;> rfl)
  have hedge (m : EdgeModifier) : q m.name = true := hq _ (by cases m <;> rfl)
  have hstorage (m : StorageModifier) : q m.name = true := hq _ (by cases m <;> rfl)
  have horder (n : UInt32) : q (toString n) = true := hq _ (isGraphic_toString n.toNat)
  have hplace (g : Geometry) : (position g).values.all q = true := Point.all_values hq _ g.position
  cases e with
  | leftRail e =>
    simp [toMarkup, LeftRail.toMarkup, Markup.values, Markup.valuesAll, names, all_attributes hq,
      hplace, OutputSide.all_values hq, -List.map_append, -List.map_cons]
  | rightRail e =>
    simp only [toMarkup, RightRail.toMarkup, Markup.values, Markup.valuesAll, List.all_append,
      all_attributes hq, hplace, InputSide.all_values hq, names]
    simp
  | block e =>
    simp only [toMarkup, Block.toMarkup, Markup.values, Markup.valuesAll, Markup.valuesAll_eq,
      List.map_append, List.all_append, all_attributes hq, hplace, names]
    cases h : e.instanceName <;>
      simp [horder, List.flatMap_map, List.all_flatMap, BlockInput.all_values hq,
        BlockOutput.all_values hq, Bool.and_assoc]
  | contact e =>
    simp only [toMarkup, Contact.toMarkup, Markup.values, Markup.valuesAll, List.all_append,
      all_attributes hq, hplace, InputSide.all_values hq, OutputSide.all_values hq, names]
    cases h : e.edge <;> simp [hbool, hedge]
  | coil e =>
    simp only [toMarkup, Coil.toMarkup, Markup.values, Markup.valuesAll, List.all_append,
      all_attributes hq, hplace, InputSide.all_values hq, OutputSide.all_values hq, names]
    cases h : e.edge <;> cases h' : e.storage <;> simp [hbool, hedge, hstorage]
  | inVariable e =>
    simp only [toMarkup, InVariable.toMarkup, variableAttributes, Markup.values, Markup.valuesAll,
      List.all_append, all_attributes hq, hplace, OutputSide.all_values hq, names]
    simp [hbool, horder]
  | outVariable e =>
    simp only [toMarkup, OutVariable.toMarkup, variableAttributes, Markup.values, Markup.valuesAll,
      List.all_append, all_attributes hq, hplace, InputSide.all_values hq, names]
    simp [hbool, horder]

end Body

/-- What holds of numbers and words holds of all attributes if it holds of the names. -/
theorem Pou.all_values (p : Pou) : p.toMarkup.values.all q = p.names.all q := by
  have hnamespace : q namespaceName = true := hq _ (by decide +kernel)
  have htype : q p.pouType.name = true := hq _ (by cases p.pouType <;> rfl)
  simp [toMarkup, Body.toMarkup, names, Markup.values, Markup.valuesAll, Markup.valuesAll_eq,
    hnamespace, htype, List.flatMap_map, List.all_flatMap, Body.Element.all_values hq]

end

namespace Pou

variable (p : Pou)

/-- A document is allowed if the names and texts of its unit are. -/
theorem allowed_markupDocument :
    allowed p.markupDocument = (p.names ++ p.texts).all allowed := by
  rw [markupDocument, Markup.allowed_document p.readable_toMarkup, List.all_append,
    List.all_append, p.all_values fun _ => Markup.allowed_of_isGraphic, p.texts_toMarkup]

theorem forall_attributeValue_iff :
    (∀ s ∈ p.toMarkup.values, attributeValue s = s) ↔ ∀ s ∈ p.names, attributeValue s = s := by
  have h := p.all_values (q := fun s => decide (attributeValue s = s)) fun s hs =>
    decide_eq_true (Markup.attributeValue_of_isGraphic hs)
  simpa using Bool.eq_iff_iff.1 h

theorem consume_markupDocument_eq_self_iff :
    consume p.markupDocument = some p.toMarkup ↔ (p.names ++ p.texts).all allowed = true ∧
      (∀ s ∈ p.names, ∀ c ∈ s.toList, c ∉ ['\t', '\n', '\r']) ∧
      ∀ s ∈ p.texts, '\r' ∉ s.toList := by
  rw [markupDocument, Markup.consume_document_eq_self_iff p.readable_toMarkup,
    ← Markup.allowed_document p.readable_toMarkup, p.forall_attributeValue_iff, p.texts_toMarkup]
  rw [← markupDocument, p.allowed_markupDocument]
  simp only [Markup.attributeValue_eq_self_iff, Markup.textValue_eq_self_iff]

end Pou

/-- **What a conforming consumer finds in an export.** The document is allowed exactly if the names
and texts of the unit are. Then a consumer finds the element that the unit is written as, with its
attribute values and texts normalised. It finds them unchanged, and with them all data of the unit,
exactly if moreover no name has a tab, a line feed or a carriage return and no text a carriage
return. -/
theorem plcOpen_export_consumed {p : Program} {config : Config} {x : Export}
    (h : p.exportAs (.plcOpen config) = .ok x) :
    (x.text.toList.all isXmlChar = true ↔
      ∀ s ∈ x.pou.names ++ x.pou.texts, ∀ c ∈ s.toList, isXmlChar c = true) ∧
    (x.text.toList.all isXmlChar = true → consume x.text =
      some (x.pou.toMarkup.mapStrings attributeValue textValue)) ∧
    (consume x.text = some x.pou.toMarkup ↔ x.text.toList.all isXmlChar = true ∧
      (∀ s ∈ x.pou.names, ∀ c ∈ s.toList, c ∉ ['\t', '\n', '\r']) ∧
      ∀ s ∈ x.pou.texts, '\r' ∉ s.toList) ∧
    Transcript.ofMarkup? x.pou.toMarkup = some x.pou.transcript := by
  have htext : x.text = x.pou.markupDocument := by
    rw [Program.exportAs] at h
    split at h
    · cases h
    · cases h
      rfl
  have hallowed := x.pou.allowed_markupDocument
  rw [htext]
  refine ⟨?_, fun hc => Markup.consume_document x.pou.readable_toMarkup hc, ?_,
    x.pou.ofMarkup?_toMarkup⟩
  · rw [← allowed, hallowed, List.all_eq_true]
    exact forall₂_congr fun s _ => List.all_eq_true
  · rw [← allowed, hallowed, x.pou.consume_markupDocument_eq_self_iff]

def twoLineOperand : Program where
  name := "pump 1"
  rungs := [{ nodes := [{ id := "x", numericId := 1, kind := .coil "a\n&b" .normal }] }]

/-- Blanks in a name and line feeds in a text are read as they are. -/
theorem twoLineOperand_consumed :
    ∃ x, twoLineOperand.exportAs (.plcOpen (.ofDialect .codesys)) = .ok x ∧
      x.pou.names = ["pump 1"] ∧ x.pou.texts = ["a\n&b"] ∧
      consume x.text = some x.pou.toMarkup := by
  have hexport : ∃ x, twoLineOperand.exportAs (.plcOpen (.ofDialect .codesys)) = .ok x ∧
      x.pou.body = (lower (.ofDialect .codesys) twoLineOperand.rungs).body ∧
      x.pou.name = "pump 1" :=
    ⟨_, if_neg (by decide), rfl, rfl⟩
  obtain ⟨x, hx, hbody, hname⟩ := hexport
  have hnames : x.pou.names = ["pump 1"] := by
    rw [Pou.names, hbody, hname]
    decide +kernel
  have htexts : x.pou.texts = ["a\n&b"] := by
    rw [Pou.texts, hbody]
    decide +kernel
  obtain ⟨hallowed, -, hconsume, -⟩ := plcOpen_export_consumed hx
  refine ⟨x, hx, hnames, htexts, hconsume.2 ⟨hallowed.2 ?_, ?_, ?_⟩⟩
  · rw [hnames, htexts]
    simp [isXmlChar]
  · rw [hnames]
    simp
  · rw [htexts]
    simp

/-- **Exports let control characters and white space through.** A tab in the name of a unit reaches
a consumer as a blank, and a control character makes the whole document one that is not allowed. -/
theorem control_characters_exported :
    (∃ p x, Program.parse "\x7b\"name\":\"a\\tb\",\"pouType\":\"program\"\x7d" = .ok p ∧
      p.exportAs (.plcOpen (.ofDialect .openPlc)) = .ok x ∧ x.pou.name = "a\tb" ∧
      (consume x.text).bind (·.attribute? "name") = some "a b") ∧
    ∃ p x, Program.parse "\x7b\"name\":\"a\\u0001b\",\"pouType\":\"program\"\x7d" = .ok p ∧
      p.exportAs (.plcOpen (.ofDialect .openPlc)) = .ok x ∧
      x.text.toList.all isXmlChar = false ∧ consume x.text = none := by
  constructor
  · have hparse : Program.parse "\x7b\"name\":\"a\\tb\",\"pouType\":\"program\"\x7d" =
        .ok { name := "a\tb" } := by decide +kernel
    refine ⟨_, _, hparse, if_neg (by decide +kernel), rfl, ?_⟩
    rw [Codec.encode, Pou.markupDocument,
      Markup.consume_document (Pou.readable_toMarkup _) (by decide +kernel)]
    decide +kernel
  · have hparse : Program.parse "\x7b\"name\":\"a\\u0001b\",\"pouType\":\"program\"\x7d" =
        .ok { name := "a\x01b" } := by decide +kernel
    have hchar : (Codec.plcOpen (.ofDialect .openPlc) |>.encode
        ⟨"a\x01b", .program, (lower (.ofDialect .openPlc) []).body⟩).toList.all isXmlChar =
          false := by decide +kernel
    refine ⟨_, _, hparse, if_neg (by decide +kernel), hchar, ?_⟩
    rw [consume]
    exact (congrArg (fun b => (guard (b = true) : Option Unit).bind _) hchar).trans rfl

end LadderDiagram
