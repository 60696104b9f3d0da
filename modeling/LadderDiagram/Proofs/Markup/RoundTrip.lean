import LadderDiagram.Proofs.Markup.Transcript

/-!
# Documents of units, read back

A unit writes elements whose names are fixed words, and texts only where a reader keeps them, so a
reader finds in a document the element that was written. From that it finds the transcript of the
unit. `read_markupDocument` says both, and that units whose transcripts differ have different
documents.
-/

namespace LadderDiagram

open Markup (Attributes)

/-! ### What is read from a unit's own markup -/

section
variable (name : String) (attributes : Attributes) (children : List Markup)

@[simp] theorem name_nodeOrEmpty : (nodeOrEmpty name attributes children).name = name := by
  unfold nodeOrEmpty
  split <;> rfl

@[simp] theorem attributes_nodeOrEmpty :
    (nodeOrEmpty name attributes children).attributes = attributes := by
  unfold nodeOrEmpty
  split <;> rfl

@[simp] theorem children_nodeOrEmpty :
    (nodeOrEmpty name attributes children).children = children := by
  unfold nodeOrEmpty
  split
  · exact (List.isEmpty_iff.1 ‹_›).symm
  · rfl

end

theorem mapM_map_eq_some {α β γ : Type} {f : β → Option γ} {g : α → β} {k : α → γ}
    (h : ∀ a, f (g a) = some (k a)) (l : List α) : (l.map g).mapM f = some (l.map k) := by
  rw [List.mapM_map, show f ∘ g = fun a => pure (k a) from funext h, List.mapM_pure]
  rfl

@[simp] theorem Point.name_toMarkup (name : String) (p : Point) : (p.toMarkup name).name = name :=
  rfl

@[simp] theorem Point.ofMarkup?_toMarkup (name : String) (p : Point) :
    Transcript.Point.ofMarkup? (p.toMarkup name) = some p.transcript := rfl

namespace Body

@[simp] theorem Connection.name_toMarkup (c : Connection) : c.toMarkup.name = "connection" :=
  name_nodeOrEmpty ..

@[simp] theorem Connection.ofMarkup?_toMarkup (c : Connection) :
    Transcript.Connection.ofMarkup? c.toMarkup = some c.transcript := by
  have hpoints : c.toMarkup.named "position" = c.points.map (Point.toMarkup "position") := by
    simp [Markup.named, toMarkup, List.filter_map, Function.comp_def]
  have hid : c.toMarkup.attribute? "refLocalId" = some (toString c.refLocalId) := by
    simp [Markup.attribute?, toMarkup]
  have hpin : c.toMarkup.attribute? "formalParameter" = c.formalParameter := by
    cases h : c.formalParameter <;> simp [Markup.attribute?, toMarkup, h, List.lookup]
  rw [Transcript.Connection.ofMarkup?, hpoints, hid, hpin,
    mapM_map_eq_some (Point.ofMarkup?_toMarkup "position")]
  rfl

@[simp] theorem InputSide.ofMarkup?_toMarkup (s : InputSide) :
    Transcript.InputSide.ofMarkup? s.toMarkup = some s.transcript := by
  have hrel : s.toMarkup.child? "relPosition" =
      s.relPosition.map (Point.toMarkup "relPosition") := by
    cases h : s.relPosition <;>
      simp [Markup.child?, Markup.named, toMarkup, h, List.filter_map, Function.comp_def]
  have hconn : s.toMarkup.named "connection" = s.connections.map Connection.toMarkup := by
    cases h : s.relPosition <;>
      simp [Markup.named, toMarkup, h, List.filter_map, Function.comp_def]
  rw [Transcript.InputSide.ofMarkup?, hrel, hconn, mapM_map_eq_some Connection.ofMarkup?_toMarkup]
  cases h : s.relPosition <;> simp [transcript, h]

@[simp] theorem OutputSide.ofMarkup?_toMarkup (s : OutputSide) :
    Transcript.OutputSide.ofMarkup? s.toMarkup = some s.transcript := by
  obtain ⟨name, rel⟩ := s
  cases name <;> cases rel <;> rfl

@[simp] theorem InputSide.name_toMarkup (s : InputSide) : s.toMarkup.name = "connectionPointIn" :=
  name_nodeOrEmpty ..

@[simp] theorem OutputSide.name_toMarkup (s : OutputSide) :
    s.toMarkup.name = "connectionPointOut" :=
  name_nodeOrEmpty ..

@[simp] theorem InputSource.name_toMarkup (s : InputSource) :
    s.toMarkup.name = "connectionPointIn" := by
  cases s with
  | connected side => exact side.name_toMarkup
  | expression text => rfl

theorem InputSource.ofMarkup?_toMarkup (s : InputSource) :
    Transcript.InputSource.ofMarkup? s.toMarkup = some s.transcript := by
  cases s with
  | expression text => rfl
  | connected side =>
    have hnone : side.toMarkup.child? "expression" = none := by
      cases h : side.relPosition <;> simp [Markup.child?, Markup.named, InputSide.toMarkup, h]
    rw [toMarkup, Transcript.InputSource.ofMarkup?, hnone]
    exact congrArg (Option.map _) side.ofMarkup?_toMarkup

theorem BlockInput.ofMarkup?_toMarkup (i : BlockInput) :
    Transcript.BlockInput.ofMarkup? i.toMarkup = some i.transcript := by
  simp [Transcript.BlockInput.ofMarkup?, toMarkup, InputSource.ofMarkup?_toMarkup, transcript]

theorem BlockOutput.ofMarkup?_toMarkup (o : BlockOutput) :
    Transcript.BlockOutput.ofMarkup? o.toMarkup = some o.transcript := by
  simp [Transcript.BlockOutput.ofMarkup?, toMarkup, transcript]

@[simp] theorem lookup_toList_map {α : Type} (key name : String) (f : α → String) (o : Option α) :
    (o.map fun a => (name, f a)).toList.lookup key = if key = name then o.map f else none := by
  cases o with
  | none => simp
  | some a =>
    by_cases h : key = name
    · simp [h]
    · simp [List.lookup_cons, h, beq_eq_false_iff_ne.2 h]

@[simp] theorem ofName?_toString (b : Bool) :
    ofName? toString [false, true] (toString b) = some b := by
  cases b <;> rfl

@[simp] theorem mapM_edge (o : Option EdgeModifier) :
    (o.map EdgeModifier.name).mapM (ofName? EdgeModifier.name [.rising, .falling]) = some o := by
  rcases o with _ | _ | _ <;> rfl

@[simp] theorem mapM_storage (o : Option StorageModifier) :
    (o.map StorageModifier.name).mapM (ofName? StorageModifier.name [.set, .reset]) = some o := by
  rcases o with _ | _ | _ <;> rfl

/-- The attributes that every element has hide none of its own. -/
@[simp] theorem lookup_attributes {key : String} (hk : key ∉ ["localId", "width", "height"])
    (localId : UInt64) (own : Attributes) (g : Geometry) :
    (attributes localId own g).lookup key = own.lookup key := by
  simp only [List.mem_cons, List.not_mem_nil, or_false, not_or] at hk
  simp [attributes, List.lookup_cons, List.lookup_append, beq_eq_false_iff_ne.2 hk.1,
    beq_eq_false_iff_ne.2 hk.2.1, beq_eq_false_iff_ne.2 hk.2.2]

theorem Element.ofMarkup?_place (e : Element) :
    Transcript.Place.ofMarkup? e.toMarkup = some (place e.localId e.geometry) := by
  cases e <;>
    simp [Transcript.Place.ofMarkup?, toMarkup, LeftRail.toMarkup, RightRail.toMarkup,
      Block.toMarkup, Contact.toMarkup, Coil.toMarkup, InVariable.toMarkup, OutVariable.toMarkup,
      attributes, variableAttributes, position, List.lookup_cons, List.lookup_append,
      (lookup_toList_map _ _ fun s : String => s), localId, geometry, place, printed]

theorem Element.ofMarkup?_toMarkup (e : Element) :
    Transcript.Element.ofMarkup? e.toMarkup = some e.transcript := by
  rw [Transcript.Element.ofMarkup?, ofMarkup?_place]
  cases e with
  | leftRail e =>
    simp [toMarkup, LeftRail.toMarkup, position, Transcript.output?, transcript, localId, geometry]
  | rightRail e =>
    simp [toMarkup, RightRail.toMarkup, position, Transcript.input?, transcript, localId, geometry]
  | block e =>
    simp [toMarkup, Block.toMarkup, position, List.lookup_cons, List.lookup_append,
      (lookup_toList_map _ _ fun s : String => s),
      mapM_map_eq_some BlockInput.ofMarkup?_toMarkup,
      mapM_map_eq_some BlockOutput.ofMarkup?_toMarkup, transcript, localId, geometry]
  | contact e =>
    simp [toMarkup, Contact.toMarkup, position, List.lookup_cons, Transcript.negated?,
      Transcript.edge?, Transcript.input?, Transcript.output?, Transcript.text?, transcript,
      localId, geometry]
  | coil e =>
    simp [toMarkup, Coil.toMarkup, position, List.lookup_cons, List.lookup_append,
      Transcript.negated?, Transcript.edge?, Transcript.storage?, Transcript.input?,
      Transcript.output?, Transcript.text?, transcript, localId, geometry]
  | inVariable e =>
    simp [toMarkup, InVariable.toMarkup, variableAttributes, position, List.lookup_cons,
      Transcript.negated?, Transcript.output?, Transcript.text?, transcript, localId, geometry]
  | outVariable e =>
    simp [toMarkup, OutVariable.toMarkup, variableAttributes, position, List.lookup_cons,
      Transcript.negated?, Transcript.input?, Transcript.text?, transcript, localId, geometry]

theorem map_transcript_elements (b : Body) : b.elements.map Element.transcript = b.transcript := by
  simp [elements, transcript, Function.comp_def]

end Body

theorem Pou.ofMarkup?_toMarkup (p : Pou) : Transcript.ofMarkup? p.toMarkup = some p.transcript := by
  have htype : ofName? PouType.name [.program, .function, .functionBlock] p.pouType.name =
      some p.pouType := by
    cases p.pouType <;> rfl
  simp [Transcript.ofMarkup?, toMarkup, List.lookup_cons, Body.toMarkup, htype,
    mapM_map_eq_some Body.Element.ofMarkup?_toMarkup, Body.map_transcript_elements, transcript]

/-! ### Units can be read -/

theorem Markup.readableAll_eq (ms : List Markup) : readableAll ms = ms.all readable := by
  induction ms with
  | nil => rfl
  | cons m ms ih => rw [readableAll, ih, List.all_cons]

theorem Point.readable_toMarkup {name : String} (hname : Markup.isName name.toList = true)
    (p : Point) : (p.toMarkup name).readable = true := by
  rw [toMarkup, Markup.readable, hname]
  simp [Markup.isName]

theorem readable_nodeOrEmpty {name : String} {attributes : Attributes} {children : List Markup}
    (hname : Markup.isName name.toList = true) (h : attributes.proper = true)
    (hholds : Markup.holdsText name attributes = false)
    (hchildren : ∀ m ∈ children, m.readable = true) :
    (nodeOrEmpty name attributes children).readable = true := by
  unfold nodeOrEmpty
  split
  · simp [Markup.readable, hname, h]
  · simpa [Markup.readable, hname, h, hholds, Markup.readableAll_eq] using hchildren

namespace Body

@[simp] theorem proper_toList_map {α : Type} (name : String) (f : α → String) (o : Option α) :
    Markup.Attributes.proper (o.map fun a => (name, f a)).toList =
      (o.isNone || Markup.isName name.toList) := by
  cases o with
  | none => rfl
  | some a => simp

@[simp] theorem proper_attributes (localId : UInt64) (own : Attributes) (g : Geometry) :
    (attributes localId own g).proper = own.proper := by
  simp [attributes, Markup.isName]

theorem Connection.readable_toMarkup (c : Connection) : c.toMarkup.readable = true := by
  refine readable_nodeOrEmpty (by decide) ?_ rfl fun m hm => ?_
  · simp [proper_toList_map _ fun s : String => s, Markup.isName]
  · obtain ⟨p, -, rfl⟩ := List.mem_map.1 hm
    exact Point.readable_toMarkup rfl p

@[simp] theorem InputSide.readable_toMarkup (s : InputSide) : s.toMarkup.readable = true := by
  refine readable_nodeOrEmpty (by decide) rfl rfl fun m hm => ?_
  rcases List.mem_append.1 hm with hm | hm
  · obtain ⟨p, -, rfl⟩ := Option.map_eq_some_iff.1 (Option.mem_toList.1 hm)
    exact Point.readable_toMarkup rfl p
  · obtain ⟨c, -, rfl⟩ := List.mem_map.1 hm
    exact c.readable_toMarkup

@[simp] theorem OutputSide.readable_toMarkup (s : OutputSide) : s.toMarkup.readable = true := by
  refine readable_nodeOrEmpty (by decide) ?_ rfl fun m hm => ?_
  · simp [proper_toList_map _ fun s : String => s, Markup.isName]
  · obtain ⟨p, -, rfl⟩ := Option.map_eq_some_iff.1 (Option.mem_toList.1 hm)
    exact Point.readable_toMarkup rfl p

@[simp] theorem InputSource.readable_toMarkup (s : InputSource) : s.toMarkup.readable = true := by
  cases s with
  | connected side => exact side.readable_toMarkup
  | expression text => rfl

@[simp] theorem BlockInput.readable_toMarkup (i : BlockInput) : i.toMarkup.readable = true := by
  simp [toMarkup, Markup.readable, Markup.readableAll, Markup.isName, Markup.holdsText]

@[simp] theorem BlockOutput.readable_toMarkup (o : BlockOutput) : o.toMarkup.readable = true := by
  simp [toMarkup, Markup.readable, Markup.readableAll, Markup.isName, Markup.holdsText]

@[simp] theorem readable_position (g : Geometry) : (position g).readable = true :=
  Point.readable_toMarkup rfl g.position

/-- Every name is a fixed word, and text stands only in operands and expressions. -/
theorem Element.readable_toMarkup (e : Element) : e.toMarkup.readable = true := by
  cases e with
  | leftRail e =>
    simp [toMarkup, LeftRail.toMarkup, Markup.readable, Markup.readableAll, Markup.isName,
      Markup.holdsText]
  | rightRail e =>
    simp [toMarkup, RightRail.toMarkup, Markup.readable, Markup.readableAll, Markup.isName,
      Markup.holdsText]
  | block e =>
    simp [toMarkup, Block.toMarkup, proper_toList_map _ fun s : String => s, Markup.readable,
      Markup.readableAll, Markup.readableAll_eq, Markup.isName, Markup.holdsText]
  | contact e =>
    simp [toMarkup, Contact.toMarkup, Markup.readable, Markup.readableAll, Markup.isName,
      Markup.holdsText]
  | coil e =>
    simp [toMarkup, Coil.toMarkup, Markup.readable, Markup.readableAll, Markup.isName,
      Markup.holdsText]
  | inVariable e =>
    simp [toMarkup, InVariable.toMarkup, variableAttributes, Markup.readable, Markup.readableAll,
      Markup.isName, Markup.holdsText]
  | outVariable e =>
    simp [toMarkup, OutVariable.toMarkup, variableAttributes, Markup.readable, Markup.readableAll,
      Markup.isName, Markup.holdsText]

theorem readable_toMarkup (b : Body) : b.toMarkup.readable = true := by
  simp [toMarkup, Markup.readable, Markup.readableAll_eq, Element.readable_toMarkup,
    Markup.isName, Markup.holdsText]

end Body

theorem Pou.readable_toMarkup (p : Pou) : p.toMarkup.readable = true := by
  simp [toMarkup, Markup.readable, Markup.readableAll, p.body.readable_toMarkup, Markup.isName,
    Markup.holdsText]

/-- **Documents can be read back.** No text that is escaped holds a bracket or a quote. A reader of
tags finds in a document the element that the unit is written as, and in it the transcript of the
unit: its name and type, then its elements in the order of its body, each with all its data. Units
with different transcripts have different documents. -/
theorem read_markupDocument (p : Pou) :
    (∀ s : String, ∀ c ∈ (Markup.escape s).toList, c ∉ ['<', '>', '"', '\'']) ∧
      Markup.read p.markupDocument = some p.toMarkup ∧
      (Markup.read p.markupDocument).bind Transcript.ofMarkup? = some p.transcript ∧
      ∀ q : Pou, p.transcript ≠ q.transcript → p.markupDocument ≠ q.markupDocument := by
  have hread (p : Pou) : Markup.read p.markupDocument = some p.toMarkup :=
    Markup.read_document p.readable_toMarkup
  have htranscript (p : Pou) :
      (Markup.read p.markupDocument).bind Transcript.ofMarkup? = some p.transcript := by
    rw [hread, Option.bind_some, p.ofMarkup?_toMarkup]
  refine ⟨fun s c hc hm => Markup.not_mem_escape hm s hc, hread p, htranscript p, fun q hne h => ?_⟩
  have hsame := htranscript p
  rw [h, htranscript q] at hsame
  exact hne (Option.some.inj hsame).symm

/-- A unit whose name and operand look like markup. -/
def disguised : Pou where
  name := "p\" pouType=\"function"
  pouType := .program
  body := {
    contacts := [
      { localId := 1, geometry := ⟨Point.origin, 0, 0⟩, negated := false, edge := none, input := {},
        output := {}, operand := "a</variable><variable>b &amp; c" }] }

/-- It is read as it is, and not taken for a function of the name `p`. -/
theorem disguised_read :
    'l' ∈ (Markup.escape "<").toList ∧ 'l' ∉ ['<', '>', '"', '\''] ∧
      (Markup.read disguised.markupDocument).bind Transcript.ofMarkup? =
        some disguised.transcript ∧
      disguised.transcript ≠
        Pou.transcript { disguised with name := "p", pouType := .function } ∧
      disguised.markupDocument ≠
        Pou.markupDocument { disguised with name := "p", pouType := .function } := by
  obtain ⟨hescape, -, hread, hdiffer⟩ := read_markupDocument disguised
  have hl : 'l' ∈ (Markup.escape "<").toList := by decide
  have hne : disguised.transcript ≠
      Pou.transcript { disguised with name := "p", pouType := .function } := by
    intro h
    exact absurd (congrArg Transcript.pouType h) (by decide)
  exact ⟨hl, hescape "<" 'l' hl, hread, hne, hdiffer _ hne⟩

end LadderDiagram
