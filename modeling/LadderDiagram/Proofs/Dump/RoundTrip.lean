import LadderDiagram.Export.Codec
import LadderDiagram.Proofs.Dump.Layout
import LadderDiagram.Proofs.Dump.Reader
import LadderDiagram.Proofs.Snapshot.Document

/-!
# Units are found again in their documents

The document of a unit whose numbers are finite is read back as the unit (`Pou.dump_determines`), so
different units have different documents. Each type has its law (`Inverts`), which follows from the
laws of its fields.
-/

namespace LadderDiagram

open Json

namespace Json

variable {α : Type}

/-- The decoder finds every value in the document that is written for it, if the numbers in the
document are finite. -/
def Inverts (decoder : Decoder α) (toValue : α → Value) : Prop :=
  ∀ a, (toValue a).EachReal (·.isFinite) → decoder (toValue a).tree = some a

theorem toOption_decode_ofText (s : String) : (Quoted.ofText s).decode.toOption = some s := by
  rw [Quoted.decode_ofText]
  rfl

namespace Inverts

theorem text : Inverts .text .text := fun s _ => toOption_decode_ofText s

theorem boolean : Inverts .boolean .boolean := fun _ _ => rfl

theorem natural_tree (n : Nat) : Decoder.natural (Value.natural n).tree = some n :=
  congrArg some (Numeral.digitsValue_digitsOf n)

theorem word64 : Inverts .word64 fun n => .natural n.toNat := by
  intro n _
  rw [Decoder.word64, natural_tree]
  simp [n.toNat_lt]

theorem word32 : Inverts .word32 fun n => .natural n.toNat := by
  intro n _
  rw [Decoder.word32, natural_tree]
  simp [n.toNat_lt]

theorem real : Inverts .real .real := by
  intro x h
  obtain ⟨n, hn, htokens⟩ := exists_numeral (h x List.mem_cons_self)
  have hall := htokens [] stops_nil
  rw [List.append_nil] at hall
  rw [Value.tree, Document.ofText, hall, ofTokens_scalar, Decoder.real, hn]

theorem named {name : α → String} {values : List α}
    (h : ∀ a, ofName? name values (name a) = some a) :
    Inverts (.named name values) fun a => .text (name a) := by
  intro a _
  show (Quoted.ofText (name a)).decode.toOption >>= _ = _
  rw [toOption_decode_ofText]
  exact h a

theorem list {decoder : Decoder α} {toValue : α → Value} (h : Inverts decoder toValue) :
    Inverts (.list decoder) fun as => .list (as.map toValue) := by
  intro as hfinite
  have heach := Value.eachReal_list.1 hfinite
  show (Value.itemTrees (as.map toValue)).mapM decoder = some as
  clear hfinite
  induction as with
  | nil => rfl
  | cons a as ih =>
    obtain ⟨hfirst, hrest⟩ := List.forall_mem_cons.1 heach
    rw [List.map_cons, Value.itemTrees, List.mapM_cons, h a hfirst, ih hrest]
    rfl

end Inverts

/-! ## Members -/

def membersOf (ms : List (String × Value)) : Members := ms.map fun m => (m.1, m.2.tree)

theorem members_object (ms : List (String × Value)) :
    Decoder.members (Value.object ms).tree = some (membersOf ms) := by
  show (Value.memberTrees ms).mapM _ = _
  induction ms with
  | nil => rfl
  | cons m ms ih =>
    rw [Value.memberTrees, List.mapM_cons, ih]
    simp only [toOption_decode_ofText]
    rfl

theorem filter_membersOf (name : String) (ms : List (String × Value)) :
    (membersOf ms).filter (·.1 = name) = membersOf (ms.filter (·.1 = name)) := by
  rw [membersOf, List.filter_map]
  rfl

@[simp] theorem filter_optionalMember (name key : String) (f : α → Value) (o : Option α) :
    (optionalMember name f o).filter (·.1 = key) =
      if name = key then optionalMember name f o else [] := by
  cases o with
  | none => simp [optionalMember]
  | some a => by_cases h : name = key <;> simp [optionalMember, h]

section
variable {decoder : Decoder α} {toValue : α → Value} (h : Inverts decoder toValue) (name : String)
  {ms : List (String × Value)} (hfinite : (Value.object ms).EachReal (·.isFinite))
include h hfinite

theorem Inverts.must {a : α} (hm : ms.filter (·.1 = name) = [(name, toValue a)]) :
    (membersOf ms).must name decoder = some a := by
  have hmem : (name, toValue a) ∈ ms := List.mem_of_mem_filter (hm ▸ List.mem_singleton_self _)
  rw [Members.must, filter_membersOf, hm]
  exact h a (Value.eachReal_object.1 hfinite _ hmem)

theorem Inverts.may {o : Option α}
    (hm : ms.filter (·.1 = name) = optionalMember name toValue o) :
    (membersOf ms).may name decoder = some o := by
  rw [Members.may, filter_membersOf, hm]
  cases o with
  | none => rfl
  | some a =>
    have hmem : (name, toValue a) ∈ ms.filter (·.1 = name) := hm ▸ List.mem_singleton_self _
    have hmem := List.mem_of_mem_filter hmem
    exact congrArg (Option.map some) (h a (Value.eachReal_object.1 hfinite _ hmem))

end

end Json

/-! ## Types of a unit -/

theorem Point.inverts : Inverts Point.ofTree? Point.toValue := by
  intro p h
  have hx := Inverts.real.must "x" (a := p.x) h (by simp)
  have hy := Inverts.real.must "y" (a := p.y) h (by simp)
  rw [ofTree?, toValue, members_object]
  simp only [Option.bind_eq_bind, Option.bind_some, hx, hy]
  rfl

namespace Body

theorem Connection.inverts : Inverts Connection.ofTree? Connection.toValue := by
  intro c h
  have hid := Inverts.word64.must "refLocalId" (a := c.refLocalId) h (by simp)
  have hpin := Inverts.text.may "formalParameter" (o := c.formalParameter) h (by simp)
  have hpoints := Point.inverts.list.must "points" (a := c.points) h (by simp)
  rw [ofTree?, toValue, members_object]
  simp only [Option.bind_eq_bind, Option.bind_some, hid, hpin, hpoints]
  rfl

theorem InputSide.inverts : Inverts InputSide.ofTree? InputSide.toValue := by
  intro s h
  have hrelative := Point.inverts.may "relPosition" (o := s.relPosition) h (by simp)
  have hconnections := Connection.inverts.list.must "connections" (a := s.connections) h (by simp)
  rw [ofTree?, toValue, members_object]
  simp only [Option.bind_eq_bind, Option.bind_some, hrelative, hconnections]
  rfl

theorem OutputSide.inverts : Inverts OutputSide.ofTree? OutputSide.toValue := by
  intro s h
  have hpin := Inverts.text.may "formalParameter" (o := s.formalParameter) h (by simp)
  have hrelative := Point.inverts.may "relPosition" (o := s.relPosition) h (by simp)
  rw [ofTree?, toValue, members_object]
  simp only [Option.bind_eq_bind, Option.bind_some, hpin, hrelative]
  rfl

theorem Geometry.inverts : Inverts Geometry.ofTree? Geometry.toValue := by
  intro g h
  have hposition := Point.inverts.must "position" (a := g.position) h (by simp)
  have hwidth := Inverts.real.must "width" (a := g.width) h (by simp)
  have hheight := Inverts.real.must "height" (a := g.height) h (by simp)
  rw [ofTree?, toValue, members_object]
  simp only [Option.bind_eq_bind, Option.bind_some, hposition, hwidth, hheight]
  rfl

theorem EdgeModifier.inverts : Inverts EdgeModifier.ofTree? fun m => .text m.name :=
  Inverts.named fun m => by cases m <;> rfl

theorem StorageModifier.inverts : Inverts StorageModifier.ofTree? fun m => .text m.name :=
  Inverts.named fun m => by cases m <;> rfl

theorem LeftRail.inverts : Inverts LeftRail.ofTree? LeftRail.toValue := by
  intro e h
  have hid := Inverts.word64.must "localId" (a := e.localId) h (by simp [placeMembers])
  have hgeometry := Geometry.inverts.must "geometry" (a := e.geometry) h (by simp [placeMembers])
  have houtput := OutputSide.inverts.must "connectionPointOut" (a := e.output) h
    (by simp [placeMembers])
  rw [ofTree?, toValue, members_object]
  simp only [Option.bind_eq_bind, Option.bind_some, hid, hgeometry, houtput]
  rfl

theorem RightRail.inverts : Inverts RightRail.ofTree? RightRail.toValue := by
  intro e h
  have hid := Inverts.word64.must "localId" (a := e.localId) h (by simp [placeMembers])
  have hgeometry := Geometry.inverts.must "geometry" (a := e.geometry) h (by simp [placeMembers])
  have hinput := InputSide.inverts.must "connectionPointIn" (a := e.input) h
    (by simp [placeMembers])
  rw [ofTree?, toValue, members_object]
  simp only [Option.bind_eq_bind, Option.bind_some, hid, hgeometry, hinput]
  rfl

theorem Contact.inverts : Inverts Contact.ofTree? Contact.toValue := by
  intro e h
  have hid := Inverts.word64.must "localId" (a := e.localId) h (by simp [placeMembers])
  have hgeometry := Geometry.inverts.must "geometry" (a := e.geometry) h (by simp [placeMembers])
  have hnegated := Inverts.boolean.must "negated" (a := e.negated) h (by simp [placeMembers])
  have hedge := EdgeModifier.inverts.may "edge" (o := e.edge) h (by simp [placeMembers])
  have hinput := InputSide.inverts.must "connectionPointIn" (a := e.input) h
    (by simp [placeMembers])
  have houtput := OutputSide.inverts.must "connectionPointOut" (a := e.output) h
    (by simp [placeMembers])
  have hoperand := Inverts.text.must "variable" (a := e.operand) h (by simp [placeMembers])
  rw [ofTree?, toValue, members_object]
  simp only [Option.bind_eq_bind, Option.bind_some, hid, hgeometry, hnegated, hedge, hinput,
    houtput, hoperand]
  rfl

theorem Coil.inverts : Inverts Coil.ofTree? Coil.toValue := by
  intro e h
  have hid := Inverts.word64.must "localId" (a := e.localId) h (by simp [placeMembers])
  have hgeometry := Geometry.inverts.must "geometry" (a := e.geometry) h (by simp [placeMembers])
  have hnegated := Inverts.boolean.must "negated" (a := e.negated) h (by simp [placeMembers])
  have hedge := EdgeModifier.inverts.may "edge" (o := e.edge) h (by simp [placeMembers])
  have hstorage := StorageModifier.inverts.may "storage" (o := e.storage) h (by simp [placeMembers])
  have hinput := InputSide.inverts.must "connectionPointIn" (a := e.input) h
    (by simp [placeMembers])
  have houtput := OutputSide.inverts.must "connectionPointOut" (a := e.output) h
    (by simp [placeMembers])
  have hoperand := Inverts.text.must "variable" (a := e.operand) h (by simp [placeMembers])
  rw [ofTree?, toValue, members_object]
  simp only [Option.bind_eq_bind, Option.bind_some, hid, hgeometry, hnegated, hedge, hstorage,
    hinput, houtput, hoperand]
  rfl

theorem InputSource.inverts : Inverts InputSource.ofTree? InputSource.toValue := by
  intro s h
  cases s with
  | connected side =>
    have hside := InputSide.inverts side (Value.eachReal_object.1 h _ List.mem_cons_self)
    rw [ofTree?, toValue, members_object]
    show (InputSide.ofTree? side.toValue.tree >>= fun side => some (connected side)) = _
    rw [hside]
    rfl
  | expression text =>
    have htext := Inverts.text text (Value.eachReal_object.1 h _ List.mem_cons_self)
    rw [ofTree?, toValue, members_object]
    show (Decoder.text (Value.text text).tree >>= fun text => some (expression text)) = _
    rw [htext]
    rfl

theorem BlockInput.inverts : Inverts BlockInput.ofTree? BlockInput.toValue := by
  intro i h
  have hpin := Inverts.text.must "formalParameter" (a := i.formalParameter) h (by simp)
  have hsource := InputSource.inverts.must "source" (a := i.source) h (by simp)
  rw [ofTree?, toValue, members_object]
  simp only [Option.bind_eq_bind, Option.bind_some, hpin, hsource]
  rfl

theorem BlockOutput.inverts : Inverts BlockOutput.ofTree? BlockOutput.toValue := by
  intro o h
  have hpin := Inverts.text.must "formalParameter" (a := o.formalParameter) h (by simp)
  have houtput := OutputSide.inverts.must "connectionPointOut" (a := o.output) h (by simp)
  rw [ofTree?, toValue, members_object]
  simp only [Option.bind_eq_bind, Option.bind_some, hpin, houtput]
  rfl

theorem Block.inverts : Inverts Block.ofTree? Block.toValue := by
  intro e h
  have hid := Inverts.word64.must "localId" (a := e.localId) h (by simp)
  have htype := Inverts.text.must "typeName" (a := e.typeName) h (by simp)
  have hinstance := Inverts.text.may "instanceName" (o := e.instanceName) h (by simp)
  have horder := Inverts.word32.must "executionOrderId" (a := e.executionOrder) h (by simp)
  have hgeometry := Geometry.inverts.must "geometry" (a := e.geometry) h (by simp)
  have hinputs := BlockInput.inverts.list.must "inputVariables" (a := e.inputs) h (by simp)
  have houtputs := BlockOutput.inverts.list.must "outputVariables" (a := e.outputs) h (by simp)
  rw [ofTree?, toValue, members_object]
  simp only [Option.bind_eq_bind, Option.bind_some, hid, htype, hinstance, horder, hgeometry,
    hinputs, houtputs]
  rfl

theorem InVariable.inverts : Inverts InVariable.ofTree? InVariable.toValue := by
  intro e h
  have hid := Inverts.word64.must "localId" (a := e.localId) h (by simp [placeMembers])
  have hgeometry := Geometry.inverts.must "geometry" (a := e.geometry) h (by simp [placeMembers])
  have hnegated := Inverts.boolean.must "negated" (a := e.negated) h (by simp [placeMembers])
  have horder := Inverts.word32.must "executionOrderId" (a := e.executionOrder) h
    (by simp [placeMembers])
  have houtput := OutputSide.inverts.must "connectionPointOut" (a := e.output) h
    (by simp [placeMembers])
  have hexpression := Inverts.text.must "expression" (a := e.expression) h (by simp [placeMembers])
  rw [ofTree?, toValue, members_object]
  simp only [Option.bind_eq_bind, Option.bind_some, hid, hgeometry, hnegated, horder, houtput,
    hexpression]
  rfl

theorem OutVariable.inverts : Inverts OutVariable.ofTree? OutVariable.toValue := by
  intro e h
  have hid := Inverts.word64.must "localId" (a := e.localId) h (by simp [placeMembers])
  have hgeometry := Geometry.inverts.must "geometry" (a := e.geometry) h (by simp [placeMembers])
  have hnegated := Inverts.boolean.must "negated" (a := e.negated) h (by simp [placeMembers])
  have horder := Inverts.word32.must "executionOrderId" (a := e.executionOrder) h
    (by simp [placeMembers])
  have hinput := InputSide.inverts.must "connectionPointIn" (a := e.input) h
    (by simp [placeMembers])
  have hexpression := Inverts.text.must "expression" (a := e.expression) h (by simp [placeMembers])
  rw [ofTree?, toValue, members_object]
  simp only [Option.bind_eq_bind, Option.bind_some, hid, hgeometry, hnegated, horder, hinput,
    hexpression]
  rfl

theorem inverts : Inverts Body.ofTree? Body.toValue := by
  intro b h
  have hlefts := LeftRail.inverts.list.must "leftPowerRails" (a := b.leftRails) h (by simp)
  have hrights := RightRail.inverts.list.must "rightPowerRails" (a := b.rightRails) h (by simp)
  have hblocks := Block.inverts.list.must "blocks" (a := b.blocks) h (by simp)
  have hcontacts := Contact.inverts.list.must "contacts" (a := b.contacts) h (by simp)
  have hcoils := Coil.inverts.list.must "coils" (a := b.coils) h (by simp)
  have hins := InVariable.inverts.list.must "inVariables" (a := b.inVariables) h (by simp)
  have houts := OutVariable.inverts.list.must "outVariables" (a := b.outVariables) h (by simp)
  rw [ofTree?, toValue, members_object]
  simp only [Option.bind_eq_bind, Option.bind_some, hlefts, hrights, hblocks, hcontacts, hcoils,
    hins, houts]
  rfl

end Body

namespace Pou

theorem inverts : Inverts Pou.ofTree? Pou.toValue := by
  intro p h
  have hnamed : Inverts (.named PouType.name [.program, .function, .functionBlock])
      fun t => .text t.name := Inverts.named fun t => by cases t <;> rfl
  have hname := Inverts.text.must "name" (a := p.name) h (by simp)
  have htype := hnamed.must "pouType" (a := p.pouType) h (by simp)
  have hbody := Body.inverts.must "body" (a := p.body) h (by simp)
  rw [ofTree?, toValue, members_object]
  simp only [Option.bind_eq_bind, Option.bind_some, hname, htype, hbody]
  rfl

/-- A text that spells the document of a unit is read as the unit. -/
theorem ofText?_spells {p : Pou} (hp : p.toValue.EachReal (·.isFinite)) {s : String}
    (hs : p.toValue.Spells s) : ofText? s = some p := by
  rw [ofText?, ofText_spells hs]
  exact p.inverts hp

/-- **The document of a unit determines the unit**: read as a document, its members taken by their
names, it gives the unit back, and two units with the same document are the same. All that is asked
is that the numbers in the units are finite. -/
theorem dump_determines :
    (∀ p : Pou, (∀ x ∈ p.toValue.reals, x.isFinite) →
      ofText? (Codec.json.encode p) = some p) ∧
    ∀ p q : Pou, (∀ x ∈ p.toValue.reals, x.isFinite) → (∀ x ∈ q.toValue.reals, x.isFinite) →
      Codec.json.encode p = Codec.json.encode q → p = q := by
  have hread (p : Pou) (hp : ∀ x ∈ p.toValue.reals, x.isFinite) :
      ofText? (Codec.json.encode p) = some p := ofText?_spells hp (p.toValue.spells_pretty 0)
  refine ⟨hread, fun p q hp hq h => ?_⟩
  have hpq := hread p hp
  rw [h, hread q hq] at hpq
  exact (Option.some.inj hpq).symm

/-- A block and a coil behind it, which cites the given pin of the block. -/
def blockAndCoil (pin : Option String) : Pou where
  name := "\"pump\" é\n"
  pouType := .functionBlock
  body := {
    leftRails := [
      { localId := 1, geometry := ⟨⟨-0.0, 0.1⟩, 3, 1e300⟩
        output := { relPosition := some ⟨3, 5e-324⟩ } }]
    blocks := [
      { localId := 18446744073709551615, typeName := "TON", instanceName := none
        executionOrder := 0, geometry := ⟨⟨100, 1e-7⟩, 60, 123456789012345680⟩
        inputs := [
          { formalParameter := "IN"
            source := .connected { connections := [{ refLocalId := 1, points := [] }] } },
          { formalParameter := "PT", source := .expression "T#5s\x07" }]
        outputs := [{ formalParameter := "Q", output := {} }] }]
    coils := [
      { localId := 3, geometry := ⟨⟨0, 0⟩, 0, 0⟩, negated := true, edge := none
        storage := some .reset
        input := {
          connections := [
            { refLocalId := 18446744073709551615, formalParameter := pin, points := [⟨1, 2⟩] }] }
        output := {}, operand := "" }] }

/-- No pin is told from a pin without a name. -/
theorem blockAndCoil_dump :
    ofText? (Codec.json.encode (blockAndCoil (some "Q"))) = some (blockAndCoil (some "Q")) ∧
      Codec.json.encode (blockAndCoil none) ≠ Codec.json.encode (blockAndCoil (some "")) := by
  have hfinite : ∀ pin ∈ [none, some "", some "Q"],
      ∀ x ∈ (blockAndCoil pin).toValue.reals, x.isFinite := by decide +kernel
  refine ⟨dump_determines.1 _ (hfinite _ (by simp)), fun h => ?_⟩
  have heq := dump_determines.2 _ _ (hfinite none (by simp)) (hfinite (some "") (by simp)) h
  cases heq

end Pou

end LadderDiagram
