import LadderDiagram.Proofs.Snapshot.Reading
import LadderDiagram.Proofs.Snapshot.WholeNumber
import LadderDiagram.Proofs.Snapshot.Written

/-!
# Snapshots survive writing and reading

For each type of the graph its record is described by slots, one for each field, and so its reader
restores what is written. `NodeKind` is read by its tag first: whichever kind it is, the name leads
to the record that describes the other members (`reads_kind`). `Program.snapshots_survive` puts
this together with the numbers that are read back.
-/

namespace LadderDiagram

open Json

/-! ## Points and connectors -/

def Point.slots (p : Point) : List (Slot Point) := [
  .must "x" .same Reader.real (fun p x => { p with x }) .real p.x,
  .must "y" .same Reader.real (fun p y => { p with y }) .real p.y]

theorem Point.describes (p : Point) : Point.record.Describes p.slots 0 p where
  fields := rfl
  nodup := show ["x", "y"].Nodup by decide
  lawful := List.forall_iff_forall_mem.1 ⟨
    .must restores_real (by decide), .must restores_real (by decide)⟩
  commute := by simp [slots, Slot.must, Slot.ofReader]
  complete := rfl

theorem Point.restores : Restores Point.read 1 Point.toValue Point.form := fun p _ hs hf =>
  p.describes.reads hs hf

theorem Point.eq_origin {p : Point} (h : p.toValue = origin.toValue) : p = origin := by
  obtain ⟨x, y⟩ := p
  simp only [toValue, Value.object.injEq, List.cons.injEq, Prod.mk.injEq, Value.real.injEq,
    true_and, and_true] at h
  rw [h.1, h.2]

def Connector.slots (c : Connector) : List (Slot Connector) := [
  .must "id" .same Reader.text (fun c id => { c with id }) .text c.id,
  .may "relPosition" Point.origin.toValue Point.form Point.read
    (fun c relative => { c with relative }) Point.toValue c.relative,
  .may "glbPosition" Point.origin.toValue Point.form Point.read
    (fun c absolute => { c with absolute }) Point.toValue c.absolute]

theorem Connector.describes (c : Connector) : Connector.record.Describes c.slots 1 c where
  fields := rfl
  nodup := show ["id", "relPosition", "glbPosition"].Nodup by decide
  lawful := List.forall_iff_forall_mem.1 ⟨
    .must restores_text (by decide), .may Point.restores (by decide) Point.eq_origin rfl,
    .may Point.restores (by decide) Point.eq_origin rfl⟩
  commute := by simp [slots, Slot.must, Slot.may, Slot.ofReader]
  complete := rfl

theorem Connector.restores : Restores Connector.read 2 Connector.toValue Connector.form :=
  fun c _ hs hf => c.describes.reads hs hf

/-! ## Kinds of nodes -/

namespace NodeKind

section
variable {α : Type} [DecidableEq α] {names : List (String × α)} {r : Record (String × α)}
  {normal : α}

def operandSlots (names : List (String × α)) (operand : String) (variant : α) :
    List (Slot (String × α)) := [
  .may "variable" (.text "") .same Reader.text (fun c operand => (operand, c.2)) .text operand,
  .may "variant" (.text "default") .same (.variant names) (fun c variant => (c.1, variant))
    (fun v => .text (variantName names v)) variant]

theorem operand_describes (hfields : r.fields = (operandSlots names "" normal).map (·.field))
    (hinitial : r.initial = ("", normal))
    (hnames : ∀ v, names.lookup (variantName names v) = some v)
    (hnormal : variantName names normal = "default") (operand : String) (variant : α) :
    r.Describes (operandSlots names operand variant) 0 (operand, variant) where
  fields := hfields
  nodup := show ["variable", "variant"].Nodup by decide
  lawful := by
    rw [hinitial]
    exact List.forall_iff_forall_mem.1 ⟨.may restores_text (by decide) Value.text.inj rfl,
      .may (restores_variant hnames) (by decide)
        (fun h => eq_of_lookup hnames (h.trans (congrArg _ hnormal.symm))) rfl⟩
  commute := by simp [operandSlots, Slot.may, Slot.ofReader]
  complete := by
    rw [hinitial]
    rfl

end

theorem contact_describes (operand : String) (variant : ContactVariant) :
    contactRecord.Describes (operandSlots ContactVariant.names operand variant) 0
      (operand, variant) :=
  operand_describes rfl rfl (fun v => by cases v <;> rfl) rfl operand variant

theorem coil_describes (operand : String) (variant : CoilVariant) :
    coilRecord.Describes (operandSlots CoilVariant.names operand variant) 0 (operand, variant) :=
  operand_describes rfl rfl (fun v => by cases v <;> rfl) rfl operand variant

def markerSlots (field : String) (branch : Connector) : List (Slot Connector) := [
  .must field Connector.form Connector.read (fun _ branch => branch) Connector.toValue branch]

theorem marker_describes (title field : String) (branch : Connector) :
    (markerRecord title field).Describes (markerSlots field branch) 2 branch where
  fields := rfl
  nodup := show [field].Nodup by simp
  lawful := List.forall_iff_forall_mem.1 (Slot.Lawful.must Connector.restores (by decide))
  commute := by simp [markerSlots]
  complete := rfl

end NodeKind

def BlockData.slots (b : BlockData) : List (Slot BlockData) := [
  .must "typeName" .same Reader.text (fun b typeName => { b with typeName }) .text b.typeName,
  .may "instanceName" .null (.optional .same) (.optional Reader.text)
    (fun b instanceName => { b with instanceName }) (.ofOption .text) b.instanceName,
  .may "executionOrder" (.natural 0) .same Reader.word32
    (fun b executionOrder => { b with executionOrder }) (fun n => .natural n.toNat)
    b.executionOrder,
  .may "inputHandles" (.list []) (.list Connector.form) (.list Connector.read)
    (fun b inputs => { b with inputs }) (fun cs => .list (cs.map Connector.toValue)) b.inputs,
  .may "outputHandles" (.list []) (.list Connector.form) (.list Connector.read)
    (fun b outputs => { b with outputs }) (fun cs => .list (cs.map Connector.toValue)) b.outputs]

theorem BlockData.describes (b : BlockData) : BlockData.record.Describes b.slots 3 b where
  fields := rfl
  nodup :=
    show ["typeName", "instanceName", "executionOrder", "inputHandles", "outputHandles"].Nodup by
      decide
  lawful := List.forall_iff_forall_mem.1 ⟨
    .must restores_text (by decide),
    .may (restores_text.optional nofun nofun) (by decide) (eq_none_of_ofOption nofun) rfl,
    .may restores_word32 (by decide) eq_zero_of_natural rfl,
    .may Connector.restores.list (by decide) eq_nil_of_map rfl,
    .may Connector.restores.list (by decide) eq_nil_of_map rfl⟩
  commute := by simp [slots, Slot.must, Slot.may, Slot.ofReader]
  complete := rfl

def VariableData.slots (v : VariableData) : List (Slot VariableData) := [
  .may "name" (.text "") .same Reader.text (fun v name => { v with name }) .text v.name,
  .may "executionOrder" (.natural 0) .same Reader.word32
    (fun v executionOrder => { v with executionOrder }) (fun n => .natural n.toNat)
    v.executionOrder]

theorem VariableData.describes (v : VariableData) : VariableData.record.Describes v.slots 0 v where
  fields := rfl
  nodup := show ["name", "executionOrder"].Nodup by decide
  lawful := List.forall_iff_forall_mem.1 ⟨
    .may restores_text (by decide) Value.text.inj rfl,
    .may restores_word32 (by decide) eq_zero_of_natural rfl⟩
  commute := by simp [slots, Slot.may, Slot.ofReader]
  complete := rfl

namespace NodeKind

def bareRecord : Record Unit := ⟨"", (), []⟩

theorem bare_describes : bareRecord.Describes [] 0 () where
  fields := rfl
  nodup := .nil
  lawful := nofun
  commute := nofun
  complete := rfl

/-- The name of a kind stands beside its fields, none of which goes by the name `type`. -/
theorem type_not_mem_known (kind : String) : "type" ∉ (known kind).map (·.name) := by
  unfold known
  split <;> simp [Known.must, Known.may]

theorem reads_kind {α : Type} {r : Record α} {slots : List (Slot α)} {height : Nat} {a : α}
    (hd : r.Describes slots height a) (hh : height + 1 ≤ 4) {kind : String} {k : NodeKind}
    (hk : known kind = slots.map (·.known))
    (hread : ∀ content, r.read Tagged.scope (.object content .closed) = .ok a →
      ofTagged ⟨kind, .object content .closed⟩ = .ok k) {v : Value}
    (hs : (Value.object (("type", .text kind) :: slots.map (·.member))).EachReal ReadsBack)
    (hf : form (.object (("type", .text kind) :: slots.map (·.member))) v) :
    Reads NodeKind.read 4 k v := by
  have hnames : "type" ∉ slots.map (·.name) := by
    have hn := type_not_mem_known kind
    rwa [hk, List.map_map] at hn
  obtain ⟨htagged, hretain⟩ := hd.tagged hk hs hf hnames
  refine ⟨fun scope hd => ?_, fun depth hd => hretain depth (by omega)⟩
  obtain ⟨content, ht, hr⟩ := htagged "NodeKind" scope (by omega)
  rw [NodeKind.read, ht]
  exact hread content hr

theorem restores : Restores NodeKind.read 4 NodeKind.toValue NodeKind.form := by
  intro k v hs hf
  cases k with
  | leftRail | rightRail | unknown =>
    exact reads_kind bare_describes (by decide) rfl (fun _ _ => rfl) hs hf
  | contact operand variant =>
    refine reads_kind (contact_describes operand variant) (by decide) rfl ?_ hs hf
    intro content h
    simp only [ofTagged, h]
    rfl
  | coil operand variant =>
    refine reads_kind (coil_describes operand variant) (by decide) rfl ?_ hs hf
    intro content h
    simp only [ofTagged, h]
    rfl
  | block data =>
    refine reads_kind data.describes (by decide) rfl ?_ hs hf
    intro content h
    simp only [ofTagged, h]
    rfl
  | variableIn data | variableOut data =>
    refine reads_kind data.describes (by decide) rfl ?_ hs hf
    intro content h
    simp only [ofTagged, h]
    rfl
  | parallelOpen branch =>
    refine reads_kind (r := openRecord) (marker_describes _ _ branch) (by decide) rfl ?_ hs hf
    intro content h
    simp only [ofTagged, h]
    rfl
  | parallelClose branch =>
    refine reads_kind (r := closeRecord) (marker_describes _ _ branch) (by decide) rfl ?_ hs hf
    intro content h
    simp only [ofTagged, h]
    rfl

end NodeKind

/-! ## Nodes, edges and bindings -/

def Node.slots (n : Node) : List (Slot Node) := [
  .must "id" .same Reader.text (fun n id => { n with id }) .text n.id,
  .must "numericId" .same Reader.word64 (fun n numericId => { n with numericId })
    (fun id => .natural id.toNat) n.numericId,
  .may "position" Point.origin.toValue Point.form Point.read
    (fun n position => { n with position }) Point.toValue n.position,
  .may "width" (.real 0) .same Reader.real (fun n width => { n with width }) .real n.width,
  .may "height" (.real 0) .same Reader.real (fun n height => { n with height }) .real n.height,
  .may "inputConnector" .null (.optional Connector.form) (.optional Connector.read)
    (fun n input => { n with input }) (.ofOption Connector.toValue) n.input,
  .may "outputConnector" .null (.optional Connector.form) (.optional Connector.read)
    (fun n output => { n with output }) (.ofOption Connector.toValue) n.output,
  .must "kind" NodeKind.form NodeKind.read (fun n kind => { n with kind }) NodeKind.toValue n.kind]

theorem Connector.restores_optional :
    Restores (.optional Connector.read) 2 (.ofOption Connector.toValue)
      (.optional Connector.form) :=
  Connector.restores.optional nofun nofun

theorem Node.describes (n : Node) : Node.record.Describes n.slots 4 n where
  fields := rfl
  nodup :=
    show ["id", "numericId", "position", "width", "height", "inputConnector", "outputConnector",
      "kind"].Nodup by decide
  lawful := List.forall_iff_forall_mem.1 ⟨
    .must restores_text (by decide), .must restores_word64 (by decide),
    .may Point.restores (by decide) Point.eq_origin rfl,
    .may restores_real (by decide) Value.real.inj rfl,
    .may restores_real (by decide) Value.real.inj rfl,
    .may Connector.restores_optional (by decide) (eq_none_of_ofOption nofun) rfl,
    .may Connector.restores_optional (by decide) (eq_none_of_ofOption nofun) rfl,
    .must NodeKind.restores (by decide)⟩
  commute := by simp [slots, Slot.must, Slot.may, Slot.ofReader]
  complete := by simp [slots, Slot.must, Slot.may, Slot.ofReader]

theorem Node.restores : Restores Node.record.read 5 Node.toValue Node.form := fun n _ hs hf =>
  n.describes.reads hs hf

def Edge.slots (e : Edge) : List (Slot Edge) := [
  .must "source" .same Reader.text (fun e source => { e with source }) .text e.source,
  .must "sourceHandle" .same Reader.text (fun e sourceHandle => { e with sourceHandle }) .text
    e.sourceHandle,
  .must "target" .same Reader.text (fun e target => { e with target }) .text e.target,
  .must "targetHandle" .same Reader.text (fun e targetHandle => { e with targetHandle }) .text
    e.targetHandle]

theorem Edge.describes (e : Edge) : Edge.record.Describes e.slots 0 e where
  fields := rfl
  nodup := show ["source", "sourceHandle", "target", "targetHandle"].Nodup by decide
  lawful := List.forall_iff_forall_mem.1 ⟨
    .must restores_text (by decide), .must restores_text (by decide),
    .must restores_text (by decide), .must restores_text (by decide)⟩
  commute := by simp [slots, Slot.must, Slot.ofReader]
  complete := rfl

theorem Edge.restores : Restores Edge.record.read 1 Edge.toValue Edge.form := fun e _ hs hf =>
  e.describes.reads hs hf

def Binding.slots (b : Binding) : List (Slot Binding) := [
  .must "variable" .same Reader.text (fun b variableId => { b with variableId }) .text b.variableId,
  .must "block" .same Reader.text (fun b blockId => { b with blockId }) .text b.blockId,
  .must "handle" .same Reader.text (fun b handle => { b with handle }) .text b.handle]

theorem Binding.describes (b : Binding) : Binding.record.Describes b.slots 0 b where
  fields := rfl
  nodup := show ["variable", "block", "handle"].Nodup by decide
  lawful := List.forall_iff_forall_mem.1 ⟨
    .must restores_text (by decide), .must restores_text (by decide),
    .must restores_text (by decide)⟩
  commute := by simp [slots, Slot.must, Slot.ofReader]
  complete := rfl

theorem Binding.restores : Restores Binding.record.read 1 Binding.toValue Binding.form :=
  fun b _ hs hf => b.describes.reads hs hf

/-! ## Rungs and programs -/

def Rung.slots (r : Rung) : List (Slot Rung) := [
  .may "id" (.text "") .same Reader.text (fun r id => { r with id }) .text r.id,
  .may "nodes" (.list []) (.list Node.form) (.list Node.record.read)
    (fun r nodes => { r with nodes }) (fun ns => .list (ns.map Node.toValue)) r.nodes,
  .may "edges" (.list []) (.list Edge.form) (.list Edge.record.read)
    (fun r edges => { r with edges }) (fun es => .list (es.map Edge.toValue)) r.edges,
  .may "bindings" (.list []) (.list Binding.form) (.list Binding.record.read)
    (fun r bindings => { r with bindings }) (fun bs => .list (bs.map Binding.toValue)) r.bindings,
  .may "viewportHeight" (.real 0) .same Reader.real (fun r height => { r with height }) .real
    r.height]

theorem Rung.describes (r : Rung) : Rung.record.Describes r.slots 6 r where
  fields := rfl
  nodup := show ["id", "nodes", "edges", "bindings", "viewportHeight"].Nodup by decide
  lawful := List.forall_iff_forall_mem.1 ⟨
    .may restores_text (by decide) Value.text.inj rfl,
    .may Node.restores.list (by decide) eq_nil_of_map rfl,
    .may Edge.restores.list (by decide) eq_nil_of_map rfl,
    .may Binding.restores.list (by decide) eq_nil_of_map rfl,
    .may restores_real (by decide) Value.real.inj rfl⟩
  commute := by simp [slots, Slot.may, Slot.ofReader]
  complete := rfl

theorem Rung.restores : Restores Rung.record.read 7 Rung.toValue Rung.form := fun r _ hs hf =>
  r.describes.reads hs hf

theorem PouType.lookup_names (t : PouType) : PouType.names.lookup t.name = some t := by
  cases t <;> rfl

def Program.slots (p : Program) : List (Slot Program) := [
  .must "name" .same Reader.text (fun p name => { p with name }) .text p.name,
  .may "pouType" (.text "program") .same (.variant PouType.names)
    (fun p pouType => { p with pouType }) (fun t => .text t.name) p.pouType,
  .may "rungs" (.list []) (.list Rung.form) (.list Rung.record.read)
    (fun p rungs => { p with rungs }) (fun rs => .list (rs.map Rung.toValue)) p.rungs]

theorem Program.describes (p : Program) : Program.record.Describes p.slots 8 p where
  fields := rfl
  nodup := show ["name", "pouType", "rungs"].Nodup by decide
  lawful := List.forall_iff_forall_mem.1 ⟨
    .must restores_text (by decide),
    .may (restores_variant PouType.lookup_names) (by decide)
      (fun h => eq_of_lookup PouType.lookup_names (b := .program) h) rfl,
    .may Rung.restores.list (by decide) eq_nil_of_map rfl⟩
  commute := by simp [slots, Slot.must, Slot.may, Slot.ofReader]
  complete := rfl

/-- A text that presents a program is read as the program. -/
theorem Program.parse_of_presents {p : Program} (hp : ∀ x ∈ p.toValue.reals, ReadsBack x)
    {v : Value} (hv : p.Presents v) {s : String} (hs : v.Spells s) :
    Program.parse s = .ok p := by
  have hreads := p.describes.reads hp hv
  rw [Program.parse, Json.read, ofText_spells hs]
  show (Program.record.read .top v.tree >>= _) = _
  rw [hreads.read_eq .top (by decide)]
  rfl

theorem Program.parse_compact {p : Program} (hp : ∀ x ∈ p.toValue.reals, ReadsBack x) :
    Program.parse p.toValue.compact = .ok p :=
  parse_of_presents hp p.presents_toValue p.toValue.spells_compact

/-- **Snapshots survive writing and reading**, whatever their presentation: with the members of
their objects in any order, without some that hold their default, with others of unknown names, and
with white space between the lexemes. All that is asked is that each binary number in the program is
read back by itself, as every integer up to `10 ^ 14` is. -/
theorem Program.snapshots_survive :
    (∀ k : Int, k.natAbs ≤ 10 ^ 14 → ReadsBack (Float.ofInt k)) ∧
      ∀ p : Program, (∀ x ∈ p.toValue.reals, ReadsBack x) →
        ∀ v, p.Presents v → ∀ s : String, v.Spells s → Program.parse s = .ok p :=
  ⟨fun _ hk => readsBack_ofInt hk, fun _ hp _ hv _ hs => parse_of_presents hp hv hs⟩

/-- A contact with an input, with all objects back to front, defaults left out, and members of
unknown names put in. -/
theorem Program.parse_backwards :
    ReadsBack (Float.ofInt (-99999999999999)) ∧
    Program.parse (
      "\n\x7b\"zoom\" : true, " ++ "\"rungs\":[ \x7b\"nodes\":[" ++
      "\x7b\"kind\":\x7b\"note\":null," ++ "\"variant\":\"risingEdge\"," ++
      "\"variable\":\"\\\"é\\n\"," ++ "\"type\":\"contact\"\x7d ," ++
      "\"inputConnector\":" ++ "\x7b\"relPosition\":\x7b\"y\":" ++ "-2.0,\t\"x\":3.0\x7d," ++
      "\"id\":\"in\"\x7d,\"width\":" ++ "24.5,\"numericId\":" ++ "18446744073709551615," ++
      "\"id\":\"n1\"\x7d ]\x7d]," ++ "\"pouType\":\"function\"," ++ "\"name\":\"pump\"\r\n\x7d\n") =
      .ok { name := "pump", pouType := .function,
            rungs := [{ nodes := [
              { id := "n1", numericId := 18446744073709551615, width := 24.5,
                input := some { id := "in", relative := ⟨3, -2⟩ },
                kind := .contact "\"é\n" .risingEdge }] }] } := by
  constructor
  · exact snapshots_survive.1 _ (by decide)
  · refine snapshots_survive.2 _ ?_
      (.object [("zoom", .boolean true), ("rungs", .list [.object [("nodes", .list [.object [
        ("kind", .object [("note", .null), ("variant", .text "risingEdge"),
          ("variable", .text "\"é\n"), ("type", .text "contact")]),
        ("inputConnector", .object [("relPosition", .object [("y", .real (-2)), ("x", .real 3)]),
          ("id", .text "in")]),
        ("width", .real 24.5), ("numericId", .natural 18446744073709551615),
        ("id", .text "n1")]])]]),
        ("pouType", .text "function"), ("name", .text "pump")]) ?_ _ ?_
    · show ∀ x ∈ [0, 0, 24.5, 0, 3, -2, 0, 0, (0 : Float)], ReadsBack x
      simp only [List.forall_mem_cons, List.not_mem_nil, false_imp_iff, implies_true, and_true,
        ReadsBack]
      decide +kernel
    · have hpoint : Point.form (Point.toValue ⟨3, -2⟩)
          (.object [("y", .real (-2)), ("x", .real 3)]) :=
        ⟨_, _, _, rfl, rfl, .keep rfl (.keep rfl .nil), .of_reverse [] (by decide) rfl⟩
      have hconnector : Connector.form (Connector.toValue { id := "in", relative := ⟨3, -2⟩ })
          (.object [("relPosition", .object [("y", .real (-2)), ("x", .real 3)]),
            ("id", .text "in")]) :=
        ⟨_, _, _, rfl, rfl, .keep rfl (.keep hpoint (.drop rfl .nil)),
          .of_reverse [] (by decide) rfl⟩
      have hkind : NodeKind.form (NodeKind.toValue (.contact "\"é\n" .risingEdge))
          (.object [("note", .null), ("variant", .text "risingEdge"),
            ("variable", .text "\"é\n"), ("type", .text "contact")]) :=
        ⟨"contact", _, _, _, rfl, rfl, .keep rfl (.keep rfl .nil),
          .of_reverse [("note", .null)] (by decide) rfl⟩
      refine ⟨_, _, _, rfl, rfl, .keep rfl (.keep rfl (.keep ⟨_, _, rfl, rfl, .cons ?_ .nil⟩ .nil)),
        .of_reverse [("zoom", .boolean true)] (by decide) rfl⟩
      refine ⟨_, _, _, rfl, rfl, .drop rfl (.keep ⟨_, _, rfl, rfl, .cons ?_ .nil⟩
        (.drop rfl (.drop rfl (.drop rfl .nil)))), .of_reverse [] (by decide) rfl⟩
      exact ⟨_, _, _, rfl, rfl, .keep rfl (.keep rfl (.drop rfl (.keep rfl (.drop rfl
        (.keep (.inr ⟨by rintro ⟨⟩, hconnector⟩) (.drop rfl (.keep hkind .nil))))))),
        .of_reverse [] (by decide) rfl⟩
    · apply Spaced.of_isSpaced
      simp only [String.toList_append]
      decide +kernel

end LadderDiagram
