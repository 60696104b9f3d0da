import LadderDiagram.Body.Basic
import LadderDiagram.Proofs.Decimal.Printed
import LadderDiagram.Proofs.Markup.Transcript

/-!
# Units in documents

A plain reader of program units. A `Decoder` takes what a part of a document stands for from its
tree. A record is read member by member, each looked up by its name, whatever the order and whatever
else there is; a member that must be there is there once, and one that may be there stands for an
optional value, which is none where the member is absent. Numbers are read to the nearest number.
-/

namespace LadderDiagram

namespace Json

variable {α : Type}

/-- A way to find a value of one type in a tree. -/
abbrev Decoder (α : Type) : Type := Tree → Option α

abbrev Members : Type := List (String × Tree)

namespace Decoder

def text : Decoder String
  | .scalar (.text q) => q.decode.toOption
  | _ => none

def boolean : Decoder Bool
  | .scalar (.boolean b) => some b
  | _ => none

def natural : Decoder Nat
  | .scalar (.number ⟨false, whole, [], none⟩) => some (digitsValue whole)
  | _ => none

def word64 : Decoder UInt64 := fun t => do
  let n ← natural t
  guard (n < UInt64.size)
  return .ofNat n

def word32 : Decoder UInt32 := fun t => do
  let n ← natural t
  guard (n < UInt32.size)
  return .ofNat n

def real : Decoder Float
  | .scalar (.number n) => some n.nearest
  | _ => none

def named (name : α → String) (values : List α) : Decoder α := fun t => do
  ofName? name values (← text t)

def list (item : Decoder α) : Decoder (List α)
  | .list items .closed => items.mapM item
  | _ => none

def members : Decoder Members
  | .object ms .closed => ms.mapM fun m => do return (← m.1.decode.toOption, m.2)
  | _ => none

end Decoder

namespace Members

def must (ms : Members) (name : String) (decoder : Decoder α) : Option α :=
  match ms.filter (·.1 = name) with
  | [m] => decoder m.2
  | _ => none

def may (ms : Members) (name : String) (decoder : Decoder α) : Option (Option α) :=
  match ms.filter (·.1 = name) with
  | [] => some none
  | [m] => (decoder m.2).map some
  | _ => none

end Members

end Json

open Json (Decoder Document)

def Point.ofTree? : Decoder Point := fun t => do
  let ms ← Decoder.members t
  return ⟨← ms.must "x" .real, ← ms.must "y" .real⟩

namespace Body

def Connection.ofTree? : Decoder Connection := fun t => do
  let ms ← Decoder.members t
  return {
    refLocalId := ← ms.must "refLocalId" .word64
    formalParameter := ← ms.may "formalParameter" .text
    points := ← ms.must "points" (.list Point.ofTree?) }

def InputSide.ofTree? : Decoder InputSide := fun t => do
  let ms ← Decoder.members t
  return {
    relPosition := ← ms.may "relPosition" Point.ofTree?
    connections := ← ms.must "connections" (.list Connection.ofTree?) }

def OutputSide.ofTree? : Decoder OutputSide := fun t => do
  let ms ← Decoder.members t
  return {
    formalParameter := ← ms.may "formalParameter" .text
    relPosition := ← ms.may "relPosition" Point.ofTree? }

def Geometry.ofTree? : Decoder Geometry := fun t => do
  let ms ← Decoder.members t
  return {
    position := ← ms.must "position" Point.ofTree?
    width := ← ms.must "width" .real
    height := ← ms.must "height" .real }

def EdgeModifier.ofTree? : Decoder EdgeModifier := .named name [.rising, .falling]

def StorageModifier.ofTree? : Decoder StorageModifier := .named name [.set, .reset]

def LeftRail.ofTree? : Decoder LeftRail := fun t => do
  let ms ← Decoder.members t
  return {
    localId := ← ms.must "localId" .word64
    geometry := ← ms.must "geometry" Geometry.ofTree?
    output := ← ms.must "connectionPointOut" OutputSide.ofTree? }

def RightRail.ofTree? : Decoder RightRail := fun t => do
  let ms ← Decoder.members t
  return {
    localId := ← ms.must "localId" .word64
    geometry := ← ms.must "geometry" Geometry.ofTree?
    input := ← ms.must "connectionPointIn" InputSide.ofTree? }

def Contact.ofTree? : Decoder Contact := fun t => do
  let ms ← Decoder.members t
  return {
    localId := ← ms.must "localId" .word64
    geometry := ← ms.must "geometry" Geometry.ofTree?
    negated := ← ms.must "negated" .boolean
    edge := ← ms.may "edge" EdgeModifier.ofTree?
    input := ← ms.must "connectionPointIn" InputSide.ofTree?
    output := ← ms.must "connectionPointOut" OutputSide.ofTree?
    operand := ← ms.must "variable" .text }

def Coil.ofTree? : Decoder Coil := fun t => do
  let ms ← Decoder.members t
  return {
    localId := ← ms.must "localId" .word64
    geometry := ← ms.must "geometry" Geometry.ofTree?
    negated := ← ms.must "negated" .boolean
    edge := ← ms.may "edge" EdgeModifier.ofTree?
    storage := ← ms.may "storage" StorageModifier.ofTree?
    input := ← ms.must "connectionPointIn" InputSide.ofTree?
    output := ← ms.must "connectionPointOut" OutputSide.ofTree?
    operand := ← ms.must "variable" .text }

/-- The only key tells what the source is. -/
def InputSource.ofTree? : Decoder InputSource := fun t => do
  match ← Decoder.members t with
  | [("connected", side)] => return .connected (← InputSide.ofTree? side)
  | [("expression", text)] => return .expression (← Decoder.text text)
  | _ => none

def BlockInput.ofTree? : Decoder BlockInput := fun t => do
  let ms ← Decoder.members t
  return {
    formalParameter := ← ms.must "formalParameter" .text
    source := ← ms.must "source" InputSource.ofTree? }

def BlockOutput.ofTree? : Decoder BlockOutput := fun t => do
  let ms ← Decoder.members t
  return {
    formalParameter := ← ms.must "formalParameter" .text
    output := ← ms.must "connectionPointOut" OutputSide.ofTree? }

def Block.ofTree? : Decoder Block := fun t => do
  let ms ← Decoder.members t
  return {
    localId := ← ms.must "localId" .word64
    typeName := ← ms.must "typeName" .text
    instanceName := ← ms.may "instanceName" .text
    executionOrder := ← ms.must "executionOrderId" .word32
    geometry := ← ms.must "geometry" Geometry.ofTree?
    inputs := ← ms.must "inputVariables" (.list BlockInput.ofTree?)
    outputs := ← ms.must "outputVariables" (.list BlockOutput.ofTree?) }

def InVariable.ofTree? : Decoder InVariable := fun t => do
  let ms ← Decoder.members t
  return {
    localId := ← ms.must "localId" .word64
    geometry := ← ms.must "geometry" Geometry.ofTree?
    negated := ← ms.must "negated" .boolean
    executionOrder := ← ms.must "executionOrderId" .word32
    output := ← ms.must "connectionPointOut" OutputSide.ofTree?
    expression := ← ms.must "expression" .text }

def OutVariable.ofTree? : Decoder OutVariable := fun t => do
  let ms ← Decoder.members t
  return {
    localId := ← ms.must "localId" .word64
    geometry := ← ms.must "geometry" Geometry.ofTree?
    negated := ← ms.must "negated" .boolean
    executionOrder := ← ms.must "executionOrderId" .word32
    input := ← ms.must "connectionPointIn" InputSide.ofTree?
    expression := ← ms.must "expression" .text }

def ofTree? : Decoder Body := fun t => do
  let ms ← Decoder.members t
  return {
    leftRails := ← ms.must "leftPowerRails" (.list LeftRail.ofTree?)
    rightRails := ← ms.must "rightPowerRails" (.list RightRail.ofTree?)
    blocks := ← ms.must "blocks" (.list Block.ofTree?)
    contacts := ← ms.must "contacts" (.list Contact.ofTree?)
    coils := ← ms.must "coils" (.list Coil.ofTree?)
    inVariables := ← ms.must "inVariables" (.list InVariable.ofTree?)
    outVariables := ← ms.must "outVariables" (.list OutVariable.ofTree?) }

end Body

namespace Pou

def ofTree? : Decoder Pou := fun t => do
  let ms ← Decoder.members t
  return {
    name := ← ms.must "name" .text
    pouType := ← ms.must "pouType" (.named PouType.name [.program, .function, .functionBlock])
    body := ← ms.must "body" Body.ofTree? }

def ofText? (s : String) : Option Pou := do
  let document := Document.ofText s
  guard (!document.trailing)
  ofTree? document.root

end Pou

end LadderDiagram
