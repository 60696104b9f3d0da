import LadderDiagram.Graph.Basic
import LadderDiagram.Json.Record

/-!
# Reading snapshots

A snapshot is a program written as a document by the editor. One reader per type
of the graph; `Program.parse` reads a whole text.
-/

namespace LadderDiagram

open Json

def Point.record : Record Point where
  title := "struct Point"
  initial := Point.origin
  fields := [
    .must "x" Reader.real fun p x => { p with x },
    .must "y" Reader.real fun p y => { p with y }]

def Point.read : Reader Point := Point.record.read

def Connector.record : Record Connector where
  title := "struct Connector"
  initial := { id := "" }
  fields := [
    .must "id" Reader.text fun c id => { c with id },
    .may "relPosition" Point.read fun c relative => { c with relative },
    .may "glbPosition" Point.read fun c absolute => { c with absolute }]

def Connector.read : Reader Connector := Connector.record.read

def ContactVariant.names : List (String × ContactVariant) :=
  [("default", .normal), ("negated", .negated), ("risingEdge", .risingEdge),
    ("fallingEdge", .fallingEdge)]

def CoilVariant.names : List (String × CoilVariant) :=
  [("default", .normal), ("negated", .negated), ("risingEdge", .risingEdge),
    ("fallingEdge", .fallingEdge), ("set", .set), ("reset", .reset)]

def BlockData.record : Record BlockData where
  title := "struct BlockData"
  initial := { typeName := "" }
  fields := [
    .must "typeName" Reader.text fun b typeName => { b with typeName },
    .may "instanceName" (.optional Reader.text) fun b instanceName => { b with instanceName },
    .may "executionOrder" Reader.word32 fun b executionOrder => { b with executionOrder },
    .may "inputHandles" (.list Connector.read) fun b inputs => { b with inputs },
    .may "outputHandles" (.list Connector.read) fun b outputs => { b with outputs }]

def VariableData.record : Record VariableData where
  title := "struct VariableData"
  initial := {}
  fields := [
    .may "name" Reader.text fun v name => { v with name },
    .may "executionOrder" Reader.word32 fun v executionOrder => { v with executionOrder }]

namespace NodeKind

def contactRecord : Record (String × ContactVariant) where
  title := "struct variant NodeKind::Contact"
  initial := ("", .normal)
  fields := [
    .may "variable" Reader.text fun c operand => (operand, c.2),
    .may "variant" (.variant ContactVariant.names) fun c variant => (c.1, variant)]

def coilRecord : Record (String × CoilVariant) where
  title := "struct variant NodeKind::Coil"
  initial := ("", .normal)
  fields := [
    .may "variable" Reader.text fun c operand => (operand, c.2),
    .may "variant" (.variant CoilVariant.names) fun c variant => (c.1, variant)]

/-- A marker: the connector of its branch, in the given field. -/
def markerRecord (title field : String) : Record Connector where
  title := title
  initial := { id := "" }
  fields := [.must field Connector.read fun _ branch => branch]

def openRecord : Record Connector :=
  markerRecord "struct variant NodeKind::ParallelOpen" "parallelOutput"

def closeRecord : Record Connector :=
  markerRecord "struct variant NodeKind::ParallelClose" "parallelInput"

/-- The kind that a tagged record describes; a name that is not known makes it `unknown`. -/
def ofTagged (t : Tagged) : Except Fault NodeKind := do
  match t.kind with
  | "leftRail" => t.noFields; return .leftRail
  | "rightRail" => t.noFields; return .rightRail
  | "contact" =>
    let (operand, variant) ← contactRecord.read Tagged.scope t.content
    return .contact operand variant
  | "coil" =>
    let (operand, variant) ← coilRecord.read Tagged.scope t.content
    return .coil operand variant
  | "block" => return .block (← BlockData.record.read Tagged.scope t.content)
  | "variableIn" => return .variableIn (← VariableData.record.read Tagged.scope t.content)
  | "variableOut" => return .variableOut (← VariableData.record.read Tagged.scope t.content)
  | "parallelOpen" => return .parallelOpen (← openRecord.read Tagged.scope t.content)
  | "parallelClose" => return .parallelClose (← closeRecord.read Tagged.scope t.content)
  | _ => t.noFields; return .unknown

def read : Reader NodeKind := fun scope t => do
  ofTagged (← Tagged.read "type" "NodeKind" scope t)

end NodeKind

def Node.record : Record Node where
  title := "struct Node"
  initial := { id := "", numericId := 0, kind := .unknown }
  fields := [
    .must "id" Reader.text fun n id => { n with id },
    .must "numericId" Reader.word64 fun n numericId => { n with numericId },
    .may "position" Point.read fun n position => { n with position },
    .may "width" Reader.real fun n width => { n with width },
    .may "height" Reader.real fun n height => { n with height },
    .may "inputConnector" (.optional Connector.read) fun n input => { n with input },
    .may "outputConnector" (.optional Connector.read) fun n output => { n with output },
    .must "kind" NodeKind.read fun n kind => { n with kind }]

def Edge.record : Record Edge where
  title := "struct Edge"
  initial := ⟨"", "", "", ""⟩
  fields := [
    .must "source" Reader.text fun e source => { e with source },
    .must "sourceHandle" Reader.text fun e sourceHandle => { e with sourceHandle },
    .must "target" Reader.text fun e target => { e with target },
    .must "targetHandle" Reader.text fun e targetHandle => { e with targetHandle }]

def Binding.record : Record Binding where
  title := "struct HandleBinding"
  initial := ⟨"", "", ""⟩
  fields := [
    .must "variable" Reader.text fun b variableId => { b with variableId },
    .must "block" Reader.text fun b blockId => { b with blockId },
    .must "handle" Reader.text fun b handle => { b with handle }]

def Rung.record : Record Rung where
  title := "struct Rung"
  initial := {}
  fields := [
    .may "id" Reader.text fun r id => { r with id },
    .may "nodes" (.list Node.record.read) fun r nodes => { r with nodes },
    .may "edges" (.list Edge.record.read) fun r edges => { r with edges },
    .may "bindings" (.list Binding.record.read) fun r bindings => { r with bindings },
    .may "viewportHeight" Reader.real fun r height => { r with height }]

def PouType.names : List (String × PouType) :=
  [("program", .program), ("function", .function), ("functionBlock", .functionBlock)]

def Program.record : Record Program where
  title := "struct LadderProgram"
  initial := { name := "" }
  fields := [
    .must "name" Reader.text fun p name => { p with name },
    .may "pouType" (.variant PouType.names) fun p pouType => { p with pouType },
    .may "rungs" (.list Rung.record.read) fun p rungs => { p with rungs }]

def Program.parse (s : String) : Except Fault Program := Json.read Program.record.read s

end LadderDiagram
