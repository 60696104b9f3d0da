/-!
# Markup

Markup elements and their text. An element holds either a text or other
elements; one that holds nothing may be written as a single tag. Five characters
are escaped wherever they stand. `flat` writes an element without white space,
`indented` with every tag on a line, indented by two spaces a level; the closing
tag after a text stays on its line.
-/

namespace LadderDiagram

abbrev Markup.Attributes := List (String × String)

open Markup (Attributes) in
inductive Markup where
  /-- A single tag. -/
  | empty (name : String) (attributes : Attributes)
  /-- A text between tags. -/
  | text (name : String) (attributes : Attributes) (content : String)
  /-- Elements between tags. -/
  | node (name : String) (attributes : Attributes) (children : List Markup)

namespace Markup

/-- How one character stands in a text or an attribute. -/
def escapeChar (c : Char) : List Char :=
  match c with
  | '<' => "&lt;".toList
  | '>' => "&gt;".toList
  | '&' => "&amp;".toList
  | '\'' => "&apos;".toList
  | '"' => "&quot;".toList
  | c => [c]

def escape (s : String) : String := String.ofList (s.toList.flatMap escapeChar)

def Attributes.render (attributes : Attributes) : String :=
  String.join (attributes.map fun (name, value) => " " ++ name ++ "=\"" ++ escape value ++ "\"")

def openTag (name : String) (attributes : Attributes) : String :=
  "<" ++ name ++ attributes.render ++ ">"

def emptyTag (name : String) (attributes : Attributes) : String :=
  "<" ++ name ++ attributes.render ++ "/>"

def closeTag (name : String) : String := "</" ++ name ++ ">"

mutual

/-- The element without white space between its tags. -/
def flat : Markup → String
  | empty name attributes => emptyTag name attributes
  | text name attributes content =>
    openTag name attributes ++ escape content ++ closeTag name
  | node name attributes children =>
    openTag name attributes ++ flatAll children ++ closeTag name

def flatAll : List Markup → String
  | [] => ""
  | e :: rest => flat e ++ flatAll rest

end

def newLine (level : Nat) : String := "\n" ++ String.ofList (List.replicate (2 * level) ' ')

mutual

/-- The element on lines of its own. -/
def indented (level : Nat) : Markup → String
  | empty name attributes => newLine level ++ emptyTag name attributes
  | text name attributes content =>
    newLine level ++ openTag name attributes ++ escape content ++ closeTag name
  | node name attributes children =>
    newLine level ++ openTag name attributes ++ indentedAll (level + 1) children
      ++ newLine level ++ closeTag name

def indentedAll (level : Nat) : List Markup → String
  | [] => ""
  | e :: rest => indented level e ++ indentedAll level rest

end

def declaration : String := "<?xml version=\"1.0\" encoding=\"utf-8\"?>"

def document (root : Markup) : String := declaration ++ root.indented 0

end Markup

end LadderDiagram
