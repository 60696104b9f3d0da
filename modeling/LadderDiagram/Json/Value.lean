import LadderDiagram.Decimal.Format

/-!
# Written documents

A `Value` is a document to be written. `compact` writes it without white space,
`pretty` with one member or item on a line, indented by two spaces a level.
Numbers that are not finite are written as null.
-/

namespace LadderDiagram.Json

inductive Value where
  | null
  | boolean (b : Bool)
  | natural (n : Nat)
  | real (x : Float)
  | text (s : String)
  | list (items : List Value)
  | object (members : List (String × Value))

def hexChar (n : Nat) : Char := Nat.digitChar n

/-- How one character stands in a written string. -/
def escapeChar (c : Char) : List Char :=
  match c with
  | '"' => ['\\', '"']
  | '\\' => ['\\', '\\']
  | '\x08' => ['\\', 'b']
  | '\x0c' => ['\\', 'f']
  | '\n' => ['\\', 'n']
  | '\r' => ['\\', 'r']
  | '\t' => ['\\', 't']
  | c =>
    if c < ' ' then ['\\', 'u', '0', '0', hexChar (c.toNat / 16), hexChar (c.toNat % 16)]
    else [c]

def writeText (s : String) : String :=
  "\"" ++ String.ofList (s.toList.flatMap escapeChar) ++ "\""

def writeReal (x : Float) : String :=
  if x.isFinite then Decimal.Format.data.render x else "null"

namespace Value

def ofOption {α : Type} (f : α → Value) : Option α → Value
  | none => null
  | some a => f a

mutual

/-- The document without white space. -/
def compact : Value → String
  | null => "null"
  | boolean b => if b then "true" else "false"
  | natural n => toString n
  | real x => writeReal x
  | text s => writeText s
  | list items => "[" ++ ",".intercalate (compactItems items) ++ "]"
  | object members => "\x7b" ++ ",".intercalate (compactMembers members) ++ "\x7d"

def compactItems : List Value → List String
  | [] => []
  | v :: rest => compact v :: compactItems rest

def compactMembers : List (String × Value) → List String
  | [] => []
  | (key, v) :: rest => (writeText key ++ ":" ++ compact v) :: compactMembers rest

end

def newLine (level : Nat) : String := "\n" ++ String.ofList (List.replicate (2 * level) ' ')

/-- Lines at one level inside brackets, whose closing one stands a level further out. -/
def block (opening closing : String) (level : Nat) (lines : List String) : String :=
  match lines with
  | [] => opening ++ closing
  | lines =>
    opening ++ newLine (level + 1) ++ ("," ++ newLine (level + 1)).intercalate lines
      ++ newLine level ++ closing

mutual

/-- The document with one member or item on a line, itself at the given level. -/
def pretty (level : Nat) : Value → String
  | null => "null"
  | boolean b => if b then "true" else "false"
  | natural n => toString n
  | real x => writeReal x
  | text s => writeText s
  | list items => block "[" "]" level (prettyItems (level + 1) items)
  | object members => block "\x7b" "\x7d" level (prettyMembers (level + 1) members)

def prettyItems (level : Nat) : List Value → List String
  | [] => []
  | v :: rest => pretty level v :: prettyItems level rest

def prettyMembers (level : Nat) : List (String × Value) → List String
  | [] => []
  | (key, v) :: rest => (writeText key ++ ": " ++ pretty level v) :: prettyMembers level rest

end

mutual

/-- The document with the members of every object sorted by key. -/
def sorted : Value → Value
  | list items => list (sortedItems items)
  | object members => object ((sortedMembers members).mergeSort fun a b => decide (a.1 ≤ b.1))
  | v => v

def sortedItems : List Value → List Value
  | [] => []
  | v :: rest => sorted v :: sortedItems rest

def sortedMembers : List (String × Value) → List (String × Value)
  | [] => []
  | (key, v) :: rest => (key, sorted v) :: sortedMembers rest

end

end Value

end LadderDiagram.Json
