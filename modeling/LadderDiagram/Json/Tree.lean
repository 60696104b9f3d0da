import LadderDiagram.Json.Token

/-!
# Documents with their faults in place

A `Tree` is a document as far as its tokens go: where a token is missing or does
not fit, the tree has a `Gap` or an `Ending` that says so, and nothing behind it.
A reader that walks a tree in order therefore meets the first fault of the text
first, and only if it looks there. `Document.ofTokens` builds the tree by one
pass over the tokens with a stack of the containers that are still open.
-/

namespace LadderDiagram.Json

/-- What stands where a value should. -/
inductive Gap where
  /-- The text is over. -/
  | missing
  /-- A token that begins no value. -/
  | stray
  /-- The colon before the value is missing. -/
  | noColon
  /-- The text is over where the colon should be. -/
  | noColonAtEnd
  deriving DecidableEq, Repr

/-- How a list or an object ends. -/
inductive Ending where
  | closed
  /-- The closing bracket follows a comma. -/
  | danglingComma
  /-- The text is over after a comma. -/
  | danglingEnd
  /-- Neither a comma nor the closing bracket follows a value. -/
  | noComma
  /-- Something other than a string stands where a key should. -/
  | badKey
  /-- The text is over. -/
  | unfinished
  deriving DecidableEq, Repr

inductive Tree where
  | gap (g : Gap)
  | scalar (s : Scalar)
  | list (items : List Tree) (ending : Ending)
  | object (members : List (Quoted × Tree)) (ending : Ending)

/-- A text read as one value; `trailing` says that something follows it. -/
structure Document where
  root : Tree
  trailing : Bool

/-- A container that is still open, with what it holds so far, the newest first. -/
inductive Frame where
  | list (items : List Tree)
  | object (members : List (Quoted × Tree)) (key : Quoted)

namespace Frame

/-- The container with one more value in it, after which nothing follows. -/
def cut (value : Tree) : Frame → Tree
  | list items => .list (value :: items).reverse .unfinished
  | object members key => .object ((key, value) :: members).reverse .unfinished

end Frame

/-- The root of a document whose last value lies inside the open containers `up`. -/
def Tree.within (value : Tree) (up : List Frame) : Tree := up.foldl Frame.cut value

/-- What may come next while a document is read. -/
inductive State where
  | value (up : List Frame)
  | listStart (up : List Frame)
  | listNext (items : List Tree) (up : List Frame)
  | objectStart (up : List Frame)
  | objectNext (members : List (Quoted × Tree)) (up : List Frame)
  | colon (members : List (Quoted × Tree)) (key : Quoted) (up : List Frame)
  | after (value : Tree) (up : List Frame)
  | stopped (d : Document)

namespace State

/-- The document ends with a fault inside `value`. -/
def stop (value : Tree) (up : List Frame) : State := .stopped ⟨value.within up, false⟩

def startValue (up : List Frame) : Token → State
  | .listOpen => .listStart up
  | .objectOpen => .objectStart up
  | .scalar s => .after (.scalar s) up
  | _ => stop (.gap .stray) up

def startKey (members : List (Quoted × Tree)) (up : List Frame) : Token → State
  | .scalar (.text key) => .colon members key up
  | _ => stop (.object members.reverse .badKey) up

def step : State → Token → State
  | .value up, t => startValue up t
  | .listStart up, .listClose => .after (.list [] .closed) up
  | .listStart up, t => startValue (.list [] :: up) t
  | .listNext items up, .listClose => stop (.list items.reverse .danglingComma) up
  | .listNext items up, t => startValue (.list items :: up) t
  | .objectStart up, .objectClose => .after (.object [] .closed) up
  | .objectStart up, t => startKey [] up t
  | .objectNext members up, .objectClose => stop (.object members.reverse .danglingComma) up
  | .objectNext members up, t => startKey members up t
  | .colon members key up, .colon => .value (.object members key :: up)
  | .colon members key up, _ => stop (.gap .noColon) (.object members key :: up)
  | .after v [], _ => .stopped ⟨v, true⟩
  | .after v (.list items :: up), .comma => .listNext (v :: items) up
  | .after v (.list items :: up), .listClose => .after (.list (v :: items).reverse .closed) up
  | .after v (.list items :: up), _ => stop (.list (v :: items).reverse .noComma) up
  | .after v (.object members key :: up), .comma => .objectNext ((key, v) :: members) up
  | .after v (.object members key :: up), .objectClose =>
    .after (.object ((key, v) :: members).reverse .closed) up
  | .after v (.object members key :: up), _ =>
    stop (.object ((key, v) :: members).reverse .noComma) up
  | .stopped d, _ => .stopped d

/-- The document when the tokens are over. -/
def finish : State → Document
  | .value up => ⟨(Tree.gap .missing).within up, false⟩
  | .listStart up => ⟨(Tree.list [] .unfinished).within up, false⟩
  | .listNext items up => ⟨(Tree.list items.reverse .danglingEnd).within up, false⟩
  | .objectStart up => ⟨(Tree.object [] .unfinished).within up, false⟩
  | .objectNext members up => ⟨(Tree.object members.reverse .danglingEnd).within up, false⟩
  | .colon members key up =>
    ⟨(Tree.gap .noColonAtEnd).within (.object members key :: up), false⟩
  | .after v up => ⟨v.within up, false⟩
  | .stopped d => d

end State

namespace Document

def ofTokens (ts : List Token) : Document := (ts.foldl State.step (.value [])).finish

def ofText (s : String) : Document := ofTokens (tokens s.toList)

end Document

end LadderDiagram.Json
