import LadderDiagram.Json.Reader

/-!
# Records

A record is read from an object, in which its fields may come in any order, some
may be left out and unknown members are passed over, or from the list of its
fields in the order of declaration. Of two faults the first in the text counts;
fields that are missing are noticed when the record ends, in their declared order.

A tagged record names its own kind in the member `type`, which may stand behind
the members that depend on it: they are kept until the kind is known.
-/

namespace LadderDiagram.Json

/-- One field of a record of type `α`, and how it is read into the record. -/
structure Field (α : Type) where
  name : String
  required : Bool
  read : Scope → Tree → α → Except Fault α

namespace Field

variable {α β : Type}

/-- A field whose value `read` gives and `set` puts into the record. -/
def ofReader (name : String) (required : Bool) (read : Reader β) (set : α → β → α) : Field α where
  name := name
  required := required
  read scope t record := do return set record (← read scope t)

/-- A field that must be there. -/
def must (name : String) (read : Reader β) (set : α → β → α) : Field α :=
  ofReader name true read set

/-- A field that keeps its initial value when it is left out. -/
def may (name : String) (read : Reader β) (set : α → β → α) : Field α :=
  ofReader name false read set

end Field

/-- How a record is read: its title for messages, its initial value, and its fields. -/
structure Record (α : Type) where
  title : String
  initial : α
  fields : List (Field α)

namespace Record

variable {α : Type}

def member (r : Record α) (scope : Scope) (state : List String × α) (m : Quoted × Tree) :
    Except Fault (List String × α) := do
  let name ← m.1.decode
  match r.fields.find? (·.name == name) with
  | none =>
    m.2.skip
    return state
  | some field =>
    if state.1.contains name then throw (.duplicateField name)
    return (name :: state.1, ← field.read scope m.2 state.2)

def members (r : Record α) (scope : Scope) :
    List (Quoted × Tree) → List String × α → Except Fault (List String × α)
  | [], state => .ok state
  | m :: rest, state => do members r scope rest (← r.member scope state m)

def ofMembers (r : Record α) (scope : Scope) (ms : List (Quoted × Tree)) (ending : Ending) :
    Except Fault α := do
  let (seen, value) ← r.members scope ms ([], r.initial)
  ending.checkObject
  match r.fields.find? (fun field => field.required && !seen.contains field.name) with
  | some field => throw (.missingField field.name)
  | none => return value

/-- What is made of what follows the last field of a record given as a list. -/
def checkEnd (r : Record α) (scope : Scope) (extra : List Tree) (ending : Ending) :
    Except Fault Unit :=
  match extra, ending with
  | [], .closed => .ok ()
  | [], .danglingComma => .error .trailingComma
  | [], .unfinished => .error .endInList
  | [], _ => .error .trailingText
  | extra, _ =>
    if scope.kept then
      .error (.wrongLength (r.fields.length + extra.length) (.elements r.fields.length))
    else .error .trailingText

/-- Reads the record from a list: the next field is the one at `index`. -/
def positional (r : Record α) (scope : Scope) (ending : Ending) :
    List (Field α) → Nat → List Tree → α → Except Fault α
  | [], _, extra, value => do r.checkEnd scope extra ending; return value
  | field :: fields, index, t :: rest, value => do
    r.positional scope ending fields (index + 1) rest (← field.read scope t value)
  | field :: fields, index, [], value => do
    ending.checkList
    match (field :: fields).findIdx? (·.required) with
    | some n => throw (.wrongLength (index + n) (.fields r.title r.fields.length))
    | none => return value

def read (r : Record α) : Reader α := fun scope t =>
  match t with
  | .list items ending => r.positional scope.inner ending r.fields 0 items r.initial
  | .object ms ending => r.ofMembers scope.inner ms ending
  | t => Reader.mismatch (.record r.title) t

end Record

/-- A tagged record that is kept: the name of its kind, and the rest of it. -/
structure Tagged where
  kind : String
  content : Tree

namespace Tagged

def kindName : Reader String := fun _ t =>
  match t with
  | .scalar (.text q) => q.decode
  | t => Reader.mismatch .variantName t

def members (tag : String) (scope : Scope) :
    List (Quoted × Tree) → Option String → Except Fault (Option String × List (Quoted × Tree))
  | [], kind => .ok (kind, [])
  | (key, t) :: rest, kind => do
    if (← key.decode) = tag then
      if kind.isSome then throw (.duplicateField tag)
      let name ← kindName scope t
      members tag scope rest (some name)
    else
      t.retain scope.depth
      let (kind, others) ← members tag scope rest kind
      return (kind, (key, t) :: others)

def ofMembers (tag : String) (scope : Scope) (ms : List (Quoted × Tree)) (ending : Ending) :
    Except Fault Tagged := do
  let (kind, others) ← members tag scope ms none
  ending.checkObject
  match kind with
  | some kind => return ⟨kind, .object others .closed⟩
  | none => throw (.missingField tag)

/-- Reads the list form: the kind's name, then the fields. -/
def ofItems (tag : String) (scope : Scope) (items : List Tree) (ending : Ending) :
    Except Fault Tagged := do
  match items with
  | [] =>
    ending.checkList
    throw (.missingField tag)
  | t :: rest =>
    let kind ← kindName scope t
    Tree.retainItems scope.depth rest
    ending.checkList
    return ⟨kind, .list rest .closed⟩

/-- Reads a record of the given title whose kind is named by the member `tag`. -/
def read (tag title : String) : Reader Tagged := fun scope t =>
  match t with
  | .list items ending => ofItems tag scope.inner items ending
  | .object ms ending => ofMembers tag scope.inner ms ending
  | t => Reader.mismatch (.tagged title) t

def scope : Scope := ⟨0, true⟩

/-- A kind without fields: other members do not matter, items of a list do. -/
def noFields (t : Tagged) : Except Fault Unit :=
  match t.content with
  | .list [] _ => .ok ()
  | .list items _ => .error (.wrongLength items.length (.elements 0))
  | _ => .ok ()

end Tagged

end LadderDiagram.Json
