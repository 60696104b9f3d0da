import LadderDiagram.Json.Tree

/-!
# Readers

A `Reader α` takes a tree apart as a value of type `α`, or gives the first fault
that it meets. Trees that no reader asks for are only checked: `Tree.skip` looks
at their form alone, `Tree.retain` also at what their scalars stand for and at
how deep they are nested.
-/

namespace LadderDiagram.Json

namespace Gap

def fault : Gap → Fault
  | missing => .endInValue
  | stray => .noValue
  | noColon => .noColon
  | noColonAtEnd => .endInObject

end Gap

namespace Broken

/-- The fault of a word or numeral that breaks off. -/
def fault (b : Broken) (otherwise : Fault) : Fault := if b.atEnd then .endInValue else otherwise

end Broken

namespace Ending

/-- What a reader of a list makes of its ending. -/
def checkList : Ending → Except Fault Unit
  | closed => .ok ()
  | danglingComma => .error .trailingComma
  | danglingEnd => .error .endInValue
  | noComma => .error .noCommaInList
  | badKey => .error .noValue
  | unfinished => .error .endInList

/-- What a reader of an object makes of its ending. -/
def checkObject : Ending → Except Fault Unit
  | closed => .ok ()
  | danglingComma => .error .trailingComma
  | danglingEnd => .error .endInValue
  | noComma => .error .noCommaInObject
  | badKey => .error .keyNotText
  | unfinished => .error .endInObject

/-- What is made of the ending of a list that no reader asks for. -/
def skipList : Ending → Except Fault Unit
  | danglingComma => .error .noValue
  | e => e.checkList

/-- What is made of the ending of an object that no reader asks for. -/
def skipObject : Ending → Except Fault Unit
  | danglingComma => .error .keyNotText
  | danglingEnd => .error .endInObject
  | e => e.checkObject

end Ending

namespace Scalar

def found : Scalar → Except Fault Found
  | null => .ok .null
  | boolean b => .ok (.boolean b)
  | badWord b => .error (b.fault .badWord)
  | number n => n.value.map Number.found
  | badNumber b => .error (b.fault .badNumber)
  | text q => q.decode.map Found.text

def skip : Scalar → Except Fault Unit
  | badWord b => .error (b.fault .badWord)
  | badNumber _ => .error .badNumber
  | text q => q.check
  | _ => .ok ()

end Scalar

/-- How many containers may be open at once in what is kept. -/
def depthLimit : Nat := 127

namespace Tree

def found : Tree → Except Fault Found
  | gap g => .error g.fault
  | scalar s => s.found
  | list .. => .ok .list
  | object .. => .ok .object

mutual

def skip : Tree → Except Fault Unit
  | gap g => .error g.fault
  | scalar s => s.skip
  | list items ending => do skipItems items; ending.skipList
  | object members ending => do skipMembers members; ending.skipObject

def skipItems : List Tree → Except Fault Unit
  | [] => .ok ()
  | t :: rest => do skip t; skipItems rest

def skipMembers : List (Quoted × Tree) → Except Fault Unit
  | [] => .ok ()
  | (key, t) :: rest => do key.check; skip t; skipMembers rest

end

mutual

/-- Checks a tree that is kept for a later reader, with `depth` containers open around it. -/
def retain (depth : Nat) : Tree → Except Fault Unit
  | gap g => .error g.fault
  | scalar s => s.found.map fun _ => ()
  | list items ending =>
    if depthLimit ≤ depth then .error .tooDeep
    else do retainItems (depth + 1) items; ending.checkList
  | object members ending =>
    if depthLimit ≤ depth then .error .tooDeep
    else do retainMembers (depth + 1) members; ending.checkObject

def retainItems (depth : Nat) : List Tree → Except Fault Unit
  | [] => .ok ()
  | t :: rest => do retain depth t; retainItems depth rest

def retainMembers (depth : Nat) : List (Quoted × Tree) → Except Fault Unit
  | [] => .ok ()
  | (key, t) :: rest => do
    let _ ← key.decode
    retain depth t
    retainMembers depth rest

end

end Tree

/-- Where a tree stands: how many containers are open around it, and whether it is kept. -/
structure Scope where
  depth : Nat
  kept : Bool

namespace Scope

def top : Scope := ⟨0, false⟩

def inner (s : Scope) : Scope := { s with depth := s.depth + 1 }

end Scope

abbrev Reader (α : Type) := Scope → Tree → Except Fault α

namespace Reader

variable {α : Type}

/-- Refuses a tree that is not what was wanted. -/
def mismatch (wanted : Wanted) (t : Tree) : Except Fault α := do
  throw (.wrongType (← t.found) wanted)

def text : Reader String := fun _ t =>
  match t with
  | .scalar (.text q) => q.decode
  | t => mismatch .text t

def boolean : Reader Bool := fun _ t =>
  match t with
  | .scalar (.boolean b) => .ok b
  | t => mismatch .boolean t

def real : Reader Float := fun _ t =>
  match t with
  | .scalar (.number n) => n.value.map Number.toFloat
  | t => mismatch .real t

/-- A whole number from zero up to, and without, `bound`. -/
def natural (bound : Nat) (wanted : Wanted) : Reader Nat := fun _ t =>
  match t with
  | .scalar (.number n) => do
    match ← n.value with
    | .integer k =>
      if 0 ≤ k ∧ k < bound then return k.toNat
      else throw (.wrongValue (.integer k) wanted)
    | .real x => throw (.wrongType (.real x) wanted)
  | t => mismatch wanted t

def word64 : Reader UInt64 := fun scope t =>
  (natural UInt64.size .word64 scope t).map UInt64.ofNat

def word32 : Reader UInt32 := fun scope t =>
  (natural UInt32.size .word32 scope t).map UInt32.ofNat

/-- A value that may be null. -/
def optional (read : Reader α) : Reader (Option α) := fun scope t =>
  match t with
  | .scalar .null => .ok none
  | t => (read scope t).map some

def items (read : Reader α) (scope : Scope) : List Tree → Except Fault (List α)
  | [] => .ok []
  | t :: rest => do return (← read scope t) :: (← items read scope rest)

def list (read : Reader α) : Reader (List α) := fun scope t =>
  match t with
  | .list trees ending => do
    let values ← items read scope.inner trees
    ending.checkList
    return values
  | t => mismatch .list t

/-- Null, and in a kept document also the empty object. -/
def nothing : Reader Unit := fun scope t =>
  match t, scope.kept with
  | .scalar .null, _ => .ok ()
  | .object [] .closed, true => .ok ()
  | t, _ => mismatch .nothing t

def pick (known : List (String × α)) (name : String) : Except Fault α :=
  match known.lookup name with
  | some a => .ok a
  | none => .error (.unknownVariant name (known.map Prod.fst))

/-- A variant's name, alone or as the single key of an object with nothing in it. -/
def freshVariant (known : List (String × α)) : Reader α := fun scope t =>
  match t with
  | .gap g => .error g.fault
  | .scalar (.text q) => do pick known (← q.decode)
  | .object [] ending => do
    ending.checkObject
    throw .noValue
  | .object ((key, t) :: more) ending => do
    let value ← pick known (← key.decode)
    nothing scope.inner t
    match more, ending with
    | [], .closed => return value
    | [], .unfinished => throw .endInObject
    | _, _ => throw .noValue
  | _ => .error .noValue

/-- A variant of a document that is kept. -/
def keptVariant (known : List (String × α)) : Reader α := fun scope t =>
  match t with
  | .scalar (.text q) => do pick known (← q.decode)
  | .object [(key, t)] _ => do
    let value ← pick known (← key.decode)
    nothing scope.inner t
    return value
  | .object .. => .error (.wrongValue .object .singleKeyObject)
  | t => mismatch .textOrObject t

/-- One of several named values. -/
def variant (known : List (String × α)) : Reader α := fun scope t =>
  if scope.kept then keptVariant known scope t else freshVariant known scope t

end Reader

def read {α : Type} (reader : Reader α) (s : String) : Except Fault α := do
  let d := Document.ofText s
  let value ← reader .top d.root
  if d.trailing then throw .trailingText
  return value

end LadderDiagram.Json
