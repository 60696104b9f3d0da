import LadderDiagram.Snapshot.Write
import Mathlib.Data.List.Forall2

/-!
# Presentations of a written snapshot

A written document may be presented in other ways that mean the same: the members of an object in
any order, without those that hold their default and with others of unknown names, and with white
space between the lexemes. A `Form` says which documents may stand for a written one; each type
of the graph has its own, with the names and defaults of its fields.
-/

namespace LadderDiagram

namespace Json

/-! ## Text -/

namespace Value

mutual

/-- The lexemes of a document, in order: the punctuation, keys and scalars of its text. -/
def lexemes : Value → List String
  | list items => "[" :: ([","].intercalate (itemLexemes items) ++ ["]"])
  | object members => "\x7b" :: ([","].intercalate (memberLexemes members) ++ ["\x7d"])
  | v => [v.compact]

def itemLexemes : List Value → List (List String)
  | [] => []
  | v :: rest => lexemes v :: itemLexemes rest

def memberLexemes : List (String × Value) → List (List String)
  | [] => []
  | (key, v) :: rest => (writeText key :: ":" :: lexemes v) :: memberLexemes rest

end

mutual

def reals : Value → List Float
  | real x => [x]
  | list items => itemReals items
  | object members => memberReals members
  | _ => []

def itemReals : List Value → List Float
  | [] => []
  | v :: rest => reals v ++ itemReals rest

def memberReals : List (String × Value) → List Float
  | [] => []
  | (_, v) :: rest => reals v ++ memberReals rest

end

/-- Text, truth values and null, which members of unknown names may hold. -/
def isPlain : Value → Bool
  | null | boolean _ | text _ => true
  | _ => false

end Value

/-- The text consists of the lexemes in order, with white space before, between and behind
them. -/
inductive Spaced : List String → List Char → Prop where
  | done {w : List Char} : (∀ c ∈ w, isSpace c) → Spaced [] w
  | next {w s : List Char} {l : String} {ls : List String} :
      (∀ c ∈ w, isSpace c) → Spaced ls s → Spaced (l :: ls) (w ++ (l.toList ++ s))

/-- Finds the lexemes one behind the other, each after the white space before it. -/
def isSpaced : List String → List Char → Bool
  | [], s => s.all isSpace
  | l :: ls, s =>
    match l.toList.isPrefixOf? (s.dropWhile isSpace) with
    | none => false
    | some rest => isSpaced ls rest

theorem Spaced.of_isSpaced {ls : List String} {s : List Char} (h : isSpaced ls s) :
    Spaced ls s := by
  induction ls generalizing s with
  | nil => exact .done (List.all_eq_true.1 h)
  | cons l ls ih =>
    rw [isSpaced] at h
    split at h
    · cases h
    · rename_i rest hrest
      rw [← List.takeWhile_append_dropWhile (p := isSpace) (l := s),
        ← List.isPrefixOf?_eq_some_iff_append_eq.1 hrest]
      exact .next (List.all_eq_true.1 List.all_takeWhile) (ih h)

/-- The text spells the document, with white space between its lexemes. -/
def Value.Spells (v : Value) (s : String) : Prop := Spaced v.lexemes s.toList

/-- The reader of numbers gives the number back that was written. -/
def ReadsBack (x : Float) : Prop := read Reader.real (writeReal x) = .ok x

/-! ## Forms -/

/-- Which documents may stand for a written one. -/
abbrev Form := Value → Value → Prop

/-- A member of an object: its name, what it holds by default, and its form. -/
structure Known where
  name : String
  default : Option Value
  form : Form

namespace Known

def must (name : String) (form : Form) : Known := ⟨name, none, form⟩

def may (name : String) (default : Value) (form : Form) : Known := ⟨name, some default, form⟩

end Known

/-- Of the written members, in the order of the known ones, some are shown in their form and
others, which hold their default, are left out. -/
inductive Shown :
    List Known → List (String × Value) → List (String × Value) → Prop where
  | nil : Shown [] [] []
  | keep {k : Known} {ks : List Known} {v v' : Value} {ms ms' : List (String × Value)} :
      k.form v v' → Shown ks ms ms' → Shown (k :: ks) ((k.name, v) :: ms) ((k.name, v') :: ms')
  | drop {k : Known} {ks : List Known} {v : Value} {ms ms' : List (String × Value)} :
      k.default = some v → Shown ks ms ms' → Shown (k :: ks) ((k.name, v) :: ms) ms'

/-- The members are the shown ones and others of unknown names, in any order. -/
def Mixed (known : List String) (shown members : List (String × Value)) : Prop :=
  ∃ extra, members.Perm (shown ++ extra) ∧ ∀ m ∈ extra, m.1 ∉ known ∧ m.2.isPlain

theorem Mixed.of_reverse {known : List String} {shown members : List (String × Value)}
    (extra : List (String × Value)) (he : ∀ m ∈ extra, m.1 ∉ known ∧ m.2.isPlain)
    (hm : members = (shown ++ extra).reverse) : Mixed known shown members :=
  ⟨extra, hm ▸ List.reverse_perm _, he⟩

namespace Form

def same : Form := fun v v' => v' = v

def optional (form : Form) : Form := fun v v' =>
  v = .null ∧ v' = .null ∨ v ≠ .null ∧ form v v'

def list (form : Form) : Form := fun v v' =>
  ∃ items items', v = .list items ∧ v' = .list items' ∧ List.Forall₂ form items items'

def record (known : List Known) : Form := fun v v' =>
  ∃ members shown members', v = .object members ∧ v' = .object members' ∧
    Shown known members shown ∧ Mixed (known.map (·.name)) shown members'

/-- An object in which the member `tag` tells which others there are. -/
def tagged (tag : String) (known : String → List Known) : Form := fun v v' =>
  ∃ kind members shown members', v = .object ((tag, .text kind) :: members) ∧
    v' = .object members' ∧ Shown (known kind) members shown ∧
    Mixed (tag :: (known kind).map (·.name)) ((tag, .text kind) :: shown) members'

end Form

end Json

/-! ## Forms of the types of a graph -/

open Json (Form Known)

def Point.known : List Known := [.must "x" .same, .must "y" .same]

def Point.form : Form := .record Point.known

def Connector.known : List Known :=
  [.must "id" .same, .may "relPosition" Point.origin.toValue Point.form,
    .may "glbPosition" Point.origin.toValue Point.form]

def Connector.form : Form := .record Connector.known

/-- What there is to a kind besides its name. -/
def NodeKind.known : String → List Known
  | "contact" | "coil" =>
    [.may "variable" (.text "") .same, .may "variant" (.text "default") .same]
  | "block" =>
    [.must "typeName" .same, .may "instanceName" .null (.optional .same),
      .may "executionOrder" (.natural 0) .same,
      .may "inputHandles" (.list []) (.list Connector.form),
      .may "outputHandles" (.list []) (.list Connector.form)]
  | "variableIn" | "variableOut" =>
    [.may "name" (.text "") .same, .may "executionOrder" (.natural 0) .same]
  | "parallelOpen" => [.must "parallelOutput" Connector.form]
  | "parallelClose" => [.must "parallelInput" Connector.form]
  | _ => []

def NodeKind.form : Form := .tagged "type" NodeKind.known

def Node.known : List Known :=
  [.must "id" .same, .must "numericId" .same,
    .may "position" Point.origin.toValue Point.form,
    .may "width" (.real 0) .same, .may "height" (.real 0) .same,
    .may "inputConnector" .null (.optional Connector.form),
    .may "outputConnector" .null (.optional Connector.form), .must "kind" NodeKind.form]

def Node.form : Form := .record Node.known

def Edge.known : List Known :=
  [.must "source" .same, .must "sourceHandle" .same, .must "target" .same,
    .must "targetHandle" .same]

def Edge.form : Form := .record Edge.known

def Binding.known : List Known :=
  [.must "variable" .same, .must "block" .same, .must "handle" .same]

def Binding.form : Form := .record Binding.known

def Rung.known : List Known :=
  [.may "id" (.text "") .same, .may "nodes" (.list []) (.list Node.form),
    .may "edges" (.list []) (.list Edge.form), .may "bindings" (.list []) (.list Binding.form),
    .may "viewportHeight" (.real 0) .same]

def Rung.form : Form := .record Rung.known

def Program.known : List Known :=
  [.must "name" .same, .may "pouType" (.text "program") .same,
    .may "rungs" (.list []) (.list Rung.form)]

def Program.form : Form := .record Program.known

/-- The document presents the program: it is the written program with the members of its objects
in any order, without some that hold their default, and with others of unknown names. -/
def Program.Presents (p : Program) (v : Json.Value) : Prop := Program.form p.toValue v

end LadderDiagram
