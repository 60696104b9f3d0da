import LadderDiagram.Decimal.Format
import LadderDiagram.Text.Quoted

/-!
# Faults of a document

Why a text could not be read as the value that was wanted: it is not a document
at all, it stops too early, or it holds data of the wrong shape. `Fault.message`
words each cause and `Fault.kind` sorts it into one of those three.
-/

namespace LadderDiagram.Json

/-- What stands in a document where something else was wanted. -/
inductive Found where
  | null
  | boolean (b : Bool)
  | integer (n : Int)
  | real (x : Float)
  | text (s : String)
  | list
  | object
  deriving DecidableEq

/-- What a reader wanted. -/
inductive Wanted where
  | text
  | real
  | word64
  | word32
  | boolean
  | list
  | nothing
  | variantName
  | textOrObject
  | singleKeyObject
  /-- A record, known to users by its title. -/
  | record (title : String)
  /-- A record given as the list of its fields. -/
  | fields (title : String) (count : Nat)
  /-- A record whose kind is named by one of its own members. -/
  | tagged (title : String)
  /-- A list of fixed length. -/
  | elements (count : Nat)
  deriving DecidableEq

inductive Fault where
  | endInValue
  | endInText
  | endInList
  | endInObject
  | noValue
  | badWord
  | noColon
  | noCommaInList
  | noCommaInObject
  | keyNotText
  | trailingComma
  | trailingText
  | badNumber
  | numberTooLarge
  | badEscape
  | loneSurrogate
  | brokenPair
  | controlCharacter
  | tooDeep
  | wrongType (found : Found) (wanted : Wanted)
  | wrongValue (found : Found) (wanted : Wanted)
  | wrongLength (length : Nat) (wanted : Wanted)
  | unknownVariant (name : String) (known : List String)
  | missingField (name : String)
  | duplicateField (name : String)
  deriving DecidableEq

inductive FaultKind where
  /-- The text is not a document. -/
  | syntactic
  /-- The document holds other data than was wanted. -/
  | data
  /-- The text stops inside the document. -/
  | ended
  deriving DecidableEq, Repr

namespace Found

def describe : Found → String
  | null => "null"
  | boolean b => s!"boolean `{b}`"
  | integer n => s!"integer `{n}`"
  | real x => "floating point `" ++ Decimal.Format.data.render x ++ "`"
  | text s => "string " ++ Text.quoted s
  | list => "sequence"
  | object => "map"

end Found

def elementCount (n : Nat) : String :=
  if n = 1 then "1 element" else s!"{n} elements"

namespace Wanted

def describe : Wanted → String
  | text => "a string"
  | real => "f64"
  | word64 => "u64"
  | word32 => "u32"
  | boolean => "a boolean"
  | list => "a sequence"
  | nothing => "unit"
  | variantName => "variant identifier"
  | textOrObject => "string or map"
  | singleKeyObject => "map with a single key"
  | record title => title
  | fields title count => title ++ " with " ++ elementCount count
  | tagged title => "internally tagged enum " ++ title
  | elements count => elementCount count ++ " in sequence"

end Wanted

namespace Fault

def kind : Fault → FaultKind
  | endInValue | endInText | endInList | endInObject => .ended
  | wrongType .. | wrongValue .. | wrongLength .. => .data
  | unknownVariant .. | missingField .. | duplicateField .. => .data
  | _ => .syntactic

def choice (known : List String) : String :=
  match known.map (fun name => "`" ++ name ++ "`") with
  | [] => "there are no variants"
  | [a] => "expected " ++ a
  | [a, b] => "expected " ++ a ++ " or " ++ b
  | many => "expected one of " ++ ", ".intercalate many

def message : Fault → String
  | endInValue => "EOF while parsing a value"
  | endInText => "EOF while parsing a string"
  | endInList => "EOF while parsing a list"
  | endInObject => "EOF while parsing an object"
  | noValue => "expected value"
  | badWord => "expected ident"
  | noColon => "expected `:`"
  | noCommaInList => "expected `,` or `]`"
  | noCommaInObject => "expected `,` or `\x7d`"
  | keyNotText => "key must be a string"
  | trailingComma => "trailing comma"
  | trailingText => "trailing characters"
  | badNumber => "invalid number"
  | numberTooLarge => "number out of range"
  | badEscape => "invalid escape"
  | loneSurrogate => "lone leading surrogate in hex escape"
  | brokenPair => "unexpected end of hex escape"
  | controlCharacter => "control character (\\u0000-\\u001F) found while parsing a string"
  | tooDeep => "recursion limit exceeded"
  | wrongType found wanted => "invalid type: " ++ found.describe ++ ", expected " ++ wanted.describe
  | wrongValue found wanted =>
    "invalid value: " ++ found.describe ++ ", expected " ++ wanted.describe
  | wrongLength length wanted => s!"invalid length {length}, expected " ++ wanted.describe
  | unknownVariant name known => "unknown variant `" ++ name ++ "`, " ++ choice known
  | missingField name => "missing field `" ++ name ++ "`"
  | duplicateField name => "duplicate field `" ++ name ++ "`"

end Fault

end LadderDiagram.Json
