import LadderDiagram.Json.Fault

/-!
# Quoted strings of a document

`Quoted.scan` cuts the text after an opening quote into pieces, up to the closing
quote or to the first thing that cannot stand in a string. Escapes by number name
sixteen-bit units; `Quoted.decode` joins pairs of them and refuses single halves,
while `Quoted.check` only asks that the string is closed.
-/

namespace LadderDiagram.Json

/-- One written character of a string: a character, or a sixteen-bit unit given by number. -/
inductive Piece where
  | char (c : Char)
  | unit (n : Nat)
  deriving DecidableEq, Repr

/-- How the scan of a string ended. -/
inductive QuoteEnd where
  | closed
  | unfinished
  | control
  | badLetter
  | badHex
  deriving DecidableEq, Repr

/-- A string as it is written. -/
structure Quoted where
  pieces : List Piece
  ending : QuoteEnd
  deriving DecidableEq, Repr

def hexDigit? (c : Char) : Option Nat :=
  if '0' ≤ c ∧ c ≤ '9' then some (c.toNat - '0'.toNat)
  else if 'a' ≤ c ∧ c ≤ 'f' then some (c.toNat - 'a'.toNat + 10)
  else if 'A' ≤ c ∧ c ≤ 'F' then some (c.toNat - 'A'.toNat + 10)
  else none

/-- The value of four hexadecimal digits. -/
def hexUnit? (a b c d : Char) : Option Nat := do
  let a ← hexDigit? a
  let b ← hexDigit? b
  let c ← hexDigit? c
  let d ← hexDigit? d
  return ((a * 16 + b) * 16 + c) * 16 + d

/-- The character that a backslash and the letter `c` stand for. -/
def escaped? (c : Char) : Option Char :=
  match c with
  | '"' => some '"'
  | '\\' => some '\\'
  | '/' => some '/'
  | 'b' => some '\x08'
  | 'f' => some '\x0c'
  | 'n' => some '\n'
  | 'r' => some '\r'
  | 't' => some '\t'
  | _ => none

def byteCount (s : List Char) : Nat := (String.ofList s).utf8ByteSize

namespace Quoted

def cons (p : Piece) (scanned : Quoted × List Char) : Quoted × List Char :=
  (⟨p :: scanned.1.pieces, scanned.1.ending⟩, scanned.2)

/-- Scans what follows an opening quote; the rest begins after the closing one. -/
def scan : List Char → Quoted × List Char
  | [] => (⟨[], .unfinished⟩, [])
  | '"' :: rest => (⟨[], .closed⟩, rest)
  | ['\\'] => (⟨[], .unfinished⟩, [])
  | '\\' :: 'u' :: a :: b :: c :: d :: rest =>
    match hexUnit? a b c d with
    | some n => cons (.unit n) (scan rest)
    | none => (⟨[], .badHex⟩, rest)
  | '\\' :: 'u' :: rest => (⟨[], if 4 ≤ byteCount rest then .badHex else .unfinished⟩, [])
  | '\\' :: c :: rest =>
    match escaped? c with
    | some e => cons (.char e) (scan rest)
    | none => (⟨[], .badLetter⟩, rest)
  | c :: rest => if c < ' ' then (⟨[], .control⟩, rest) else cons (.char c) (scan rest)

/-- The string is closed and every escape in it is well formed. -/
def check (q : Quoted) : Except Fault Unit :=
  match q.ending with
  | .closed => .ok ()
  | .unfinished => .error .endInText
  | .control => .error .controlCharacter
  | .badLetter | .badHex => .error .badEscape

/-- The second half of a pair of units. -/
def isTrail (n : Nat) : Bool := decide (0xDC00 ≤ n) && decide (n ≤ 0xDFFF)

/-- The first half of a pair of units. -/
def isLead (n : Nat) : Bool := decide (0xD800 ≤ n) && decide (n ≤ 0xDBFF)

def joinPair (lead trail : Nat) : Char :=
  Char.ofNat (0x10000 + (lead - 0xD800) * 0x400 + (trail - 0xDC00))

/-- What a first half without its second half is refused for. -/
def halfFault : QuoteEnd → Fault
  | .unfinished => .endInText
  | .badHex => .badEscape
  | _ => .brokenPair

/-- The characters that pieces stand for, before the end of the string is judged. -/
def join (ending : QuoteEnd) : List Piece → Except Fault (List Char)
  | [] => .ok []
  | .char c :: rest => (join ending rest).map (c :: ·)
  | .unit n :: rest =>
    if isTrail n then .error .loneSurrogate
    else if isLead n then
      match rest with
      | .unit m :: rest =>
        if isTrail m then (join ending rest).map (joinPair n m :: ·) else .error .loneSurrogate
      | .char _ :: _ => .error .brokenPair
      | [] => .error (halfFault ending)
    else (join ending rest).map (Char.ofNat n :: ·)

/-- The text that the string stands for. -/
def decode (q : Quoted) : Except Fault String := do
  let chars ← join q.ending q.pieces
  q.check
  return String.ofList chars

end Quoted

end LadderDiagram.Json
