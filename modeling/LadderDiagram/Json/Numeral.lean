import LadderDiagram.Json.Fault

/-!
# Numerals of a document

`Numeral.scan` cuts a numeral off the front of a text. `Numeral.value` is the
number it stands for: a whole number when it fits in 64 bits, and otherwise a
binary number. The digits are gathered into a 64-bit significand as long as they
fit; digits past that only move the decimal exponent. The significand is then
scaled by powers of ten, in steps of at most `10 ^ 308`.
-/

namespace LadderDiagram.Json

/-- A numeral as it is written; the fraction is empty when there is no point. -/
structure Numeral where
  negative : Bool
  whole : List Nat
  fraction : List Nat
  /-- Sign, negative or not, and digits of the exponent. -/
  exponent : Option (Bool × List Nat)
  deriving DecidableEq, Repr

inductive Number where
  | integer (n : Int)
  | real (x : Float)

/-- The digits at the front of a text, as numbers. -/
def leadingDigits (s : List Char) : List Nat :=
  (s.takeWhile Char.isDigit).map fun c => c.toNat - '0'.toNat

def afterDigits (s : List Char) : List Char := s.dropWhile Char.isDigit

/-- A part of a numeral is broken; the text may have ended there. -/
structure Broken where
  atEnd : Bool
  deriving DecidableEq, Repr

def digitsValue (digits : List Nat) : Nat := digits.foldl (fun acc d => acc * 10 + d) 0

namespace Numeral

/-- The digits at the front of a text, at least one of them. -/
def someDigits (s : List Char) : Except Broken (List Nat) :=
  match leadingDigits s with
  | [] => .error ⟨s.isEmpty⟩
  | digits => .ok digits

/-- The whole part: a zero alone, or digits that do not begin with one. -/
def scanWhole (s : List Char) : Except Broken (List Nat) := do
  match ← someDigits s with
  | 0 :: _ :: _ => throw ⟨false⟩
  | digits => return digits

def scanFraction : List Char → Except Broken (List Nat × List Char)
  | '.' :: rest => do return (← someDigits rest, afterDigits rest)
  | s => .ok ([], s)

/-- The sign of an exponent, negative or not. -/
def scanSign : List Char → Bool × List Char
  | '+' :: rest => (false, rest)
  | '-' :: rest => (true, rest)
  | s => (false, s)

def scanExponent (s : List Char) : Except Broken (Option (Bool × List Nat) × List Char) :=
  match s with
  | c :: rest =>
    if c = 'e' ∨ c = 'E' then do
      let (negative, digits) := scanSign rest
      return (some (negative, ← someDigits digits), afterDigits digits)
    else .ok (none, s)
  | [] => .ok (none, s)

/-- Cuts the numeral off a text that begins with a digit, or follows a minus sign. -/
def scan (negative : Bool) (s : List Char) : Except Broken (Numeral × List Char) := do
  let whole ← scanWhole s
  let (fraction, s) ← scanFraction (afterDigits s)
  let (exponent, s) ← scanExponent s
  return (⟨negative, whole, fraction, exponent⟩, s)

/-- Gathers digits into a significand while it fits in 64 bits; the rest is left over. -/
def gather : Nat → List Nat → Nat × List Nat
  | acc, [] => (acc, [])
  | acc, d :: rest =>
    if acc * 10 + d < UInt64.size then gather (acc * 10 + d) rest else (acc, d :: rest)

def powerOfTen (e : Nat) : Float := Float.ofScientific 1 false e

def scaleDown (x : Float) (e : Nat) : Float :=
  if e ≤ 308 then x / powerOfTen e
  else if x == 0 then x
  else scaleDown (x / powerOfTen 308) (e - 308)
termination_by e
decreasing_by omega

/-- The significand times `10 ^ e`; a result that is not finite is refused. -/
def scaled (significand : Nat) (e : Int) : Except Fault Float :=
  let x := Float.ofNat significand
  if e < 0 then .ok (scaleDown x e.natAbs)
  else if e ≤ 308 then
    let y := x * powerOfTen e.natAbs
    if y.isInf then .error .numberTooLarge else .ok y
  else if x == 0 then .ok x
  else .error .numberTooLarge

/-- The largest exponent that is written out; one past it makes the number zero or too large. -/
def exponentLimit : Nat := 2147483647

/-- The magnitude of a numeral that is read as a binary number. -/
def magnitude (n : Numeral) : Except Fault Float :=
  let (acc, dropped) := gather 0 n.whole
  let (significand, unused) := gather acc n.fraction
  let shift : Int := dropped.length - (n.fraction.length - unused.length : Nat)
  match n.exponent with
  | none => scaled significand shift
  | some (negative, digits) =>
    let e : Int := digitsValue digits
    if e ≤ exponentLimit then scaled significand (if negative then shift - e else shift + e)
    else if significand ≠ 0 ∧ ¬ negative then .error .numberTooLarge
    else .ok 0

/-- The numeral stands for a whole number that fits in 64 bits; minus zero does not. -/
def isInteger (n : Numeral) : Bool :=
  let m := digitsValue n.whole
  n.fraction.isEmpty && n.exponent.isNone
    && if n.negative then decide (0 < m ∧ 2 * m ≤ UInt64.size) else decide (m < UInt64.size)

def value (n : Numeral) : Except Fault Number :=
  if n.isInteger then
    let m := digitsValue n.whole
    .ok (.integer (if n.negative then -m else m))
  else do
    let x ← n.magnitude
    return .real (if n.negative then -x else x)

end Numeral

namespace Number

def found : Number → Found
  | integer n => .integer n
  | real x => .real x

def toFloat : Number → Float
  | integer n => Float.ofInt n
  | real x => x

end Number

end LadderDiagram.Json
