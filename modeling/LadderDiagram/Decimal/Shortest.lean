/-!
# Shortest decimals

A finite positive binary64 number is `mantissa * 2 ^ exponent`. The reals that
round to it form an interval between the halfway points to its neighbours; the
end points belong to it exactly when the mantissa is even. `Binary.shortest` is
the decimal with the fewest digits in that interval, the nearest to the number
among those, found on the grids of one, two, … digits in exact arithmetic.
-/

namespace LadderDiagram.Decimal

/-- A positive number `mantissa * 2 ^ exponent`. -/
structure Binary where
  mantissa : Nat
  exponent : Int
  /-- The gap to the number below is half the gap to the number above. -/
  narrowBelow : Bool
  deriving DecidableEq, Repr

namespace Binary

/-- The magnitude of a finite number, from the bits of its encoding. -/
def ofBits (bits : UInt64) : Binary :=
  let field := ((bits >>> 52) &&& 0x7FF).toNat
  let fraction := (bits &&& 0xFFFFFFFFFFFFF).toNat
  if field = 0 then ⟨fraction, -1074, false⟩
  else ⟨0x10000000000000 + fraction, (field : Int) - 1075, fraction == 0 && decide (1 < field)⟩

end Binary

/-- The number `digits * 10 ^ exponent`. -/
structure Scientific where
  digits : Nat
  exponent : Int
  deriving DecidableEq, Repr

namespace Scientific

/-- Moves a trailing zero of the digits into the exponent, at most `fuel` times. -/
def stripZeros : Nat → Scientific → Scientific
  | 0, d => d
  | fuel + 1, d =>
    if d.digits % 10 = 0 then stripZeros fuel ⟨d.digits / 10, d.exponent + 1⟩ else d

end Scientific

/-- Which of two equally near decimals is written. -/
inductive Tie where
  | toEven
  | up
  deriving DecidableEq, Repr

def tenTo (k : Nat) : Nat := Nat.pow 10 k

/-- How many decimal digits `n` has; zero has one. -/
def digitCount (n : Nat) : Nat := (Nat.toDigits 10 n).length

namespace Binary

/-- The number in quarters of its last binary place, as a fraction. -/
def scale (x : Binary) : Nat × Nat :=
  (1 <<< (x.exponent - 2).toNat, 1 <<< (2 - x.exponent).toNat)

/-- The exponent of the leading decimal digit. -/
def leading (x : Binary) : Int :=
  let num := 4 * x.mantissa * x.scale.1
  let den := x.scale.2
  if den ≤ num then (digitCount (num / den) : Int) - 1
  else -(digitCount ((den - 1) / num) : Int)

/-- `c * 10 ^ k` lies among the reals that round to the number. -/
def readsBack (x : Binary) (c : Nat) (k : Int) : Bool :=
  let unit := x.scale.1 * tenTo (-k).toNat
  let grid := x.scale.2 * tenTo k.toNat
  let low := (if x.narrowBelow then 4 * x.mantissa - 1 else 4 * x.mantissa - 2) * unit
  let high := (4 * x.mantissa + 2) * unit
  if x.mantissa % 2 = 0 then decide (low ≤ c * grid) && decide (c * grid ≤ high)
  else decide (low < c * grid) && decide (c * grid < high)

/-- The decimal on the grid of step `10 ^ k` that reads back and is nearest to the number. -/
def onGrid (tie : Tie) (x : Binary) (k : Int) : Option Nat :=
  let num := 4 * x.mantissa * x.scale.1 * tenTo (-k).toNat
  let den := x.scale.2 * tenTo k.toNat
  let below := num / den
  match x.readsBack below k, x.readsBack (below + 1) k with
  | false, false => none
  | true, false => some below
  | false, true => some (below + 1)
  | true, true =>
    match compare (2 * (num % den)) den, tie with
    | .lt, _ => some below
    | .gt, _ => some (below + 1)
    | .eq, .up => some (below + 1)
    | .eq, .toEven => some (if below % 2 = 0 then below else below + 1)

/-- The number itself, written out in full. -/
def exact (x : Binary) : Scientific :=
  ⟨(x.mantissa <<< x.exponent.toNat) * Nat.pow 5 (-x.exponent).toNat, min x.exponent 0⟩

/-- The fewest digits that read back; of two equally near decimals `tie` decides. -/
def shortest (tie : Tie) (x : Binary) : Scientific :=
  let found := (List.range 17).findSome? fun (n : Nat) =>
    let k := x.leading - n
    (x.onGrid tie k).map fun c => Scientific.mk c k
  let d := found.getD x.exact
  d.stripZeros (digitCount d.digits)

end Binary

end LadderDiagram.Decimal
