import LadderDiagram.Decimal.Shortest

/-!
# Decimal text of numbers

Which digits are written is settled in `Decimal.Shortest`; a `Format` holds the
remaining decisions of one notation: where positional writing ends, whether a
whole number keeps a point, and which of two equally near decimals is taken.
-/

namespace LadderDiagram.Decimal

/-- The decisions of one notation for numbers. -/
structure Format where
  tie : Tie
  /-- Exponents of the leading digit that are written positionally. -/
  positional : Int → Bool
  /-- Whole numbers end in `.0`. -/
  keepsPoint : Bool

namespace Format

/-- Numbers in structured data: a point or an exponent always shows, and an exponent has a sign. -/
def data : Format where
  tie := .toEven
  positional e := decide (-5 ≤ e) && decide (e ≤ 15)
  keepsPoint := true

/-- Numbers in running text: positional at any size, whole numbers without a point. -/
def plain : Format where
  tie := .up
  positional _ := true
  keepsPoint := false

/-- The digits of a positive decimal laid out around its point or exponent. -/
def layOut (f : Format) (d : Scientific) : List Char :=
  let digits := Nat.toDigits 10 d.digits
  let lead := d.exponent + digits.length - 1
  if f.positional lead then
    if lead < 0 then
      '0' :: '.' :: List.replicate (-lead - 1).toNat '0' ++ digits
    else
      let whole := digits.take (lead.toNat + 1) ++
        List.replicate (lead.toNat + 1 - digits.length) '0'
      match digits.drop (lead.toNat + 1) with
      | [] => whole ++ if f.keepsPoint then ['.', '0'] else []
      | fraction => whole ++ '.' :: fraction
  else
    let mantissa := match digits with
      | [] => []
      | [c] => [c]
      | c :: rest => c :: '.' :: rest
    mantissa ++ 'e' :: (if lead < 0 then '-' else '+') :: Nat.toDigits 10 lead.natAbs

def magnitude (f : Format) (bits : UInt64) : List Char :=
  let x := Binary.ofBits bits
  if x.mantissa = 0 then if f.keepsPoint then ['0', '.', '0'] else ['0']
  else f.layOut (x.shortest f.tie)

/-- The text of a number; the sign of zero shows. -/
def render (f : Format) (x : Float) : String :=
  if x.isNaN then "NaN"
  else
    let sign := if x.toBits >>> 63 = 1 then "-" else ""
    if x.isInf then sign ++ "inf" else sign ++ String.ofList (f.magnitude x.toBits)

end Format

end LadderDiagram.Decimal
