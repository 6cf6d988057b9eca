/-!
# The double nearest to a rational

A finite double is `m · 2 ^ q` with `m < 2 ^ 53` and `-1074 ≤ q`. `nearestBits` picks the one
nearest to a quotient of naturals, a tie going to the even `m`; what lies beyond the largest finite
double becomes infinity. Everything is exact arithmetic on naturals until the bits are known.
-/

namespace ProtoSchema.Decimal

/-- A power of two. -/
def twoTo (exponent : Nat) : Nat := Nat.pow 2 exponent

/-- A power of ten. -/
def tenTo (exponent : Nat) : Nat := Nat.pow 10 exponent

/-- The integer nearest to `n / d`, a tie going to the even one. -/
def roundQuotient (n d : Nat) : Nat :=
  let q := n / d
  let r := n % d
  if 2 * r < d then q
  else if d < 2 * r then q + 1
  else q + q % 2

/-- The integer nearest to `n / d / 2 ^ q`. -/
def roundScaled (n d : Nat) (q : Int) : Nat :=
  roundQuotient (n * twoTo (-q).toNat) (d * twoTo q.toNat)

/-- The exponent `q` for which `n / d / 2 ^ q` has 53 binary digits before the point, or the
least exponent of a double if that is larger. -/
def binaryExponent (n d : Nat) : Int :=
  let q : Int := (n.log2 : Int) - (d.log2 : Int) - 52
  let q := if n * twoTo (-q).toNat < d * twoTo q.toNat * twoTo 52 then q - 1 else q
  max q (-1074)

/-- The bits of positive infinity. -/
def infinityBits : Nat := 0x7FF * twoTo 52

/-- The bits of the double nearest to `n / d`. The rounded `m` may reach `2 ^ 53`; the carry into
the exponent bits is then the right result as it stands. -/
def nearestBits (n d : Nat) : Nat :=
  if n = 0 then 0
  else
    let q := binaryExponent n d
    min infinityBits ((q + 1074).toNat * twoTo 52 + roundScaled n d q)

/-- The double with the given magnitude bits and sign. -/
def ofBits (negative : Bool) (bits : Nat) : Float :=
  Float.ofBits (UInt64.ofNat (if negative then twoTo 63 + bits else bits))

/-- The double nearest to an integer, if the integer is not beyond all finite doubles. -/
def ofInt? (i : Int) : Option Float :=
  let bits := nearestBits i.natAbs 1
  if bits < infinityBits then some (ofBits (i < 0) bits) else none

/-- The infinities. -/
def infinity (negative : Bool) : Float := ofBits negative infinityBits

/-- The quiet value that is no number. -/
def notANumber : Float := ofBits false (infinityBits + twoTo 51)

/-- The magnitude bits of the double nearest to `mantissa · 10 ^ exponent`. Decimals far outside
the range of doubles are settled by their number of digits alone. -/
def nearestBitsOfDecimal (mantissa : Nat) (exponent : Int) : Nat :=
  let magnitude : Int := ((Nat.toDigits 10 mantissa).length : Int) + exponent
  if mantissa = 0 ∨ magnitude < -400 then 0
  else if 400 < magnitude then infinityBits
  else nearestBits (mantissa * tenTo exponent.toNat) (tenTo (-exponent).toNat)

/-- The value of a run of decimal digits. -/
def natOfDigits (digits : List Char) : Nat :=
  digits.foldl (fun n c => n * 10 + (c.toNat - '0'.toNat)) 0

/-- Splits a numeral such as `12.5e-3` into the digits before the point, those behind it, and the
exponent. -/
def splitNumeral (numeral : List Char) : List Char × List Char × Int :=
  let (whole, rest) := numeral.span Char.isDigit
  let (fraction, rest) :=
    match rest with
    | '.' :: rest => rest.span Char.isDigit
    | _ => ([], rest)
  let exponent : Int :=
    match rest with
    | _ :: '-' :: digits => -(natOfDigits digits : Int)
    | _ :: '+' :: digits => natOfDigits digits
    | _ :: digits => natOfDigits digits
    | [] => 0
  (whole, fraction, exponent)

/-- The double nearest to a numeral with a point or an exponent. -/
def ofNumeral (negative : Bool) (numeral : List Char) : Float :=
  let (whole, fraction, exponent) := splitNumeral numeral
  ofBits negative
    (nearestBitsOfDecimal (natOfDigits (whole ++ fraction)) (exponent - fraction.length))

end ProtoSchema.Decimal
