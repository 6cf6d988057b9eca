import ProtoSchema.Decimal.Nearest

/-!
# The shortest decimal that reads back as a double

For a finite double `m · 2 ^ q` the decimals that read back as it fill an interval, whose ends
belong to it exactly if `m` is even. With `n` digits only the two neighbours of the value on the
grid of `n`-digit decimals can lie in it, so the least `n` with a hit gives the fewest digits; of
two hits the nearer is taken.
-/

namespace ProtoSchema.Decimal

/-- A decimal `digits · 10 ^ exponent`. -/
structure Digits where
  digits : Nat
  exponent : Int
  deriving DecidableEq, Repr

/-- The magnitude of a finite double as `m · 2 ^ q`. -/
structure Magnitude where
  m : Nat
  q : Int
  deriving DecidableEq, Repr

/-- The magnitude that the lower 63 bits of a finite double stand for. -/
def magnitudeOfBits (bits : Nat) : Magnitude :=
  let exponent : Nat := bits / twoTo 52
  let fraction : Nat := bits % twoTo 52
  if exponent = 0 then ⟨fraction, -1074⟩ else ⟨twoTo 52 + fraction, (exponent : Int) - 1075⟩

namespace Magnitude

/-- The exponent `e` of the common scale `10 ^ e`: large enough to make every grid used here
integral. -/
def scale : Nat := 400

/-- The value times `4 · 10 ^ scale`, as a fraction over `den`. -/
def num (v : Magnitude) : Nat := 4 * v.m * twoTo v.q.toNat * tenTo scale

/-- The denominator shared by `num`, `low` and `high`. -/
def den (v : Magnitude) : Nat := 4 * twoTo (-v.q).toNat

/-- The lower end of the interval of reals that round to the value. Below a power of two the
doubles are twice as dense, so the gap is half as wide. -/
def low (v : Magnitude) : Nat :=
  let gap := if v.m = twoTo 52 ∧ -1074 < v.q then 1 else 2
  (4 * v.m - gap) * twoTo v.q.toNat * tenTo scale

/-- The upper end of the interval of reals that round to the value. -/
def high (v : Magnitude) : Nat := (4 * v.m + 2) * twoTo v.q.toNat * tenTo scale

/-- Whether the point `x / 10 ^ scale` rounds to the value. -/
def contains (v : Magnitude) (x : Nat) : Bool :=
  let x := x * v.den
  if v.m % 2 = 0 then v.low ≤ x ∧ x ≤ v.high else v.low < x ∧ x < v.high

/-- The exponent `k` with `10 ^ k ≤ value < 10 ^ (k + 1)`. -/
def decimalExponent (v : Magnitude) : Int :=
  ((Nat.toDigits 10 (v.num / v.den)).length : Int) - 1 - scale

/-- The `n`-digit decimal next to the value that reads back as it, if there is one. -/
def neighbour? (v : Magnitude) (n : Nat) : Option Digits :=
  let exponent := v.decimalExponent - (n : Int) + 1
  let unit := tenTo (exponent + scale).toNat
  let below := v.num / (v.den * unit)
  let rest := v.num % (v.den * unit)
  let belowHits := v.contains (below * unit)
  let aboveHits := v.contains ((below + 1) * unit)
  let aboveNearer := v.den * unit < 2 * rest ∨ (2 * rest = v.den * unit ∧ below % 2 = 1)
  if belowHits ∧ ¬ (aboveHits ∧ aboveNearer) then some ⟨below, exponent⟩
  else if aboveHits then some ⟨below + 1, exponent⟩
  else none

/-- The shortest decimal that reads back as a value other than zero. Seventeen digits always
suffice. -/
def shortest (v : Magnitude) : Digits :=
  ((List.range 17).findSome? fun n => v.neighbour? (n + 1)).getD ⟨0, 0⟩

end Magnitude

/-- How a decimal is laid out: the decimal exponents that are written in positional notation, the
mark of an exponent and the least number of its digits. -/
structure Layout where
  leastPositional : Int
  endPositional : Int
  mark : String
  exponentDigits : Nat

/-- Numbers from `0.0001` up to `10 ^ 16` are written out, with at least one digit behind the point;
others as `1.5e+16` or `1e-05`. -/
def plainLayout : Layout := ⟨-4, 16, "e", 2⟩

/-- The digits of a natural, padded with zeros on the left. -/
def paddedDigits (width n : Nat) : String :=
  let digits := Nat.toDigits 10 n
  String.ofList (List.replicate (width - digits.length) '0' ++ digits)

/-- Digits with the point behind the first `point` of them, filled up with zeros; without digits
on one side of it a single zero stands there. -/
def positional (digits : List Char) (point : Int) : String :=
  let padded := List.replicate (1 - point).toNat '0' ++ digits
  let point := max point 1
  let whole := padded.take point.toNat
  let fraction := padded.drop point.toNat
  String.ofList
    (whole ++ List.replicate (point.toNat - whole.length) '0' ++ '.' ::
      (if fraction.isEmpty then ['0'] else fraction))

/-- A decimal in a layout. Trailing zeros of the digits are dropped first. -/
def Digits.text (d : Digits) (layout : Layout) : String :=
  let all := Nat.toDigits 10 d.digits
  let digits := (all.reverse.dropWhile (· = '0')).reverse
  let exponent := d.exponent + all.length - 1
  if layout.leastPositional ≤ exponent ∧ exponent < layout.endPositional then
    positional digits (exponent + 1)
  else
    let fraction := digits.drop 1
    String.ofList (digits.take 1 ++ (if fraction.isEmpty then [] else '.' :: fraction)) ++
      layout.mark ++ (if exponent < 0 then "-" else "+") ++
      paddedDigits layout.exponentDigits exponent.natAbs

/-- What a double is: no number, infinite, or finite with its magnitude bits. -/
inductive FloatClass
  | notANumber
  | infinite (negative : Bool)
  | finite (negative : Bool) (bits : Nat)

/-- The class of a double, read off its bits. -/
def classify (x : Float) : FloatClass :=
  let all := x.toBits.toNat
  let negative := twoTo 63 ≤ all
  let bits := all % twoTo 63
  if bits < infinityBits then .finite negative bits
  else if bits = infinityBits then .infinite negative
  else .notANumber

/-- The text of a double: the shortest decimal that reads back as it, or `inf`, `-inf`, `nan`. -/
def floatText (x : Float) : String :=
  match classify x with
  | .notANumber => "nan"
  | .infinite negative => if negative then "-inf" else "inf"
  | .finite negative bits =>
    (if negative then "-" else "") ++
      (if bits = 0 then "0.0" else (magnitudeOfBits bits).shortest.text plainLayout)

end ProtoSchema.Decimal
