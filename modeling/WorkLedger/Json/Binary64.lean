/-
# Binary64 numbers as decimal text

A finite float is `m * 2 ^ q`, and every real number between the midpoints to its two
neighbours reads back as it (the midpoints too, if `m` is even).  Its text has the fewest
digits that read back and is the nearest such decimal; if two are equally near, the one
with the even last digit is taken.  All of that is decided in exact integer arithmetic.

The layout is positional when the first digit stands for `10 ^ e` with `-5 ≤ e < 16`, with
at least one digit after the point, and `d.ddde±N` otherwise.
-/

namespace WorkLedger.Binary64

/-- Whether the sign bit is set. -/
def negative (bits : UInt64) : Bool := bits >>> 63 = 1

/-- The eleven exponent bits. -/
def exponentBits (bits : UInt64) : Nat := ((bits >>> 52) &&& 0x7ff).toNat

/-- The fifty-two fraction bits. -/
def fractionBits (bits : UInt64) : Nat := (bits &&& 0xfffffffffffff).toNat

/-- Neither infinite nor a NaN. -/
def finite (bits : UInt64) : Bool := exponentBits bits ≠ 0x7ff

/-- The integer `m` of the magnitude `m * 2 ^ q`. -/
def significand (bits : UInt64) : Nat :=
  if exponentBits bits = 0 then fractionBits bits else fractionBits bits + 0x10000000000000

/-- The exponent `q` of the magnitude `m * 2 ^ q`. -/
def binaryExponent (bits : UInt64) : Int :=
  if exponentBits bits = 0 then -1074 else (exponentBits bits : Int) - 1075

/-- The magnitude and the ends of the interval that rounds to it, all as numerators over one
denominator. -/
structure Interval where
  low : Nat
  value : Nat
  high : Nat
  den : Nat
  /-- Whether the ends themselves round to the value. -/
  closed : Bool

/-- The interval of a nonzero finite float.  The lower neighbour is twice as near when the
significand is the least of its binade. -/
def interval (bits : UInt64) : Interval :=
  let m := significand bits
  let q := binaryExponent bits
  let below := if fractionBits bits = 0 ∧ 1 < exponentBits bits then 1 else 2
  let up := Nat.pow 2 (q - 2).toNat
  ⟨(4 * m - below) * up, 4 * m * up, (4 * m + 2) * up, Nat.pow 2 (2 - q).toNat, m % 2 = 0⟩

/-- Whether the decimal `n / d` reads back as the value of the interval. -/
def Interval.holds (v : Interval) (n d : Nat) : Bool :=
  if v.closed then v.low * d ≤ n * v.den ∧ n * v.den ≤ v.high * d
  else v.low * d < n * v.den ∧ n * v.den < v.high * d

/-- The exponent of the first decimal digit of the value; 400 is past every float's. -/
def Interval.decimalExponent (v : Interval) : Int :=
  (Nat.toDigits 10 (v.value * Nat.pow 10 400 / v.den)).length - 401

/-- The multiple of `10 ^ (e + 1 - digits)` that reads back and is nearest, as a numerator,
where `e` is the exponent of the first digit. -/
def Interval.onGrid (v : Interval) (e : Int) (digits : Nat) : Option Nat :=
  let unit := e + 1 - digits
  let num := Nat.pow 10 unit.toNat
  let den := Nat.pow 10 (-unit).toNat
  let floor := v.value * den / (v.den * num)
  let left := v.value * den - floor * (v.den * num)
  let right := v.den * num - left
  match v.holds (floor * num) den, v.holds ((floor + 1) * num) den with
  | true, false => some floor
  | false, true => some (floor + 1)
  | true, true =>
      if left < right ∨ (left = right ∧ floor % 2 = 0) then some floor else some (floor + 1)
  | false, false => none

/-- The shortest digits that read back, with at least `digits` of them tried, as an integer
and the exponent of its last digit. -/
def Interval.shortestFrom (v : Interval) (e : Int) : (fuel digits : Nat) → Nat × Int
  | 0, digits => (v.value, e + 1 - digits)
  | fuel + 1, digits =>
      match v.onGrid e digits with
      | some n => (n, e + 1 - digits)
      | none => v.shortestFrom e fuel (digits + 1)

/-- The shortest decimal that reads back; seventeen digits always do. -/
def Interval.shortest (v : Interval) : Nat × Int :=
  v.shortestFrom v.decimalExponent 17 1

/-- The digits `ds`, the first of which stands for `10 ^ e`, around a point. -/
def positional (ds : List Char) (e : Int) : List Char :=
  if e < 0 then '0' :: '.' :: (List.replicate (-e - 1).toNat '0' ++ ds)
  else
    let whole := e.toNat + 1
    if ds.length ≤ whole then ds ++ List.replicate (whole - ds.length) '0' ++ ['.', '0']
    else ds.take whole ++ '.' :: ds.drop whole

/-- The digits `ds` with one digit before the point, and the exponent behind them. -/
def scientific (ds : List Char) (e : Int) : List Char :=
  let fraction := ds.drop 1
  let exponent := (if e < 0 then '-' else '+') :: Nat.toDigits 10 e.natAbs
  ds.take 1 ++ (if fraction.isEmpty then [] else '.' :: fraction) ++ 'e' :: exponent

/-- The layout of the digits `ds`, the first of which stands for `10 ^ e`. -/
def layout (ds : List Char) (e : Int) : List Char :=
  if -5 ≤ e ∧ e < 16 then positional ds e else scientific ds e

/-- The digits without the zeros at their end. -/
def trimZeros (ds : List Char) : List Char :=
  (ds.reverse.dropWhile (· = '0')).reverse

/-- The text of a magnitude. -/
def magnitude (bits : UInt64) : List Char :=
  if significand bits = 0 then ['0', '.', '0']
  else
    let (n, last) := (interval bits).shortest
    let ds := Nat.toDigits 10 n
    layout (trimZeros ds) (last + ds.length - 1)

/-- The text of a finite float. -/
def text (bits : UInt64) : List Char :=
  if negative bits then '-' :: magnitude bits else magnitude bits

end WorkLedger.Binary64
