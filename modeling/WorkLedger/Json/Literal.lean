/-
# Number literals

A literal is a sign, the digits before the point, those after it and an exponent.  An
integer that fits 64 bits is itself; the literal `-0` and everything with a point, an
exponent or too many digits is a float.

A float is read from a 64-bit significand, which takes in digits from the left while they
fit, and one power of ten: the significand as a float is multiplied or divided by it once.
Powers beyond `10 ^ 308` are divided out in two steps.  The result is within the last bits of
the decimal and not always the nearest float.  A value that is too large is none at all.
-/
import WorkLedger.Json.Basic

namespace WorkLedger

/-- A number as it is spelled. -/
structure Literal where
  negative : Bool
  /-- The digits before the point. -/
  whole : List Char
  /-- The digits after the point, none if there is no point. -/
  fraction : List Char
  /-- The sign, negative if `true`, and the digits of the exponent. -/
  exponent : Option (Bool × List Char)

namespace Literal

/-- The value of a digit. -/
def digit (c : Char) : Nat := c.toNat - '0'.toNat

/-- The number that digits spell. -/
def digitsValue (ds : List Char) : Nat := ds.foldl (fun n c => 10 * n + digit c) 0

/-- Takes in digits while the significand stays below `2 ^ 64`; the second component counts
the digits left out. -/
def takeWhole (n : Nat) : List Char → Nat × Nat
  | [] => (n, 0)
  | c :: rest =>
      let next := 10 * n + digit c
      if next < UInt64.size then takeWhole next rest else (n, rest.length + 1)

/-- Takes in digits while the significand stays below `2 ^ 64`; the second component counts
the digits taken. -/
def takeFraction (n : Nat) : List Char → Nat × Nat
  | [] => (n, 0)
  | c :: rest =>
      let next := 10 * n + digit c
      if next < UInt64.size then
        let (m, taken) := takeFraction next rest
        (m, taken + 1)
      else (n, 0)

/-- A power of ten up to `10 ^ 308`. -/
def powerOfTen (k : Nat) : Float := Float.ofScientific 1 false k

/-- `f * 10 ^ e`, none if it is too large.  Each step divides by `10 ^ 308`, so three steps
bring every 64-bit significand to zero. -/
def scale (f : Float) (e : Int) : (fuel : Nat) → Option Float
  | 0 => some 0
  | fuel + 1 =>
      if e.natAbs ≤ 308 then
        if 0 ≤ e then
          let g := f * powerOfTen e.natAbs
          if g.isInf then none else some g
        else some (f / powerOfTen e.natAbs)
      else if f == 0 then some f
      else if 0 ≤ e then none
      else scale (f / powerOfTen 308) (e + 308) fuel

/-- The float of a sign, a significand and an exponent. -/
def float? (negative : Bool) (significand : Nat) (e : Int) : Option Number :=
  (scale significand.toUInt64.toFloat e 4).map fun f =>
    .float (if negative then -f else f).toBits

/-- What a literal denotes. -/
def number? (l : Literal) : Option Number :=
  let (n, dropped) := takeWhole 0 l.whole
  if l.fraction.isEmpty && l.exponent.isNone && dropped = 0 then
    if !l.negative then some (.int n)
    else if n = 0 ∨ 0x8000000000000000 < n then float? true n 0
    else some (.int (-n))
  else
    let (m, taken) := takeFraction n l.fraction
    let start : Int := (dropped : Int) - taken
    match l.exponent with
    | none => float? l.negative m start
    | some (below, ds) =>
        let e := digitsValue ds
        if e < 0x80000000 then float? l.negative m (if below then start - e else start + e)
        else if m ≠ 0 && !below then none
        else float? l.negative 0 0

end Literal

end WorkLedger
