/-
# The curve secp256k1

Points of `y ^ 2 = x ^ 3 + 7` over the integers modulo a prime, with the group law.  Sums are
worked out in Jacobian coordinates, where `(x, y, z)` stands for the point
`(x / z ^ 2, y / z ^ 3)` and `z = 0` for the neutral element, so that only the last step
divides.
-/

namespace WorkLedger.Curve

/-- The prime of the field. -/
def p : Nat := 0xfffffffffffffffffffffffffffffffffffffffffffffffffffffffefffffc2f

/-- The order of the group. -/
def n : Nat := 0xfffffffffffffffffffffffffffffffebaaedce6af48a03bbfd25e8cd0364141

/-- A power modulo `m`, from the `bits` lowest bits of the exponent. -/
def powerMod (m : Nat) : (bits base exponent : Nat) → Nat
  | 0, _, _ => 1 % m
  | bits + 1, base, exponent =>
      let square := powerMod m bits (base * base % m) (exponent / 2)
      if exponent % 2 = 1 then base * square % m else square

/-- The inverse in the field, by Fermat's little theorem. -/
def inverse (a : Nat) : Nat := powerMod p 256 a (p - 2)

/-- A square root in the field, if there is one. -/
def sqrt? (a : Nat) : Option Nat :=
  let y := powerMod p 256 (a % p) ((p + 1) / 4)
  if y * y % p = a % p then some y else none

/-- A difference in the field. -/
@[inline] def subMod (a b : Nat) : Nat := (a + (p - b)) % p

/-- An affine point other than the neutral element. -/
structure Point where
  x : Nat
  y : Nat
deriving DecidableEq, Repr

/-- A point in Jacobian coordinates. -/
structure Jacobian where
  x : Nat
  y : Nat
  z : Nat

namespace Jacobian

/-- The neutral element. -/
def zero : Jacobian := ⟨1, 1, 0⟩

/-- An affine point. -/
def ofPoint (a : Point) : Jacobian := ⟨a.x, a.y, 1⟩

/-- The affine point, none for the neutral element. -/
def point? (a : Jacobian) : Option Point :=
  if a.z = 0 then none
  else
    let i := inverse a.z
    let i2 := i * i % p
    some ⟨a.x * i2 % p, a.y * (i2 * i % p) % p⟩

/-- Twice a point. -/
def double (a : Jacobian) : Jacobian :=
  if a.z = 0 ∨ a.y = 0 then zero
  else
    let y2 := a.y * a.y % p
    let s := 4 * a.x * y2 % p
    let m := 3 * a.x * a.x % p
    let x := subMod (m * m % p) (2 * s % p)
    ⟨x, subMod (m * subMod s x % p) (8 * y2 * y2 % p), 2 * a.y * a.z % p⟩

/-- The sum of two points. -/
def add (a b : Jacobian) : Jacobian :=
  if a.z = 0 then b
  else if b.z = 0 then a
  else
    let az2 := a.z * a.z % p
    let bz2 := b.z * b.z % p
    let u1 := a.x * bz2 % p
    let u2 := b.x * az2 % p
    let s1 := a.y * (bz2 * b.z % p) % p
    let s2 := b.y * (az2 * a.z % p) % p
    if u1 = u2 then (if s1 = s2 then a.double else zero)
    else
      let h := subMod u2 u1
      let r := subMod s2 s1
      let h2 := h * h % p
      let h3 := h2 * h % p
      let v := u1 * h2 % p
      let x := subMod (r * r % p) ((h3 + 2 * v) % p)
      ⟨x, subMod (r * subMod v x % p) (s1 * h3 % p), h * a.z * b.z % p⟩

/-- A multiple of a point from the `bits` lowest bits of the scalar. -/
def multiple : (bits scalar : Nat) → Jacobian → Jacobian
  | 0, _, _ => zero
  | bits + 1, scalar, a =>
      let rest := multiple bits (scalar / 2) a.double
      if scalar % 2 = 1 then a.add rest else rest

end Jacobian

/-- The generator of the group. -/
def generator : Point where
  x := 0x79be667ef9dcbbac55a06295ce870b07029bfcdb2dce28d959f2815b16f81798
  y := 0x483ada7726a3c4655da4fbfc0e1108a8fd17b448a68554199c47d08ffb10d4b8

/-- A multiple of the generator. -/
def multipleOfGenerator (scalar : Nat) : Jacobian :=
  .multiple 256 scalar (.ofPoint generator)

/-- The point with an even `y` of that `x`, if `x` is a coordinate of the curve. -/
def lift? (x : Nat) : Option Point :=
  if x < p then
    (sqrt? (x * x * x + 7)).map fun y => ⟨x, if y % 2 = 0 then y else p - y⟩
  else none

end WorkLedger.Curve
