/-
# Exact fractions of 64-bit integers

Numbers on the machine are fractions in lowest terms with a positive denominator, numerator
and denominator both 64-bit signed integers.  An operation works out the exact result and
reduces it before it looks at the size, so it fails for size only if the result itself does
not fit.
-/
import WorkLedger.Explained
import WorkLedger.Json.Basic

namespace WorkLedger

/-- The 64-bit signed integers. -/
def FitsInt64 (n : Int) : Prop := -9223372036854775808 ≤ n ∧ n < 9223372036854775808

instance (n : Int) : Decidable (FitsInt64 n) := inferInstanceAs (Decidable (_ ∧ _))

/-- A fraction in lowest terms. -/
structure Rational where
  num : Int
  den : Nat
  den_pos : 0 < den
  reduced : num.natAbs.Coprime den
  num_fits : FitsInt64 num
  den_fits : FitsInt64 den
deriving DecidableEq

namespace Rational

/-- Why an operation has no result. -/
inductive Fault where
  | divisionByZero
  /-- The result does not fit 64-bit integers. -/
  | overflow
deriving DecidableEq, Repr

/-- The wording of a fault. -/
def Fault.message : Fault → String
  | .divisionByZero => "division by zero"
  | .overflow => "arithmetic overflow"

/-- The name of a fault. -/
def Fault.tag : Fault → String
  | .divisionByZero => "DivisionByZero"
  | .overflow => "Overflow"

instance : Explained Fault := ⟨Fault.tag, Fault.message, fun _ => []⟩

/-- The fraction `num / den` in lowest terms. -/
def reduce (num den : Int) : Except Fault Rational :=
  if hd : den = 0 then .error .divisionByZero
  else
    let n := if den < 0 then -num else num
    let d := den.natAbs
    let g := n.natAbs.gcd d
    if h : FitsInt64 (n / g) ∧ FitsInt64 (d / g : Nat) then
      .ok {
        num := n / g
        den := d / g
        den_pos :=
          Nat.div_pos (Nat.gcd_le_right _ (Int.natAbs_pos.mpr hd))
            (Nat.gcd_pos_of_pos_right _ (Int.natAbs_pos.mpr hd))
        reduced := by
          have hg : 0 < g := Nat.gcd_pos_of_pos_right _ (Int.natAbs_pos.mpr hd)
          have : (n / (g : Int)).natAbs = n.natAbs / g := by
            rw [Int.natAbs_ediv_of_dvd (Int.ofNat_dvd_left.mpr (Nat.gcd_dvd_left _ _))]
            rfl
          rw [this]
          exact Nat.coprime_div_gcd_div_gcd hg
        num_fits := h.1
        den_fits := h.2 }
    else .error .overflow

/-- A 64-bit integer as a fraction. -/
def ofInt (n : Int) (h : FitsInt64 n) : Rational where
  num := n
  den := 1
  den_pos := Nat.one_pos
  reduced := Nat.coprime_one_right _
  num_fits := h
  den_fits := by decide

/-- Zero. -/
def zero : Rational := ofInt 0 (by decide)

/-- One. -/
def one : Rational := ofInt 1 (by decide)

instance : Inhabited Rational := ⟨zero⟩

/-- Whether the fraction is zero. -/
def isZero (a : Rational) : Bool := a.num = 0

/-- The numerator over the common denominator `a.den * b.den`. -/
def cross (a b : Rational) : Int := a.num * b.den

/-- The common denominator. -/
def commonDen (a b : Rational) : Int := a.den * b.den

/-- The sum. -/
def add (a b : Rational) : Except Fault Rational :=
  reduce (a.cross b + b.cross a) (a.commonDen b)

/-- The difference. -/
def sub (a b : Rational) : Except Fault Rational :=
  reduce (a.cross b - b.cross a) (a.commonDen b)

/-- The product. -/
def mul (a b : Rational) : Except Fault Rational :=
  reduce (a.num * b.num) (a.commonDen b)

/-- The quotient. -/
def div (a b : Rational) : Except Fault Rational :=
  if b.isZero then .error .divisionByZero else reduce (a.cross b) (a.den * b.num)

/-- Fractions are compared over the common denominator. -/
instance : Ord Rational := ⟨fun a b => compare (a.cross b) (b.cross a)⟩

/-- Whether `a < b`. -/
def lt (a b : Rational) : Bool := compare a b == .lt

/-- The value, if it is whole. -/
def int? (a : Rational) : Option Int := if a.den = 1 then some a.num else none

/-- An integer alone, other fractions with a stroke. -/
def text (a : Rational) : String :=
  if a.den = 1 then toString a.num else toString a.num ++ "/" ++ toString a.den

/-- An integer alone, other fractions as a pair. -/
instance : ToJson Rational :=
  ⟨fun a => if a.den = 1 then .int a.num else .arr [.int a.num, .int a.den]⟩

/-- Why a JSON value is no fraction. -/
inductive DecodeError where
  | fault (f : Fault)
  /-- Neither a 64-bit integer nor a pair of them. -/
  | notRational
deriving DecidableEq, Repr

/-- The wording of a decoding error. -/
def DecodeError.message : DecodeError → String
  | .fault f => f.message
  | .notRational => "data did not match any variant of untagged enum RationalRepr"

/-- Reads an integer, or a pair of integers in any terms. -/
def decode : Json → Except DecodeError Rational
  | .num (.int n) => if h : FitsInt64 n then .ok (ofInt n h) else .error .notRational
  | .arr [.num (.int n), .num (.int d)] =>
      if FitsInt64 n ∧ FitsInt64 d then (reduce n d).mapError .fault else .error .notRational
  | _ => .error .notRational

end Rational

end WorkLedger
