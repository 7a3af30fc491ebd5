/-
# Digests

A digest is thirty-two bytes.  Read as a big-endian number it is what the proof of work
compares, so the order on digests and the division by a difficulty are given here on the
bytes: the order is lexicographic and the division is long division, one byte at a time.
-/
import WorkLedger.Explained
import WorkLedger.Text.Hex

namespace WorkLedger

/-- A 32-byte digest. -/
structure Digest where
  /-- The bytes, the most significant first. -/
  bytes : List UInt8
  /-- There are thirty-two of them. -/
  length_bytes : bytes.length = 32
deriving DecidableEq

namespace Digest

/-- The digest of zero bytes only. -/
def zero : Digest := ⟨List.replicate 32 0, by simp⟩

/-- The largest digest. -/
def max : Digest := ⟨List.replicate 32 0xff, by simp⟩

instance : Inhabited Digest := ⟨zero⟩

/-- The number whose big-endian bytes these are. -/
def ofBigEndian (bytes : List UInt8) : Nat :=
  bytes.foldl (fun n b => 256 * n + b.toNat) 0

/-- A digest as a number below `2 ^ 256`. -/
def toNat (h : Digest) : Nat := ofBigEndian h.bytes

/-- Digests are compared byte by byte from the left. -/
instance : Ord Digest := ⟨fun a b => compare a.bytes b.bytes⟩

instance : LE Digest := ⟨fun a b => (compare a b).isLE⟩

instance (a b : Digest) : Decidable (a ≤ b) :=
  inferInstanceAs (Decidable ((compare a b).isLE = true))

/-! ## Hexadecimal form -/

/-- Sixty-four lowercase digits. -/
def toHex (h : Digest) : String := Hex.text h.bytes

/-- Why a text is not a digest. -/
inductive ParseError where
  /-- The text does not fill sixty-four bytes. -/
  | invalidLength (bytes : Nat)
  /-- The text has the right length and holds something else than digits. -/
  | invalidHex
deriving DecidableEq, Repr

/-- The wording of a parse error. -/
def ParseError.message : ParseError → String
  | .invalidLength n => s!"expected 64 hex characters, got {n}"
  | .invalidHex => "digest is not valid hex"

/-- The name of a parse error. -/
def ParseError.tag : ParseError → String
  | .invalidLength _ => "InvalidLength"
  | .invalidHex => "InvalidHex"

instance : Explained ParseError := ⟨ParseError.tag, ParseError.message, fun _ => []⟩

/-- Reads sixty-four digits of either case.  The length is counted in bytes of UTF-8, and
a wrong length is reported before a wrong character. -/
def parse (s : String) : Except ParseError Digest :=
  if s.utf8ByteSize ≠ 64 then .error (.invalidLength s.utf8ByteSize)
  else
    match Hex.decode? s.toList with
    | none => .error .invalidHex
    | some bytes =>
        if h : bytes.length = 32 then .ok ⟨bytes, h⟩ else .error .invalidHex

/-! ## Division -/

/-- Long division of big-endian bytes by `divisor`: the quotient bytes, given the remainder
that the bytes further left have left over. -/
def longDivide (divisor : Nat) : Nat → List UInt8 → List UInt8
  | _, [] => []
  | rem, b :: rest =>
      let current := 256 * rem + b.toNat
      UInt8.ofNat (current / divisor) :: longDivide divisor (current % divisor) rest

theorem length_longDivide (divisor : Nat) :
    ∀ (rem : Nat) (bytes : List UInt8), (longDivide divisor rem bytes).length = bytes.length
  | _, [] => rfl
  | _, _ :: rest => by simp [longDivide, length_longDivide divisor _ rest]

/-- The floor of a digest divided by a number; dividing by zero gives the largest digest. -/
def divide (h : Digest) (divisor : UInt64) : Digest :=
  if divisor = 0 then max
  else ⟨longDivide divisor.toNat 0 h.bytes, by rw [length_longDivide, h.length_bytes]⟩

end Digest

end WorkLedger
