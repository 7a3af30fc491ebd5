/-
# Keccak-256

The sponge with the padding of the first submission (a single `1` bit right after the message,
not the two bits that later standards put in front of it), a rate of 136 bytes and an output
of 32.

The state is five planes of five lanes: lane `x` of plane `y` is the word that the
specification calls `A[x, y]`.  A round is θ, then ρ and π together, then χ, then ι.
-/
import WorkLedger.Digest.Basic

namespace WorkLedger.Keccak

/-- Five lanes of one `y` coordinate. -/
structure Plane where
  (x0 x1 x2 x3 x4 : UInt64)

namespace Plane

/-- The plane of zero lanes. -/
def zero : Plane := ⟨0, 0, 0, 0, 0⟩

/-- Lane by lane exclusive or. -/
@[inline] def xor (p q : Plane) : Plane :=
  ⟨p.x0 ^^^ q.x0, p.x1 ^^^ q.x1, p.x2 ^^^ q.x2, p.x3 ^^^ q.x3, p.x4 ^^^ q.x4⟩

/-- χ: each lane is changed where the next one is clear and the one after it is set. -/
@[inline] def chi (p : Plane) : Plane :=
  ⟨p.x0 ^^^ (~~~p.x1 &&& p.x2), p.x1 ^^^ (~~~p.x2 &&& p.x3), p.x2 ^^^ (~~~p.x3 &&& p.x4),
    p.x3 ^^^ (~~~p.x4 &&& p.x0), p.x4 ^^^ (~~~p.x0 &&& p.x1)⟩

end Plane

/-- Rotation to the left by less than a word. -/
@[inline] def rotate (w : UInt64) (n : UInt64) : UInt64 :=
  if n = 0 then w else (w <<< n) ||| (w >>> (64 - n))

/-- The five planes of a state. -/
structure State where
  (y0 y1 y2 y3 y4 : Plane)

/-- The state before anything is absorbed. -/
def State.zero : State := ⟨.zero, .zero, .zero, .zero, .zero⟩

/-- θ: every column takes in the parities of its two neighbours. -/
def State.theta (a : State) : State :=
  let c := (((a.y0.xor a.y1).xor a.y2).xor a.y3).xor a.y4
  let d : Plane :=
    ⟨c.x4 ^^^ rotate c.x1 1, c.x0 ^^^ rotate c.x2 1, c.x1 ^^^ rotate c.x3 1,
      c.x2 ^^^ rotate c.x4 1, c.x3 ^^^ rotate c.x0 1⟩
  ⟨a.y0.xor d, a.y1.xor d, a.y2.xor d, a.y3.xor d, a.y4.xor d⟩

/-- ρ and π: every lane is rotated by its own amount and moved to its new place. -/
def State.rhoPi (a : State) : State :=
  ⟨⟨a.y0.x0, rotate a.y1.x1 44, rotate a.y2.x2 43, rotate a.y3.x3 21, rotate a.y4.x4 14⟩,
    ⟨rotate a.y0.x3 28, rotate a.y1.x4 20, rotate a.y2.x0 3, rotate a.y3.x1 45,
      rotate a.y4.x2 61⟩,
    ⟨rotate a.y0.x1 1, rotate a.y1.x2 6, rotate a.y2.x3 25, rotate a.y3.x4 8,
      rotate a.y4.x0 18⟩,
    ⟨rotate a.y0.x4 27, rotate a.y1.x0 36, rotate a.y2.x1 10, rotate a.y3.x2 15,
      rotate a.y4.x3 56⟩,
    ⟨rotate a.y0.x2 62, rotate a.y1.x3 55, rotate a.y2.x4 39, rotate a.y3.x0 41,
      rotate a.y4.x1 2⟩⟩

/-- One round; ι adds the round constant to the first lane. -/
def State.round (a : State) (constant : UInt64) : State :=
  let b := a.theta.rhoPi
  let first := b.y0.chi
  ⟨⟨first.x0 ^^^ constant, first.x1, first.x2, first.x3, first.x4⟩,
    b.y1.chi, b.y2.chi, b.y3.chi, b.y4.chi⟩

/-- The constants of the twenty-four rounds. -/
def roundConstants : List UInt64 :=
  [0x0000000000000001, 0x0000000000008082, 0x800000000000808a, 0x8000000080008000,
    0x000000000000808b, 0x0000000080000001, 0x8000000080008081, 0x8000000000008009,
    0x000000000000008a, 0x0000000000000088, 0x0000000080008009, 0x000000008000000a,
    0x000000008000808b, 0x800000000000008b, 0x8000000000008089, 0x8000000000008003,
    0x8000000000008002, 0x8000000000000080, 0x000000000000800a, 0x800000008000000a,
    0x8000000080008081, 0x8000000000008080, 0x0000000080000001, 0x8000000080008008]

/-- The permutation: all rounds in order. -/
def State.permute (a : State) : State :=
  roundConstants.foldl State.round a

/-! ## The sponge -/

/-- Bytes taken in between two permutations. -/
def rate : Nat := 136

/-- The little-endian word at offset `i`, reading zeros past the end. -/
def laneAt (input : ByteArray) (i : Nat) : UInt64 :=
  let byte (k : Nat) : UInt64 :=
    if h : i + k < input.size then (input.get (i + k) h).toUInt64 else 0
  byte 0 ||| (byte 1 <<< 8) ||| (byte 2 <<< 16) ||| (byte 3 <<< 24) |||
    (byte 4 <<< 32) ||| (byte 5 <<< 40) ||| (byte 6 <<< 48) ||| (byte 7 <<< 56)

/-- Takes in the seventeen words at offset `i`. -/
def State.absorbBlock (a : State) (input : ByteArray) (i : Nat) : State :=
  let w (k : Nat) : UInt64 := laneAt input (i + 8 * k)
  State.permute
    ⟨a.y0.xor ⟨w 0, w 1, w 2, w 3, w 4⟩, a.y1.xor ⟨w 5, w 6, w 7, w 8, w 9⟩,
      a.y2.xor ⟨w 10, w 11, w 12, w 13, w 14⟩,
      ⟨a.y3.x0 ^^^ w 15, a.y3.x1 ^^^ w 16, a.y3.x2, a.y3.x3, a.y3.x4⟩, a.y4⟩

/-- Takes in `count` blocks from offset `i` on. -/
def State.absorb (input : ByteArray) : (count i : Nat) → State → State
  | 0, _, a => a
  | count + 1, i, a => absorb input count (i + rate) (a.absorbBlock input i)

/-- The message followed by a set bit, zeros up to a whole number of blocks, and a set
last bit. -/
def pad (input : ByteArray) : ByteArray :=
  let missing := rate - input.size % rate
  if missing = 1 then input.push 0x81
  else ((missing - 2).fold (fun _ _ bytes => bytes.push 0) (input.push 0x01)).push 0x80

/-- The eight little-endian bytes of a word. -/
def laneBytes (w : UInt64) : List UInt8 :=
  [w.toUInt8, (w >>> 8).toUInt8, (w >>> 16).toUInt8, (w >>> 24).toUInt8,
    (w >>> 32).toUInt8, (w >>> 40).toUInt8, (w >>> 48).toUInt8, (w >>> 56).toUInt8]

/-- The first four lanes of a state. -/
def State.output (a : State) : Digest :=
  ⟨laneBytes a.y0.x0 ++ (laneBytes a.y0.x1 ++ (laneBytes a.y0.x2 ++ laneBytes a.y0.x3)), rfl⟩

/-- The Keccak-256 digest of a sequence of bytes. -/
def digest (input : ByteArray) : Digest :=
  let padded := pad input
  (State.absorb padded (padded.size / rate) 0 .zero).output

end WorkLedger.Keccak
