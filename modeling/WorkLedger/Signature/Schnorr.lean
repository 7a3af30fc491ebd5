/-
# Schnorr signatures

BIP-340 signatures on secp256k1.  What is signed is the SHA-256 digest of the data, and the
auxiliary randomness is thirty-two zero bytes, so that signing is a function of key and data.

A public key is known by the `x` coordinate of a point with an even `y`; the lowercase digits
of that coordinate are the address of an account.
-/
import WorkLedger.Json.Text
import WorkLedger.Signature.Curve
import WorkLedger.Signature.Sha256

namespace WorkLedger

/-- The thirty-two big-endian bytes of a number below `2 ^ 256`. -/
def bytes32 (n : Nat) : List UInt8 :=
  (List.range 32).map fun i => UInt8.ofNat (n >>> (8 * (31 - i)))

/-- A signature: the `x` coordinate of a nonce point and a scalar. -/
structure Signature where
  r : Nat
  s : Nat
  r_range : 0 < r ∧ r < Curve.p
  s_range : 0 < s ∧ s < Curve.n
deriving DecidableEq

namespace Signature

/-- The signature of two numbers in range. -/
def ofParts? (r s : Nat) : Option Signature :=
  if h : (0 < r ∧ r < Curve.p) ∧ (0 < s ∧ s < Curve.n) then some ⟨r, s, h.1, h.2⟩ else none

/-- One hundred and twenty-eight lowercase digits. -/
def toHex (g : Signature) : String := Hex.text (bytes32 g.r ++ bytes32 g.s)

/-- Reads one hundred and twenty-eight digits of either case. -/
def parse? (text : String) : Option Signature :=
  match Hex.decode? text.toList with
  | some bytes =>
      if bytes.length = 64 then
        ofParts? (Digest.ofBigEndian (bytes.take 32)) (Digest.ofBigEndian (bytes.drop 32))
      else none
  | none => none

instance : ToJson Signature := ⟨fun g => .str g.toHex⟩

end Signature

namespace Schnorr

/-- SHA-256 with a tag that keeps its uses apart. -/
def taggedDigest (tag : String) (data : List UInt8) : List UInt8 :=
  let t := (Sha256.digest tag.toUTF8.toList).bytes
  (Sha256.digest (t ++ t ++ data)).bytes

/-- The challenge for a nonce point, a key and a message. -/
def challenge (r key : Nat) (message : List UInt8) : Nat :=
  Digest.ofBigEndian
    (taggedDigest "BIP0340/challenge" (bytes32 r ++ bytes32 key ++ message)) % Curve.n

end Schnorr

/-- A public key: a point of the curve, the one with an even `y` among the two of its `x`. -/
structure PublicKey where
  point : Curve.Point
deriving DecidableEq

namespace PublicKey

/-- The key of an address: sixty-four digits of either case that name a point. -/
def ofAddress? (address : String) : Option PublicKey :=
  match Hex.decode? address.toList with
  | some bytes =>
      if bytes.length = 32 then (Curve.lift? (Digest.ofBigEndian bytes)).map .mk else none
  | none => none

/-- The lowercase digits of the coordinate. -/
def address (key : PublicKey) : String := Hex.text (bytes32 key.point.x)

/-- Whether a signature of the data was made with the secret of this key. -/
def verifies (key : PublicKey) (data : List UInt8) (g : Signature) : Bool :=
  let e := Schnorr.challenge g.r key.point.x (Sha256.digest data).bytes
  let sum := (Curve.multipleOfGenerator g.s).add
    (.multiple 256 (Curve.n - e) (.ofPoint key.point))
  match sum.point? with
  | some a => a.y % 2 = 0 && a.x = g.r
  | none => false

end PublicKey

/-- A secret key: a scalar that is not zero. -/
structure SecretKey where
  scalar : Nat
  range : 0 < scalar ∧ scalar < Curve.n
deriving DecidableEq

namespace SecretKey

/-- The key of thirty-two bytes that are a scalar in range. -/
def ofBytes? (bytes : List UInt8) : Option SecretKey :=
  let d := Digest.ofBigEndian bytes
  if h : 0 < d ∧ d < Curve.n then (if bytes.length = 32 then some ⟨d, h⟩ else none) else none

/-- The point of a secret; the generator stands in for the neutral element, which no scalar
in range gives. -/
def point (key : SecretKey) : Curve.Point :=
  (Curve.multipleOfGenerator key.scalar).point?.getD Curve.generator

/-- The public key of a secret. -/
def publicKey (key : SecretKey) : PublicKey :=
  let a := key.point
  ⟨if a.y % 2 = 0 then a else ⟨a.x, Curve.p - a.y⟩⟩

/-- The signature of the data.  There is none if the nonce or the scalar comes out as zero,
which nobody will see. -/
def sign? (key : SecretKey) (data : List UInt8) : Option Signature :=
  let a := key.point
  let d := if a.y % 2 = 0 then key.scalar else Curve.n - key.scalar
  let message := (Sha256.digest data).bytes
  let mask := Schnorr.taggedDigest "BIP0340/aux" (List.replicate 32 0)
  let masked := List.zipWith (· ^^^ ·) (bytes32 d) mask
  let seed := Digest.ofBigEndian
    (Schnorr.taggedDigest "BIP0340/nonce" (masked ++ bytes32 a.x ++ message)) % Curve.n
  match (Curve.multipleOfGenerator seed).point? with
  | none => none
  | some r =>
      let k := if r.y % 2 = 0 then seed else Curve.n - seed
      let e := Schnorr.challenge r.x a.x message
      Signature.ofParts? r.x ((k + e * d) % Curve.n)

end SecretKey

end WorkLedger
