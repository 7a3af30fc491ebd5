/-
# Hexadecimal text

A byte is written as two digits, the high half first.  Writing uses the lowercase
digits; reading accepts either case and nothing else, and a text of odd length
is no sequence of bytes.
-/

namespace WorkLedger.Hex

/-- The two lowercase digits of a byte. -/
def ofByte (b : UInt8) : List Char :=
  [Nat.digitChar (b.toNat / 16), Nat.digitChar (b.toNat % 16)]

/-- The digits of a sequence of bytes, two for each. -/
def encode (bytes : List UInt8) : List Char :=
  bytes.flatMap ofByte

/-- The value of a digit of either case. -/
def digit? (c : Char) : Option Nat :=
  if '0' ≤ c ∧ c ≤ '9' then some (c.toNat - '0'.toNat)
  else if 'a' ≤ c ∧ c ≤ 'f' then some (c.toNat - 'a'.toNat + 10)
  else if 'A' ≤ c ∧ c ≤ 'F' then some (c.toNat - 'A'.toNat + 10)
  else none

/-- The bytes that a text spells, if it is made of pairs of digits. -/
def decode? : List Char → Option (List UInt8)
  | [] => some []
  | [_] => none
  | high :: low :: rest => do
      let h ← digit? high
      let l ← digit? low
      let bytes ← decode? rest
      return UInt8.ofNat (16 * h + l) :: bytes

/-- `encode` as a string. -/
def text (bytes : List UInt8) : String :=
  String.ofList (encode bytes)

/-- A text of `2 * n` digits names `n` bytes. -/
theorem length_of_decode? :
    ∀ {s : List Char} {bytes : List UInt8}, decode? s = some bytes →
      s.length = 2 * bytes.length
  | [], bytes, h => by
      simp only [decode?, Option.some.injEq] at h
      subst h; rfl
  | [_], _, h => by simp [decode?] at h
  | high :: low :: rest, bytes, h => by
      simp only [decode?, Option.bind_eq_bind, Option.bind_eq_some_iff, Option.pure_def,
        Option.some.injEq] at h
      obtain ⟨_, _, _, _, tail, htail, rfl⟩ := h
      have := length_of_decode? htail
      simp only [List.length_cons]
      omega

end WorkLedger.Hex
