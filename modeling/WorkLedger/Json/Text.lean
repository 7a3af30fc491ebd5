/-
# Canonical JSON text

The text is compact.  In strings only the quote, the backslash and the characters below
U+0020 are escaped, everything else stands for itself.  `Json.canonical` writes objects as
maps, so that two values which differ in the order of members only have one text; it is this
text, in UTF-8, that every digest of the ledger is taken of.

Each writer takes the text that follows, which makes writing linear in the size of the
result.
-/
import WorkLedger.Digest.Keccak
import WorkLedger.Json.Basic
import WorkLedger.Json.Binary64

namespace WorkLedger

/-- The text of a number. -/
def Number.text : Number → List Char
  | .int (.ofNat n) => Nat.toDigits 10 n
  | .int (.negSucc n) => '-' :: Nat.toDigits 10 (n + 1)
  | .float bits => Binary64.text bits

namespace Json

/-- A character inside a quoted text, in front of `rest`. -/
def escape (c : Char) (rest : List Char) : List Char :=
  if c = '"' then '\\' :: '"' :: rest
  else if c = '\\' then '\\' :: '\\' :: rest
  else if c = '\x08' then '\\' :: 'b' :: rest
  else if c = '\t' then '\\' :: 't' :: rest
  else if c = '\n' then '\\' :: 'n' :: rest
  else if c = '\x0c' then '\\' :: 'f' :: rest
  else if c = '\r' then '\\' :: 'r' :: rest
  else if c.toNat < 0x20 then
    '\\' :: 'u' :: '0' :: '0' ::
      Nat.digitChar (c.toNat / 16) :: Nat.digitChar (c.toNat % 16) :: rest
  else c :: rest

/-- A quoted text in front of `rest`. -/
def writeString (s : String) (rest : List Char) : List Char :=
  '"' :: s.toList.foldr escape ('"' :: rest)

mutual

/-- The text of a value in front of `rest`. -/
def write : Json → List Char → List Char
  | .null, rest => 'n' :: 'u' :: 'l' :: 'l' :: rest
  | .bool true, rest => 't' :: 'r' :: 'u' :: 'e' :: rest
  | .bool false, rest => 'f' :: 'a' :: 'l' :: 's' :: 'e' :: rest
  | .num n, rest => n.text ++ rest
  | .str s, rest => writeString s rest
  | .arr [], rest => '[' :: ']' :: rest
  | .arr (x :: items), rest => '[' :: write x (writeItems items rest)
  | .obj [], rest => '{' :: '}' :: rest
  | .obj ((k, v) :: members), rest =>
      '{' :: writeString k (':' :: write v (writeMembers members rest))

/-- Further items with their commas, and the closing bracket. -/
def writeItems : List Json → List Char → List Char
  | [], rest => ']' :: rest
  | x :: items, rest => ',' :: write x (writeItems items rest)

/-- Further members with their commas, and the closing brace. -/
def writeMembers : List (String × Json) → List Char → List Char
  | [], rest => '}' :: rest
  | (k, v) :: members, rest =>
      ',' :: writeString k (':' :: write v (writeMembers members rest))

end

/-- The value as it stands, members in their order. -/
def compact (a : Json) : String := String.ofList (write a [])

/-- The canonical text: objects are written as maps. -/
def canonical (a : Json) : String := compact a.normalize

/-- The characters of the canonical text in the order of their code points.  Values of
different structure can share it. -/
def sortedCharacters (a : Json) : String :=
  String.ofList (a.canonical.toList.mergeSort (fun c d => decide (c ≤ d)))

end Json

/-- The digest of a text. -/
def Digest.ofText (s : String) : Digest := Keccak.digest s.toUTF8

/-- The digest of a value is that of its canonical text. -/
def Json.digest (a : Json) : Digest := Digest.ofText a.canonical

/-- The digest of anything with a JSON form. -/
def digestOf {α : Type} [ToJson α] (a : α) : Digest := (toJson a).digest

instance : ToJson Digest := ⟨fun h => .str h.toHex⟩

end WorkLedger
