/-
# Reading JSON text

A recursive descent over the characters.  Each reader returns what it read and the text
that follows.  The fuel bounds the depth of the recursion, and the length of the text is
always enough, for every step into a value or to the next item reads a character first.
-/
import WorkLedger.Text.Hex
import WorkLedger.Json.Literal
import WorkLedger.Json.Source

namespace WorkLedger.Reader

/-- The four characters that may stand between tokens. -/
def isBlank (c : Char) : Bool := c = ' ' || c = '\n' || c = '\t' || c = '\r'

/-- The text from its first character that is not blank. -/
def skipBlank (cs : List Char) : List Char := cs.dropWhile isBlank

/-- The digits at the front, and the text after them. -/
def spanDigits (cs : List Char) : List Char × List Char := cs.span Char.isDigit

/-! ## Numbers -/

/-- Digits after a point; a point has to be followed by a digit. -/
def readFraction : List Char → Option (List Char × List Char)
  | '.' :: rest =>
      match spanDigits rest with
      | ([], _) => none
      | (ds, rest) => some (ds, rest)
  | cs => some ([], cs)

/-- The digits of an exponent, of which there has to be one. -/
def readExponentDigits (negative : Bool) (cs : List Char) :
    Option (Option (Bool × List Char) × List Char) :=
  match spanDigits cs with
  | ([], _) => none
  | (ds, rest) => some (some (negative, ds), rest)

/-- An exponent, if there is one. -/
def readExponent : List Char → Option (Option (Bool × List Char) × List Char)
  | 'e' :: '-' :: rest => readExponentDigits true rest
  | 'e' :: '+' :: rest => readExponentDigits false rest
  | 'e' :: rest => readExponentDigits false rest
  | 'E' :: '-' :: rest => readExponentDigits true rest
  | 'E' :: '+' :: rest => readExponentDigits false rest
  | 'E' :: rest => readExponentDigits false rest
  | cs => some (none, cs)

/-- A number without its sign.  No digit follows a leading zero. -/
def readUnsigned (negative : Bool) (cs : List Char) : Option (Literal × List Char) :=
  match spanDigits cs with
  | ([], _) => none
  | ('0' :: _ :: _, _) => none
  | (whole, rest) => do
      let (fraction, rest) ← readFraction rest
      let (exponent, rest) ← readExponent rest
      return (⟨negative, whole, fraction, exponent⟩, rest)

/-- A number literal. -/
def readNumber : List Char → Option (Literal × List Char)
  | '-' :: rest => readUnsigned true rest
  | cs => readUnsigned false cs

/-! ## Strings -/

/-- The code unit of four hexadecimal digits. -/
def unit? (a b c d : Char) : Option Nat := do
  let a ← Hex.digit? a
  let b ← Hex.digit? b
  let c ← Hex.digit? c
  let d ← Hex.digit? d
  return ((a * 16 + b) * 16 + c) * 16 + d

/-- The character that a one-letter escape stands for. -/
def escaped? : Char → Option Char
  | '"' => some '"'
  | '\\' => some '\\'
  | '/' => some '/'
  | 'b' => some '\x08'
  | 'f' => some '\x0c'
  | 'n' => some '\n'
  | 'r' => some '\r'
  | 't' => some '\t'
  | _ => none

/-- Whether a code unit opens a surrogate pair. -/
def isHigh (n : Nat) : Bool := 0xD800 ≤ n && n ≤ 0xDBFF

/-- Whether a code unit closes a surrogate pair. -/
def isLow (n : Nat) : Bool := 0xDC00 ≤ n && n ≤ 0xDFFF

/-- The rest of a string after its opening quote.  The characters read so far come in
reverse, and `sound` tells whether no half of a surrogate pair was among them. -/
def readString (acc : List Char) (sound : Bool) :
    List Char → Option (Option String × List Char)
  | '"' :: rest => some (if sound then some (String.ofList acc.reverse) else none, rest)
  | '\\' :: 'u' :: a :: b :: c :: d :: rest =>
      match unit? a b c d with
      | none => none
      | some n =>
          if isHigh n then
            match rest with
            | '\\' :: 'u' :: a' :: b' :: c' :: d' :: rest' =>
                match unit? a' b' c' d' with
                | none => none
                | some m =>
                    if isLow m then
                      readString
                        (Char.ofNat (0x10000 + (n - 0xD800) * 0x400 + (m - 0xDC00)) :: acc)
                        sound rest'
                    else readString acc false ('\\' :: 'u' :: a' :: b' :: c' :: d' :: rest')
            | rest => readString acc false rest
          else if isLow n then readString acc false rest
          else readString (Char.ofNat n :: acc) sound rest
  | '\\' :: c :: rest =>
      match escaped? c with
      | none => none
      | some x => readString (x :: acc) sound rest
  | c :: rest => if c.toNat < 0x20 || c = '\\' then none else readString (c :: acc) sound rest
  | [] => none
termination_by cs => cs.length

/-! ## Values -/

mutual

/-- A value, blanks before it skipped. -/
def readValue : Nat → List Char → Option (Source × List Char)
  | 0, _ => none
  | fuel + 1, cs =>
      match skipBlank cs with
      | 'n' :: 'u' :: 'l' :: 'l' :: rest => some (.null, rest)
      | 't' :: 'r' :: 'u' :: 'e' :: rest => some (.bool true, rest)
      | 'f' :: 'a' :: 'l' :: 's' :: 'e' :: rest => some (.bool false, rest)
      | '"' :: rest =>
          match readString [] true rest with
          | none => none
          | some (s, rest) => some (.str s, rest)
      | '[' :: rest =>
          match skipBlank rest with
          | ']' :: rest => some (.arr [], rest)
          | rest =>
              match readValue fuel rest with
              | none => none
              | some (x, rest) =>
                  match readItems fuel rest with
                  | none => none
                  | some (items, rest) => some (.arr (x :: items), rest)
      | '{' :: rest =>
          match skipBlank rest with
          | '}' :: rest => some (.obj [], rest)
          | rest =>
              match readMember fuel rest with
              | none => none
              | some (m, rest) =>
                  match readMembers fuel rest with
                  | none => none
                  | some (members, rest) => some (.obj (m :: members), rest)
      | rest =>
          match readNumber rest with
          | none => none
          | some (l, rest) => some (.num l.number?, rest)

/-- Further items up to the closing bracket. -/
def readItems : Nat → List Char → Option (List Source × List Char)
  | 0, _ => none
  | fuel + 1, cs =>
      match skipBlank cs with
      | ']' :: rest => some ([], rest)
      | ',' :: rest =>
          match readValue fuel rest with
          | none => none
          | some (x, rest) =>
              match readItems fuel rest with
              | none => none
              | some (items, rest) => some (x :: items, rest)
      | _ => none

/-- A key, a colon and a value. -/
def readMember : Nat → List Char → Option ((Option String × Source) × List Char)
  | 0, _ => none
  | fuel + 1, cs =>
      match skipBlank cs with
      | '"' :: rest =>
          match readString [] true rest with
          | none => none
          | some (key, rest) =>
              match skipBlank rest with
              | ':' :: rest =>
                  match readValue fuel rest with
                  | none => none
                  | some (x, rest) => some ((key, x), rest)
              | _ => none
      | _ => none

/-- Further members up to the closing brace. -/
def readMembers : Nat → List Char → Option (List (Option String × Source) × List Char)
  | 0, _ => none
  | fuel + 1, cs =>
      match skipBlank cs with
      | '}' :: rest => some ([], rest)
      | ',' :: rest =>
          match readMember fuel rest with
          | none => none
          | some (m, rest) =>
              match readMembers fuel rest with
              | none => none
              | some (members, rest) => some (m :: members, rest)
      | _ => none

end

end WorkLedger.Reader

namespace WorkLedger

/-- Reads a text that holds one value and blanks around it. -/
def Source.read? (text : String) : Option Source :=
  let cs := text.toList
  match Reader.readValue (2 * cs.length + 2) cs with
  | none => none
  | some (x, rest) => if (Reader.skipBlank rest).isEmpty then some x else none

/-- Reads a text as a value, objects as maps. -/
def Json.read? (text : String) : Option Json :=
  ((Source.read? text).bind Source.json?).map Json.normalize

end WorkLedger
