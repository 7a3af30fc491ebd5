/-
# Words

A word fills one slot of code, of the stack or of contract storage: a number or a text.
Contract storage is addressed by a text that names the kind of the word in front of it, so
that the number 5 and the text "5" have different slots.
-/
import WorkLedger.Machine.Opcode
import WorkLedger.Machine.Rational

namespace WorkLedger

/-- A number or a text. -/
inductive Word where
  | number (r : Rational)
  | text (s : String)
deriving DecidableEq, Inhabited

namespace Word

/-- The name of the kind. -/
def kind : Word → String
  | .number _ => "number"
  | .text _ => "text"

/-- The word as it is shown in messages. -/
def display : Word → String
  | .number r => r.text
  | .text s => s

/-- The key of the storage slot that a word names. -/
def storageKey (w : Word) : String := w.kind ++ ":" ++ w.display

/-- The instruction that a word spells. -/
def opcode? : Word → Option Opcode
  | .text s => Opcode.ofMnemonic? s
  | .number _ => none

/-- One for true, zero for false. -/
def ofBool (b : Bool) : Word := .number (if b then .one else .zero)

/-- An instruction as a slot of code. -/
def ofOpcode (op : Opcode) : Word := .text op.mnemonic

instance : ToJson Word :=
  ⟨fun
    | .number r => toJson r
    | .text s => .str s⟩

/-- The word as a value among published fields: a whole number alone, another as the list of its
terms. -/
def toValue : Word → Json
  | .number r =>
      match r.int? with
      | some n => .int n
      | none => .arr ([r.num, (r.den : Int)].map .int)
  | .text s => .str s

/-- Reads a number, or else a text. -/
def ofJson? : Json → Option Word
  | .str s => some (.text s)
  | j => (Rational.decode j).toOption.map .number

end Word

end WorkLedger
