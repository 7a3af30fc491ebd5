/-
# Reading accounts

Every field has a reader that says what is wrong with a value.  A published account is a map
of exactly four fields, and its first faulty field in the order of the keys is reported; an
account inside a larger text is a record, which is read or is not.
-/
import WorkLedger.Account.Basic
import WorkLedger.Text.Quoted

namespace WorkLedger

/-- What a field should have been. -/
inductive Expected where
  | text
  | u64
  | sequence

/-- The name of an expectation. -/
def Expected.name : Expected → String
  | .text => "a string"
  | .u64 => "u64"
  | .sequence => "a sequence"

/-- Why a value is not the field that was expected. -/
inductive FieldError where
  | wrongType (found : Json) (expected : Expected)
  /-- A negative number where a count was expected. -/
  | negative (n : Int)
  /-- A slot of code is no word. -/
  | notWord
  | digest (e : Digest.ParseError)

namespace FieldError

/-- How a value is named in a message. -/
def describe : Json → String
  | .null => "null"
  | .bool b => s!"boolean `{b}`"
  | .num (.int n) => s!"integer `{n}`"
  | .num n => s!"floating point `{String.ofList n.text}`"
  | .str s => s!"string {Quoted.text s}"
  | .arr _ => "sequence"
  | .obj _ => "map"

/-- The wording of a field error. -/
def message : FieldError → String
  | .wrongType found expected => s!"invalid type: {describe found}, expected {expected.name}"
  | .negative n => s!"invalid value: integer `{n}`, expected u64"
  | .notWord => "data did not match any variant of untagged enum Word"
  | .digest e => e.message

end FieldError

namespace Json

/-- A text. -/
def readText : Json → Except FieldError String
  | .str s => .ok s
  | found => .error (.wrongType found .text)

/-- An integer of sixty-four bits without a sign. -/
def readU64 : Json → Except FieldError UInt64
  | .num (.int n) =>
      if n < 0 then .error (.negative n)
      else if n < UInt64.size then .ok (UInt64.ofNat n.toNat)
      else .error (.wrongType (.int n) .u64)
  | found => .error (.wrongType found .u64)

/-- A digest in hexadecimal. -/
def readDigest (j : Json) : Except FieldError Digest := do
  let s ← readText j
  (Digest.parse s).mapError .digest

/-- A digest, or `null` for none. -/
def readDigest? : Json → Except FieldError (Option Digest)
  | .null => .ok none
  | j => (readDigest j).map some

/-- Slots of code. -/
def readCode : Json → Except FieldError (List Word)
  | .arr items => items.mapM fun j =>
      match Word.ofJson? j with
      | some w => .ok w
      | none => .error .notWord
  | found => .error (.wrongType found .sequence)

end Json

namespace Account

/-- The fields of a published account, no more and no less. -/
def publishedFields : List String := ["address", "balance", "code", "codeHash"]

/-- Reads an account from a map; fields that are not there count as `null`. -/
def ofFields (fields : Json.Object) : Except FieldError Account := do
  let field (name : String) : Json := (fields.get? name).getD .null
  let address ← (field "address").readText
  let balance ← (field "balance").readU64
  let code ← (field "code").readCode
  let codeHash ← (field "codeHash").readDigest?
  return ⟨address, balance, code, codeHash, none⟩

/-- Reads an account as a record.  The code hash may be missing from an object, the storage
root from any record. -/
def ofSource? (s : Source) : Option Account := do
  let [address, balance, code, codeHash, storageRoot] ←
    s.record? ["address", "balance", "code", "codeHash", "storageRoot"] 4 | none
  return {
    address := ← Source.required? (·.readText.toOption) address
    balance := ← Source.required? (·.readU64.toOption) balance
    code := ← Source.required? (·.readCode.toOption) code
    codeHash := ← Source.optional? (·.readDigest.toOption) codeHash
    storageRoot := ← Source.optional? (·.readDigest.toOption) storageRoot }

end Account

end WorkLedger
