/-
# Accounts

An account has an owner's address, a balance and possibly code; with code it is a contract.
A contract is bound to its code by the code hash, the digest of address and code together,
and it is stored under the digits of that hash, a plain account under its address.  An account
read back from the state also carries the root of its contract storage.
-/
import WorkLedger.Consensus
import WorkLedger.Machine.Word
import WorkLedger.Json.Source
import WorkLedger.Json.Text

namespace WorkLedger

instance : ToJson UInt64 := ⟨fun n => .int n.toNat⟩

instance : ToJson String := ⟨.str⟩

instance {α : Type} [ToJson α] : ToJson (List α) := ⟨fun items => .arr (items.map toJson)⟩

/-- An account. -/
structure Account where
  address : String
  balance : UInt64
  /-- The contract code, empty for a plain account. -/
  code : List Word
  codeHash : Option Digest
  /-- The root of the contract storage when the account was stored. -/
  storageRoot : Option Digest
deriving DecidableEq

namespace Account

/-- The digest of address and code; a plain account has none. -/
def codeHashOf (address : String) (code : List Word) : Option Digest :=
  if code.isEmpty then none else some (Json.digest (.arr [.str address, toJson code]))

/-- An account that has not been stored. -/
def new (address : String) (balance : UInt64) (code : List Word) : Account :=
  ⟨address, balance, code, codeHashOf address code, none⟩

/-- The key that the account is stored under. -/
def storageKey (a : Account) : String :=
  match a.codeHash with
  | some h => h.toHex
  | none => a.address

/-- Whether the account has code. -/
def isContract (a : Account) : Bool := !a.code.isEmpty

/-- The members that every written account has. -/
def publicMembers (a : Account) : List (String × Json) :=
  [("address", .str a.address), ("balance", toJson a.balance), ("code", toJson a.code),
    ("codeHash", Json.ofOption toJson a.codeHash)]

/-- The fields that anybody may publish, as a map. -/
def publicFields (a : Account) : Json.Object :=
  .ofMembers [("address", .str a.address), ("balance", toJson a.balance),
    ("code", .arr (a.code.map Word.toValue)), ("codeHash", Json.ofOption toJson a.codeHash)]

/-- The storage root is left out when there is none. -/
instance : ToJson Account :=
  ⟨fun a => .obj (a.publicMembers ++
    match a.storageRoot with
    | some h => [("storageRoot", toJson h)]
    | none => [])⟩

end Account

end WorkLedger
