/-
# Transactions

A transaction moves value, publishes an account or pays a mining reward.  Only the first kind
is signed; the signature is over the transaction as it was without one.  An identifier is a
random UUID, and the random bytes are an argument of whatever makes a transaction.
-/
import WorkLedger.Account.Wallet

namespace WorkLedger

/-- What a transaction does. -/
inductive Payload where
  /-- Publishes an account, given by its fields. -/
  | createAccount (fields : Json.Object)
  /-- Moves value, and runs the recipient's code if it has any. -/
  | transact
  /-- Pays the beneficiary of a block. -/
  | miningReward
deriving DecidableEq

namespace Payload

/-- The name of the kind. -/
def kind : Payload → String
  | .createAccount _ => "CREATE_ACCOUNT"
  | .transact => "TRANSACT"
  | .miningReward => "MINING_REWARD"

/-- The kind comes first, the fields of an account after it. -/
instance : ToJson Payload :=
  ⟨fun d => .obj (("type", .str d.kind) ::
    match d with
    | .createAccount fields => [("accountData", fields.toJson)]
    | _ => [])⟩

end Payload

/-- A transaction. -/
structure Transaction where
  id : String
  sender : String
  recipient : String
  value : UInt64
  gasLimit : UInt64
  data : Payload
  signature : Option Signature
deriving DecidableEq

namespace Transaction

/-- The signature is left out when there is none. -/
instance : ToJson Transaction :=
  ⟨fun t => .obj
    ([("id", .str t.id), ("from", .str t.sender), ("to", .str t.recipient),
      ("value", toJson t.value), ("gasLimit", toJson t.gasLimit), ("data", toJson t.data)] ++
      match t.signature with
      | some g => [("signature", toJson g)]
      | none => [])⟩

/-- What the signature is over: the transaction without it. -/
def signingPayload (t : Transaction) : Transaction := { t with signature := none }

/-- The transaction with a wallet's signature. -/
def signedBy (t : Transaction) (w : Wallet) : Transaction :=
  { t with signature := w.sign? t.signingPayload }

/-- Whether it pays a mining reward. -/
def isReward (t : Transaction) : Bool := t.data = .miningReward

/-! ## Making transactions -/

/-- A signed transfer from a wallet. -/
def transact (w : Wallet) (recipient : String) (value gasLimit : UInt64) (id : String) :
    Transaction :=
  Transaction.signedBy ⟨id, w.address, recipient, value, gasLimit, .transact, none⟩ w

/-- The publication of an account. -/
def createAccount (a : Account) (id : String) : Transaction :=
  ⟨id, noAddress, noAddress, 0, 0, .createAccount a.publicFields, none⟩

/-- The reward of a block for its beneficiary. -/
def reward (beneficiary : String) (id : String) : Transaction :=
  ⟨id, noAddress, beneficiary, miningReward, 0, .miningReward, none⟩

/-- A wallet's transaction: a transfer if there is a recipient, otherwise the publication of
its own account. -/
def ofWallet (w : Wallet) (recipient : Option String) (value gasLimit : UInt64)
    (id : String) : Transaction :=
  match recipient with
  | some recipient => transact w recipient value gasLimit id
  | none => createAccount w.account id

/-! ## Identifiers -/

/-- The version 4 UUID of sixteen random bytes: four bits give the version and two the
variant, the rest are random. -/
def idOfBytes (bytes : List UInt8) : String :=
  let stamped := bytes.mapIdx fun i b =>
    if i = 6 then (b &&& 0x0f) ||| 0x40 else if i = 8 then (b &&& 0x3f) ||| 0x80 else b
  let digits (start count : Nat) : String := Hex.text ((stamped.drop start).take count)
  "-".intercalate [digits 0 4, digits 4 2, digits 6 2, digits 8 2, digits 10 6]

/-- Whether a character may stand at place `i` of a version 4 UUID in lowercase. -/
def isUuid4Char (i : Nat) (c : Char) : Bool :=
  if i ∈ [8, 13, 18, 23] then c == '-'
  else if i = 14 then c == '4'
  else if i = 19 then "89ab".toList.contains c
  else "0123456789abcdef".toList.contains c

/-- Whether a text is a version 4 UUID in lowercase. -/
def isUuid4 (id : String) : Bool :=
  id.length == 36 && (id.toList.mapIdx isUuid4Char).all fun fits => fits

end Transaction

end WorkLedger
