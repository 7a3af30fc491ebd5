/-
# Reading transactions

The payload is told by its `type`.  It is read whole, so that everything in it has to denote
a value and its containers count towards the depth of the text, whereas other members of the
transaction that nobody asks for are skipped.
-/
import WorkLedger.Account.Decode
import WorkLedger.Transaction.Basic

namespace WorkLedger

/-- The deepest nesting of containers that is read. -/
def depthLimit : Nat := 127

namespace Payload

/-- The only member of that name among all. -/
def onlyMember? (members : List (String × Json)) (name : String) : Option Json :=
  match members.filter (fun m => m.1 == name) with
  | [(_, j)] => some j
  | _ => none

/-- Reads a payload from an object with its type, which may hold further members, or from an
array that starts with the type. -/
def ofJson? : Json → Option Payload
  | .obj members =>
      match onlyMember? members "type" with
      | some (.str "TRANSACT") => some .transact
      | some (.str "MINING_REWARD") => some .miningReward
      | some (.str "CREATE_ACCOUNT") =>
          match onlyMember? members "accountData" with
          | some (.obj fields) => some (.createAccount (.ofMembers fields))
          | _ => none
      | _ => none
  | .arr [.str "TRANSACT"] => some .transact
  | .arr [.str "MINING_REWARD"] => some .miningReward
  | .arr [.str "CREATE_ACCOUNT", .obj fields] => some (.createAccount (.ofMembers fields))
  | _ => none

/-- Reads a payload that stands inside `depth` containers. -/
def ofSource? (depth : Nat) (s : Source) : Option Payload :=
  if depth + s.nesting ≤ depthLimit then s.json?.bind ofJson? else none

end Payload

namespace Json

/-- Reads a signature. -/
def readSignature? : Json → Option Signature
  | .str s => Signature.parse? s
  | _ => none

end Json

namespace Transaction

/-- Reads a transaction that stands inside `depth` containers.  Only the signature may be
missing. -/
def ofSource? (depth : Nat) (s : Source) : Option Transaction := do
  let [id, sender, recipient, value, gasLimit, data, signature] ←
    s.record? ["id", "from", "to", "value", "gasLimit", "data", "signature"] 6 | none
  return {
    id := ← Source.required? (·.readText.toOption) id
    sender := ← Source.required? (·.readText.toOption) sender
    recipient := ← Source.required? (·.readText.toOption) recipient
    value := ← Source.required? (·.readU64.toOption) value
    gasLimit := ← Source.required? (·.readU64.toOption) gasLimit
    data := ← data.bind (Payload.ofSource? (depth + 1))
    signature := ← Source.optional? Json.readSignature? signature }

end Transaction

end WorkLedger
