/-
# Validating and running transactions

Validation looks at a state and changes nothing; running gives the state after the
transaction, or the cause for which there is none.  A transfer debits the sender with its
value and the gas that the recipient's code used, and credits the recipient with the same
amount, which is what debiting the gas limit and refunding the unused gas comes to.

A series is validated by validating and running its transactions in order, each on the state
that those before it have left.
-/
import WorkLedger.Account.Decode
import WorkLedger.State
import WorkLedger.Transaction.Basic

namespace WorkLedger

/-- Why the fields of a published account are refused. -/
inductive AccountFault where
  /-- The transaction publishes no account. -/
  | notCreateAccount
  /-- The keys are not those of a published account. -/
  | wrongFields (got : List String)
  | field (e : FieldError)
  /-- The code hash is not that of address and code. -/
  | codeHashMismatch

/-- The wording of an account fault. -/
def AccountFault.message : AccountFault → String
  | .notCreateAccount => "not a CREATE_ACCOUNT transaction"
  | .wrongFields got =>
      s!"expected fields {Quoted.list Account.publishedFields}, got {Quoted.list got}"
  | .field e => e.message
  | .codeHashMismatch => "code hash does not match address and code"

/-- Why a transaction is refused. -/
inductive TransactionError where
  | malformedAccountData (cause : AccountFault)
  | accountExists (key : String)
  | invalidSignature (id : String)
  | unknownSender (address : String)
  | insufficientBalance (required available : UInt64)
  | unknownRecipient (address : String)
  | outOfGas (gasUsed gasLimit : UInt64)
  | invalidRewardValue (expected actual : UInt64)
  | balanceOverflow (key : String)
  | code (fault : Fault)

namespace TransactionError

/-- The wording of an error. -/
def message : TransactionError → String
  | .malformedAccountData cause => s!"malformed account data: {cause.message}"
  | .accountExists key => s!"account {key} already exists"
  | .invalidSignature id => s!"invalid signature on transaction {id}"
  | .unknownSender address => s!"unknown sender {address}"
  | .insufficientBalance required available =>
      s!"insufficient balance: required {required}, available {available}"
  | .unknownRecipient address => s!"unknown recipient {address}"
  | .outOfGas gasUsed gasLimit => s!"out of gas: used {gasUsed}, limit {gasLimit}"
  | .invalidRewardValue expected actual => s!"mining reward must be {expected}, got {actual}"
  | .balanceOverflow key => s!"balance of {key} would overflow"
  | .code fault => s!"code execution failed: {fault.message}"

/-- The messages of the errors that an error wraps, the outermost first. -/
def causes : TransactionError → List String
  | .code fault => [fault.message]
  | _ => []

/-- The name of an error. -/
def tag : TransactionError → String
  | .malformedAccountData _ => "MalformedAccountData"
  | .accountExists _ => "AccountExists"
  | .invalidSignature _ => "InvalidSignature"
  | .unknownSender _ => "UnknownSender"
  | .insufficientBalance _ _ => "InsufficientBalance"
  | .unknownRecipient _ => "UnknownRecipient"
  | .outOfGas _ _ => "OutOfGas"
  | .invalidRewardValue _ _ => "InvalidRewardValue"
  | .balanceOverflow _ => "BalanceOverflow"
  | .code fault => s!"Vm.{fault.tag}"

instance : Explained TransactionError := ⟨tag, message, causes⟩

end TransactionError

/-- The sum, or the largest number if it does not fit. -/
def saturatingAdd (a b : UInt64) : UInt64 :=
  if a.toNat + b.toNat < UInt64.size then a + b else UInt64.ofNat (UInt64.size - 1)

namespace Transaction

/-! ## Publishing an account -/

/-- The account that a transaction publishes. -/
def accountSnapshot (t : Transaction) : Except TransactionError Account :=
  match t.data with
  | .createAccount fields =>
      if fields.keys ≠ Account.publishedFields then
        .error (.malformedAccountData (.wrongFields fields.keys))
      else
        match Account.ofFields fields with
        | .error e => .error (.malformedAccountData (.field e))
        | .ok a =>
            if a.codeHash = Account.codeHashOf a.address a.code then .ok a
            else .error (.malformedAccountData .codeHashMismatch)
  | _ => .error (.malformedAccountData .notCreateAccount)

/-- The published account, which must not exist yet. -/
def newAccount (t : Transaction) (s : State) : Except TransactionError Account := do
  let a ← t.accountSnapshot
  if (s.account? a.storageKey).isSome then throw (.accountExists a.storageKey)
  return a

/-! ## Transfers -/

/-- The sender's account, which has to afford the value and all of the gas. -/
def payer (t : Transaction) (s : State) : Except TransactionError Account :=
  match s.account? t.sender with
  | none => .error (.unknownSender t.sender)
  | some sender =>
      let required := saturatingAdd t.value t.gasLimit
      if sender.balance < required then .error (.insufficientBalance required sender.balance)
      else .ok sender

/-- The recipient's account. -/
def payee (t : Transaction) (s : State) : Except TransactionError Account :=
  match s.account? t.recipient with
  | none => .error (.unknownRecipient t.recipient)
  | some recipient => .ok recipient

/-- What running the recipient's code comes to: the gas it used and the storage it left, no
storage for a plain account. -/
def call (t : Transaction) (s : State) (recipient : Account) :
    Except TransactionError (UInt64 × Option (Trie Word)) :=
  if recipient.isContract then
    match runOnTrie recipient.code (s.storageAt t.recipient) with
    | (.error fault, _) => .error (.code fault)
    | (.ok outcome, storage) =>
        if t.gasLimit < outcome.gasUsed then .error (.outOfGas outcome.gasUsed t.gasLimit)
        else .ok (outcome.gasUsed, some storage)
  else .ok (0, none)

/-- Whether the signature is there and is the sender's. -/
def isSigned (t : Transaction) : Bool :=
  match t.signature with
  | none => false
  | some g => verifySignature t.sender t.signingPayload g

/-- Checks a transfer. -/
def validateTransact (t : Transaction) (s : State) : Except TransactionError Unit := do
  if !t.isSigned then throw (.invalidSignature t.id)
  let _ ← t.payer s
  let recipient ← t.payee s
  let _ ← t.call s recipient
  return ()

/-- The state after a transfer. -/
def runTransact (t : Transaction) (s : State) : Except TransactionError State := do
  let sender ← t.payer s
  let recipient ← t.payee s
  let (gasUsed, storage) ← t.call s recipient
  let charged := t.value + gasUsed
  if t.sender ≠ t.recipient ∧ UInt64.size ≤ recipient.balance.toNat + charged.toNat then
    throw (.balanceOverflow t.recipient)
  let debited := s.putAccount t.sender { sender with balance := sender.balance - charged }
  let stored :=
    match storage with
    | some storage => debited.setStorage t.recipient storage
    | none => debited
  let recipient := (stored.account? t.recipient).getD recipient
  return stored.putAccount t.recipient { recipient with balance := recipient.balance + charged }

/-! ## All kinds -/

/-- Checks the publication of an account. -/
def validateCreateAccount (t : Transaction) (s : State) : Except TransactionError Unit := do
  let _ ← t.newAccount s
  return ()

/-- Checks a mining reward. -/
def validateReward (t : Transaction) : Except TransactionError Unit :=
  if t.value = miningReward then .ok () else .error (.invalidRewardValue miningReward t.value)

/-- Checks a transaction according to its kind. -/
def validate (t : Transaction) (s : State) : Except TransactionError Unit :=
  match t.data with
  | .transact => t.validateTransact s
  | .createAccount _ => t.validateCreateAccount s
  | .miningReward => t.validateReward

/-- The state after a mining reward, which creates the recipient's account if need be. -/
def runReward (t : Transaction) (s : State) : Except TransactionError State :=
  let a := (s.account? t.recipient).getD (.new t.recipient 0 [])
  if UInt64.size ≤ a.balance.toNat + t.value.toNat then .error (.balanceOverflow t.recipient)
  else .ok (s.putAccount t.recipient { a with balance := a.balance + t.value })

/-- The state after the publication of an account. -/
def runCreateAccount (t : Transaction) (s : State) : Except TransactionError State := do
  let a ← t.newAccount s
  return s.putAccount a.storageKey a

/-- The state after a transaction. -/
def run (t : Transaction) (s : State) : Except TransactionError State :=
  match t.data with
  | .transact => t.runTransact s
  | .createAccount _ => t.runCreateAccount s
  | .miningReward => t.runReward s

/-! ## Series -/

/-- Validates and runs a series: the state at its end. -/
def validateAndRun : List Transaction → State → Except TransactionError State
  | [], s => .ok s
  | t :: rest, s => do
      t.validate s
      let s ← t.run s
      validateAndRun rest s

/-- Checks a series, each transaction on top of those before it. -/
def validateSeries (series : List Transaction) (s : State) : Except TransactionError Unit := do
  let _ ← validateAndRun series s
  return ()

/-- Runs a series up to the first failure: the state reached there, and the error. -/
def runPrefix : List Transaction → State → State × Option TransactionError
  | [], s => (s, none)
  | t :: rest, s =>
      match t.run s with
      | .error e => (s, some e)
      | .ok s => runPrefix rest s

/-- The state after a series that runs to its end. -/
def runSeries (series : List Transaction) (s : State) : Except TransactionError State :=
  match runPrefix series s with
  | (s, none) => .ok s
  | (_, some e) => .error e

end Transaction

end WorkLedger
