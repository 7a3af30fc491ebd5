/-
# Block rules

A rule decides whether a block may follow another on top of a state.  The consensus rule
checks, in this order: the link to the parent, the number, the step of the difficulty, the
proof of work, the root of the transactions, that no identifier repeats, the root of the
state, the one reward, and at last the transactions themselves.  The genesis block passes
anywhere.
-/
import WorkLedger.Block.Basic

namespace WorkLedger

/-- Why a block is refused. -/
inductive BlockError where
  | parentMismatch (expected actual : Digest)
  | numberMismatch (expected actual : UInt64)
  | difficultyJump (parent actual : UInt64)
  | proofOfWorkFailed
  | transactionsRootMismatch (expected actual : Digest)
  | duplicateTransaction (id : String)
  | replayedTransaction (id : String)
  | stateRootMismatch (expected actual : Digest)
  | rewardMismatch
  | transaction (e : TransactionError)

namespace BlockError

/-- The wording of an error. -/
def message : BlockError → String
  | .parentMismatch expected actual =>
      s!"parent hash mismatch: expected {expected.toHex}, got {actual.toHex}"
  | .numberMismatch expected actual =>
      s!"block number must increment by 1: expected {expected}, got {actual}"
  | .difficultyJump parent actual =>
      s!"difficulty must only adjust by 1: parent {parent}, got {actual}"
  | .proofOfWorkFailed => "block does not meet the proof of work requirement"
  | .transactionsRootMismatch expected actual =>
      s!"transactions root mismatch: expected {expected.toHex}, got {actual.toHex}"
  | .duplicateTransaction id => s!"transaction {id} appears more than once in the block"
  | .replayedTransaction id => s!"transaction {id} was already included in an earlier block"
  | .stateRootMismatch expected actual =>
      s!"state root mismatch: expected {expected.toHex}, got {actual.toHex}"
  | .rewardMismatch => "block must contain exactly one mining reward paying its beneficiary"
  | .transaction e => s!"invalid transaction: {e.message}"

/-- The messages of the errors that an error wraps, the outermost first. -/
def causes : BlockError → List String
  | .transaction e => e.message :: e.causes
  | _ => []

/-- The name of an error. -/
def tag : BlockError → String
  | .parentMismatch _ _ => "ParentMismatch"
  | .numberMismatch _ _ => "NumberMismatch"
  | .difficultyJump _ _ => "DifficultyJump"
  | .proofOfWorkFailed => "ProofOfWorkFailed"
  | .transactionsRootMismatch _ _ => "TransactionsRootMismatch"
  | .duplicateTransaction _ => "DuplicateTransaction"
  | .replayedTransaction _ => "ReplayedTransaction"
  | .stateRootMismatch _ _ => "StateRootMismatch"
  | .rewardMismatch => "RewardMismatch"
  | .transaction e => s!"Transaction.{e.tag}"

instance : Explained BlockError := ⟨tag, message, causes⟩

end BlockError

/-- Decides whether a block may follow the last one on top of a state. -/
abbrev BlockRule := (last block : Block) → State → Except BlockError Unit

/-- The first member of the list that occurs before. -/
def firstRepeated? : List String → List String → Option String
  | _, [] => none
  | before, id :: rest => if id ∈ before then some id else firstRepeated? (id :: before) rest

/-- The absolute difference of two numbers. -/
def distance (a b : UInt64) : Nat := max a.toNat b.toNat - min a.toNat b.toNat

namespace Block

/-- Whether the block holds exactly one reward, and that for its beneficiary. -/
def paysBeneficiary (b : Block) : Bool :=
  match b.transactions.filter (·.isReward) with
  | [reward] => reward.recipient = b.header.beneficiary
  | _ => false

/-- The consensus rule. -/
def validate : BlockRule := fun last block s => do
  if block = genesis then return ()
  let header := block.header
  let parentHash := last.hash
  if header.parentHash ≠ parentHash then
    throw (.parentMismatch parentHash header.parentHash)
  let number := last.header.number + 1
  if header.number ≠ number then
    throw (.numberMismatch number header.number)
  if 1 < distance last.header.difficulty header.difficulty then
    throw (.difficultyJump last.header.difficulty header.difficulty)
  if ¬ header.proofOfWork ≤ last.header.target then
    throw .proofOfWorkFailed
  let root := transactionsRoot block.transactions
  if header.transactionsRoot ≠ root then
    throw (.transactionsRootMismatch root header.transactionsRoot)
  if let some id := firstRepeated? [] block.ids then
    throw (.duplicateTransaction id)
  if header.stateRoot ≠ s.root then
    throw (.stateRootMismatch s.root header.stateRoot)
  if !block.paysBeneficiary then
    throw .rewardMismatch
  (Transaction.validateSeries block.transactions s).mapError .transaction

/-- The rule that takes every block. -/
def acceptAny : BlockRule := fun _ _ _ => .ok ()

/-- The rule that takes none. -/
def rejectAll : BlockRule := fun _ _ _ => .error .proofOfWorkFailed

end Block

end WorkLedger
