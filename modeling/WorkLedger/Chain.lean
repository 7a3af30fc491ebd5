/-
# The chain

The blocks from genesis on, the state that they produce, and the identifiers of all their
transactions.  The three change together or not at all.

A block is added on top of the live state; a longer chain is adopted after it has been
replayed from genesis on a fresh one.  Both ways apply one rule for blocks, which is an
argument, and refuse a block that carries a transaction of an earlier block again.
-/
import Std.Data.HashSet
import WorkLedger.Block.Validation
import WorkLedger.Pool

namespace WorkLedger

/-- Why a candidate chain is invalid. -/
inductive ChainFault where
  | notGenesis
  | genesisRepeated
  | block (number : UInt64) (e : BlockError)
  | execution (number : UInt64) (e : TransactionError)

/-- The wording of a fault. -/
def ChainFault.message : ChainFault → String
  | .notGenesis => "first block is not genesis"
  | .genesisRepeated => "genesis block repeated"
  | .block number e => s!"block {number}: {e.message}"
  | .execution number e => s!"block {number}: {e.message}"

/-- Why a chain is not extended or replaced. -/
inductive ChainError where
  | shorterOrEqualChain (candidate held : Nat)
  | invalidChain (fault : ChainFault)
  | block (e : BlockError)
  | execution (e : TransactionError)
  | genesisResubmitted

namespace ChainError

/-- The wording of an error. -/
def message : ChainError → String
  | .shorterOrEqualChain candidate held =>
      s!"incoming chain must be longer: candidate {candidate}, local {held}"
  | .invalidChain fault => s!"incoming chain is invalid: {fault.message}"
  | .block e => s!"block rejected: {e.message}"
  | .execution e => s!"block failed to execute: {e.message}"
  | .genesisResubmitted => "genesis block cannot be appended"

/-- The messages of the errors that an error wraps, the outermost first. -/
def causes : ChainError → List String
  | .block e => e.message :: e.causes
  | .execution e => e.message :: e.causes
  | _ => []

/-- The name of an error. -/
def tag : ChainError → String
  | .shorterOrEqualChain _ _ => "ShorterOrEqualChain"
  | .invalidChain _ => "InvalidChain"
  | .block e => s!"Block.{e.tag}"
  | .execution e => s!"Execution.{e.tag}"
  | .genesisResubmitted => "GenesisResubmitted"

instance : Explained ChainError := ⟨tag, message, causes⟩

end ChainError

/-- What running blocks leads to. -/
structure Progress where
  state : State
  /-- The identifiers of all transactions that were run. -/
  included : Std.HashSet String

namespace Progress

/-- Before any block. -/
def start : Progress := ⟨.empty, ∅⟩

/-- Refuses a block with a transaction that was run before. -/
def rejectReplays (g : Progress) (b : Block) : Except BlockError Unit :=
  match b.ids.find? fun id => g.included.contains id with
  | some id => .error (.replayedTransaction id)
  | none => .ok ()

/-- Checks a block by a rule, and for replays. -/
def check (rule : BlockRule) (g : Progress) (last block : Block) : Except BlockError Unit := do
  rule last block g.state
  g.rejectReplays block

/-- Runs a block. -/
def run (g : Progress) (b : Block) : Except TransactionError Progress := do
  let state ← b.run g.state
  return ⟨state, g.included.insertMany b.ids⟩

end Progress

/-- A chain of blocks. -/
structure Chain where
  /-- The blocks, genesis first. -/
  blocks : List Block
  progress : Progress
  nonempty : blocks ≠ []

namespace Chain

/-- The chain of the genesis block alone. -/
def new : Chain := ⟨[genesis], .start, by simp⟩

instance : Inhabited Chain := ⟨new⟩

/-- The number of blocks, genesis included. -/
def length (c : Chain) : Nat := c.blocks.length

/-- The last block. -/
def tip (c : Chain) : Block := c.blocks.getLast c.nonempty

/-- The state after all blocks. -/
def state (c : Chain) : State := c.progress.state

/-- Whether a block carries a transaction of that identifier. -/
def contains (c : Chain) (id : String) : Bool := c.progress.included.contains id

/-- Adds a block on top of the tip. -/
def extend (rule : BlockRule) (c : Chain) (b : Block) : Except ChainError Chain := do
  if b.header.number = 0 then throw .genesisResubmitted
  (c.progress.check rule c.tip b).mapError .block
  let progress ← (c.progress.run b).mapError .execution
  return ⟨c.blocks ++ [b], progress, by simp⟩

/-- Adds a block on top of the tip, and clears its transactions from a pool. -/
def addBlock (rule : BlockRule) (c : Chain) (b : Block) (pool : Pool) :
    Except ChainError (Chain × Pool) := do
  let c ← c.extend rule b
  return (c, pool.clear b.transactions)

/-- Runs the blocks that follow `last`, checking each. -/
def replayFrom (rule : BlockRule) : (last : Block) → List Block → Progress →
    Except ChainFault Progress
  | _, [], g => .ok g
  | last, b :: rest, g => do
      if b.header.number = 0 then throw .genesisRepeated
      (g.check rule last b).mapError (.block b.header.number)
      let g ← (g.run b).mapError (.execution b.header.number)
      replayFrom rule b rest g

/-- Runs a whole chain from genesis on. -/
def replay (rule : BlockRule) : List Block → Except ChainFault Progress
  | [] => .error .notGenesis
  | first :: rest =>
      if first = genesis then replayFrom rule first rest .start else .error .notGenesis

/-- Adopts a longer chain. -/
def replace (rule : BlockRule) (c : Chain) (candidate : List Block) : Except ChainError Chain :=
  if h : candidate.length ≤ c.blocks.length then
    .error (.shorterOrEqualChain candidate.length c.blocks.length)
  else
    match replay rule candidate with
    | .error fault => .error (.invalidChain fault)
    | .ok progress => .ok ⟨candidate, progress, by rintro rfl; simp at h⟩

end Chain

end WorkLedger
