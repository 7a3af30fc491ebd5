/-
# Blocks

A block is a header and a series of transactions, which run in order.  The header commits to
which transactions the block has, but not to their order.  Every chain starts with the same
block.
-/
import WorkLedger.Block.Header
import WorkLedger.Transaction.Decode
import WorkLedger.Transaction.Run

namespace WorkLedger

/-- A block. -/
structure Block where
  header : Header
  transactions : List Transaction
deriving DecidableEq

/-- The root of the trie that holds every transaction of a series under its digest. -/
def transactionsRoot (series : List Transaction) : Digest := (Trie.ofItems series).root

namespace Block

instance : ToJson Block :=
  ⟨fun b => .obj [("header", toJson b.header), ("transactionSeries", toJson b.transactions)]⟩

/-- The digest of the header. -/
def hash (b : Block) : Digest := b.header.hash

/-- The identifiers of the transactions. -/
def ids (b : Block) : List String := b.transactions.map (·.id)

/-- The state after the block: its transactions run in order. -/
def run (b : Block) (s : State) : Except TransactionError State :=
  Transaction.runSeries b.transactions s

/-- Reads a block that stands inside `depth` containers. -/
def ofSource? (depth : Nat) (s : Source) : Option Block := do
  let [header, transactions] ← s.record? ["header", "transactionSeries"] 2 | none
  let header ← header.bind Header.ofSource?
  let some (.arr items) := transactions | none
  return ⟨header, ← items.mapM (Transaction.ofSource? (depth + 2))⟩

end Block

/-- The first block of every chain. -/
def genesis : Block where
  header := {
    parentHash := .zero
    beneficiary := genesisBeneficiary
    difficulty := genesisDifficulty
    number := 0
    timestamp := 0
    transactionsRoot := emptyRoot
    stateRoot := emptyRoot
    nonce := 0 }
  transactions := []

end WorkLedger
