/-
# Block headers

A header commits to its parent, to the state that the block starts from, to which transactions
the block has, in whatever order, and to a difficulty.  The hash of a header is what its child
refers to.  The proof of work is a second digest: that of the digits of the digest of all fields
but the nonce, with the nonce in decimal behind them.
-/
import WorkLedger.Account.Decode
import WorkLedger.Consensus

namespace WorkLedger

/-- A header without its nonce. -/
structure HeaderCore where
  parentHash : Digest
  beneficiary : String
  difficulty : UInt64
  number : UInt64
  /-- Milliseconds since the Unix epoch. -/
  timestamp : UInt64
  transactionsRoot : Digest
  /-- The root of the state before the block. -/
  stateRoot : Digest
deriving DecidableEq

namespace HeaderCore

/-- The members without the nonce. -/
def members (h : HeaderCore) : List (String × Json) :=
  [("parentHash", toJson h.parentHash), ("beneficiary", .str h.beneficiary),
    ("difficulty", toJson h.difficulty), ("number", toJson h.number),
    ("timestamp", toJson h.timestamp), ("transactionsRoot", toJson h.transactionsRoot),
    ("stateRoot", toJson h.stateRoot)]

instance : ToJson HeaderCore := ⟨fun h => .obj h.members⟩

/-- The digest of the digits of a digest with a nonce in decimal behind them. -/
def workHashOf (core : Digest) (nonce : UInt64) : Digest :=
  Json.digest (.str (core.toHex ++ toString nonce.toNat))

/-- The digest that a nonce makes of the fields. -/
def workHash (h : HeaderCore) (nonce : UInt64) : Digest := workHashOf (digestOf h) nonce

/-- The first nonce from `nonce` on, wrapping around, among `tries` whose proof of work meets
the target. -/
def firstNonce? (core target : Digest) : (tries : Nat) → (nonce : UInt64) → Option UInt64
  | 0, _ => none
  | tries + 1, nonce =>
      if workHashOf core nonce ≤ target then some nonce
      else firstNonce? core target tries (nonce + 1)

end HeaderCore

/-- A header. -/
structure Header extends HeaderCore where
  nonce : UInt64
deriving DecidableEq

namespace Header

instance : ToJson Header := ⟨fun h => .obj (h.members ++ [("nonce", toJson h.nonce)])⟩

/-- The digest by which a child refers to its parent. -/
def hash (h : Header) : Digest := digestOf h

/-- The digest that the target bounds. -/
def proofOfWork (h : Header) : Digest := h.workHash h.nonce

/-- The largest proof of work that a child may have: the largest digest divided by the
difficulty. -/
def target (h : Header) : Digest := Digest.max.divide h.difficulty

/-- The difficulty of a child with that timestamp: one less if the parent is further back than
the mine rate, otherwise one more, and never less than one. -/
def nextDifficulty (h : Header) (timestamp : UInt64) : UInt64 :=
  let late := h.timestamp < timestamp ∧ mineRate < timestamp - h.timestamp
  let next :=
    if late then (if h.difficulty = 0 then 0 else h.difficulty - 1)
    else if h.difficulty.toNat + 1 < UInt64.size then h.difficulty + 1 else h.difficulty
  if next = 0 then 1 else next

/-- Reads a header as a record. -/
def ofSource? (s : Source) : Option Header := do
  let [parentHash, beneficiary, difficulty, number, timestamp, transactionsRoot, stateRoot,
      nonce] ←
    s.record? ["parentHash", "beneficiary", "difficulty", "number", "timestamp",
      "transactionsRoot", "stateRoot", "nonce"] 8 | none
  return {
    parentHash := ← Source.required? (·.readDigest.toOption) parentHash
    beneficiary := ← Source.required? (·.readText.toOption) beneficiary
    difficulty := ← Source.required? (·.readU64.toOption) difficulty
    number := ← Source.required? (·.readU64.toOption) number
    timestamp := ← Source.required? (·.readU64.toOption) timestamp
    transactionsRoot := ← Source.required? (·.readDigest.toOption) transactionsRoot
    stateRoot := ← Source.required? (·.readDigest.toOption) stateRoot
    nonce := ← Source.required? (·.readU64.toOption) nonce }

end Header

end WorkLedger
