/-
# Mining

A job fixes everything about the next block except timestamp and nonce.  Each attempt draws
both, and the search ends with the first draw whose proof of work meets the target.  Clock
and randomness are arguments: attempt number `i` uses the draw `draws i`.
-/
import WorkLedger.Block.Basic

namespace WorkLedger

/-- What one attempt draws. -/
structure Draw where
  timestamp : UInt64
  nonce : UInt64

namespace Draw

/-- A mixing of the bits of a number: two shifts with multiplications between them. -/
def scramble (n : UInt64) : UInt64 :=
  let a := n + 0x9e3779b97f4a7c15
  let b := (a ^^^ (a >>> 30)) * 0xbf58476d1ce4e5b9
  let c := (b ^^^ (b >>> 27)) * 0x94d049bb133111eb
  c ^^^ (c >>> 31)

/-- Draws at one time, their nonces scattered from a seed. -/
def scattered (timestamp seed : UInt64) : Nat → Draw := fun i =>
  ⟨timestamp, scramble (seed + UInt64.ofNat i)⟩

end Draw

/-- The fixed part of a block to be mined. -/
structure MiningJob where
  parent : Header
  beneficiary : String
  target : Digest
  parentHash : Digest
  transactionsRoot : Digest
  stateRoot : Digest
  /-- The series with the reward at its end. -/
  transactions : List Transaction

namespace MiningJob

/-- The job for a child of `parent`, its beneficiary paid by a reward of identifier
`rewardId`. -/
def new (parent : Block) (beneficiary : String) (series : List Transaction)
    (stateRoot : Digest) (rewardId : String) : MiningJob :=
  let transactions := series ++ [.reward beneficiary rewardId]
  { parent := parent.header
    beneficiary
    target := parent.header.target
    parentHash := parent.hash
    transactionsRoot := WorkLedger.transactionsRoot transactions
    stateRoot
    transactions }

/-- The fields but the nonce of a block with that timestamp. -/
def core (job : MiningJob) (timestamp : UInt64) : HeaderCore where
  parentHash := job.parentHash
  beneficiary := job.beneficiary
  difficulty := job.parent.nextDifficulty timestamp
  number := job.parent.number + 1
  timestamp := timestamp
  transactionsRoot := job.transactionsRoot
  stateRoot := job.stateRoot

/-- The block of a draw, if its proof of work meets the target. -/
def attempt (job : MiningJob) (draw : Draw) : Option Block :=
  let core := job.core draw.timestamp
  if core.workHash draw.nonce ≤ job.target then
    some ⟨{ core with nonce := draw.nonce }, job.transactions⟩
  else none

/-- Tries the draws from number `i` on until one succeeds, or until the search is found
cancelled before an attempt. -/
def search (job : MiningJob) (cancelled : Nat → Bool) (draws : Nat → Draw) :
    (attempts i : Nat) → Option Block
  | 0, _ => none
  | attempts + 1, i =>
      if cancelled i then none
      else
        match job.attempt (draws i) with
        | some b => some b
        | none => search job cancelled draws attempts (i + 1)

end MiningJob

namespace Block

/-- Mines a child of `parent`, unless the search is cancelled. -/
def mineUnless (cancelled : Nat → Bool) (parent : Block) (beneficiary : String)
    (series : List Transaction) (stateRoot : Digest) (rewardId : String) (draws : Nat → Draw)
    (attempts : Nat) : Option Block :=
  (MiningJob.new parent beneficiary series stateRoot rewardId).search cancelled draws attempts 0

/-- Mines a child of `parent`. -/
def mine (parent : Block) (beneficiary : String) (series : List Transaction)
    (stateRoot : Digest) (rewardId : String) (draws : Nat → Draw) (attempts : Nat) :
    Option Block :=
  mineUnless (fun _ => false) parent beneficiary series stateRoot rewardId draws attempts

end Block

end WorkLedger
