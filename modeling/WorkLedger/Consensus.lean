/-
# Consensus parameters

Nodes that disagree on any of these reject each other's blocks.
-/

namespace WorkLedger

/-- The aim for the time between two blocks, in milliseconds. -/
def mineRate : UInt64 := 13000

/-- What a block pays its beneficiary. -/
def miningReward : UInt64 := 50

/-- The balance of the account of a new wallet. -/
def startingBalance : UInt64 := 1000

/-- The difficulty of the genesis block. -/
def genesisDifficulty : UInt64 := 1

/-- The beneficiary of the genesis block, which is paid nothing. -/
def genesisBeneficiary : String := "--genesis-beneficiary--"

/-- Stands where a transaction has no sender or no recipient. -/
def noAddress : String := "-"

end WorkLedger
