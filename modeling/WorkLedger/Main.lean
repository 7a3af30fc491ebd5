/-
# The command line

Starts a node with its peers, publishes the node's account, and mines at every block time
until the process is stopped.  Clock, randomness and output are here and nowhere else.
-/
import Std.Time.DateTime.Timestamp
import WorkLedger.Network
import WorkLedger.Options

namespace WorkLedger.CommandLine

/-- Writes a line to standard error unless its level is below the least one. -/
def log (least level : LogLevel) (message : String) : IO Unit :=
  if least.number ≤ level.number then IO.eprintln s!"[{level.name}] {message}" else pure ()

/-- The time in milliseconds since the Unix epoch. -/
def now : IO UInt64 := do
  let time ← Std.Time.Timestamp.now
  return UInt64.ofNat time.toMillisecondsSinceUnixEpoch.val.toNat

/-- Random bytes. -/
def randomBytes (count : USize) : IO (List UInt8) := do
  return (← IO.getRandomBytes count).toList

/-- A random identifier. -/
def freshId : IO String := return Transaction.idOfBytes (← randomBytes 16)

/-- The wallet of a random key without code. -/
partial def freshWallet : IO Wallet := do
  match SecretKey.ofBytes? (← randomBytes 32) with
  | some key => return .ofKey key []
  | none => freshWallet

/-- Waits, an hour at a time at most. -/
partial def pause (milliseconds : Nat) : IO Unit := do
  IO.sleep (UInt32.ofNat (min milliseconds 3600000))
  if 3600000 < milliseconds then pause (milliseconds - 3600000)

/-- How many draws share one look at the clock. -/
def drawsAtOnce : Nat := 4096

/-- Mines one block, looking at the clock again whenever the draws are used up. -/
partial def mineBlock (least : LogLevel) (n : Network) : IO Network := do
  let seed : UInt64 := (← randomBytes 8).foldl (fun a b => a <<< 8 ||| b.toUInt64) 0
  match n.mine (← freshId) (.scattered (← now) seed) drawsAtOnce with
  | (n, .error .miningCancelled) => mineBlock least n
  | (n, .ok b) =>
      log least .info s!"{n.root.name} mined block {b.header.number}"
      return n
  | (n, .error e) =>
      log least .error s!"{n.root.name} failed to mine: {e.message}"
      return n

/-- Mines at every block time without end, or only waits if there is none. -/
partial def run (o : Options) (n : Network) : IO Unit := do
  match o.blockTime with
  | none => pause 3600000; run o n
  | some period => pause period; run o (← mineBlock o.logLevel n)

/-- Starts the node that the options describe. -/
def start (o : Options) : IO Unit := do
  let wallet ← freshWallet
  let peerWallets ← (List.replicate o.peers ()).mapM fun _ => freshWallet
  let n := Network.new o.name wallet peerWallets
  log o.logLevel .info s!"Starting node '{o.name}' with address {wallet.address}"
  let (n, published) := n.publishAccount (← freshId)
  if let .error e := published then
    log o.logLevel .error s!"Failed to publish account: {e.message}"
  log o.logLevel .info
    s!"Node '{o.name}' running with {o.peers} peers, mining: {o.blockTime.isSome}"
  run o n

end WorkLedger.CommandLine

open WorkLedger in
/-- Runs a node from its arguments and its environment.  A request for help is answered on
standard error with exit code 0, a faulty option with its message and exit code 1. -/
def main (args : List String) : IO UInt32 := do
  let level ← IO.getEnv Options.logVariable
  match Options.parse args >>= fun o => o.withEnvironment level with
  | .ok o =>
      CommandLine.start o
      return 0
  | .error .helpRequested =>
      IO.eprintln Options.usage
      return 0
  | .error e =>
      IO.eprintln s!"{e.message}\n\n{Options.usage}"
      return 1
