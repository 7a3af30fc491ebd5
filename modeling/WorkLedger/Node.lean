/-
# Nodes

A node holds a chain, a pool and a wallet.  It takes in transactions and blocks from its
neighbours, adopts longer chains and mines.  What it sends goes over a link, which is up or
down; an operation gives the node afterwards, the messages sent, and its result.

Mining takes three steps: a job is opened on a snapshot of the tip, the search runs on its
own, and the block found is committed, unless the chain has changed in between.  The epoch
counts the changes of the chain and tells.
-/
import WorkLedger.Block.Mining
import WorkLedger.Chain
import WorkLedger.Gossip.Hub

namespace WorkLedger

/-- Why a node refuses. -/
inductive NodeError where
  | miningInProgress
  /-- The chain changed during the search. -/
  | miningCancelled
  | duplicateTransaction (id : String)
  | rewardNotAccepted (id : String)
  | chain (e : ChainError)
  | gossip (e : GossipError)

namespace NodeError

/-- The wording of an error. -/
def message : NodeError → String
  | .miningInProgress => "a mining job is already running"
  | .miningCancelled => "mining cancelled: the chain tip changed"
  | .duplicateTransaction id => s!"transaction {id} is already pending or included"
  | .rewardNotAccepted id => s!"mining rewards are only created by miners: {id}"
  | .chain e => e.message
  | .gossip e => e.message

/-- The messages of the errors that an error wraps, the outermost first. -/
def causes : NodeError → List String
  | .chain e => e.message :: e.causes
  | .gossip e => [e.message]
  | _ => []

/-- The name of an error. -/
def tag : NodeError → String
  | .miningInProgress => "MiningInProgress"
  | .miningCancelled => "MiningCancelled"
  | .duplicateTransaction _ => "DuplicateTransaction"
  | .rewardNotAccepted _ => "RewardNotAccepted"
  | .chain e => s!"Chain.{e.tag}"
  | .gossip e => s!"Gossip.{e.tag}"

instance : Explained NodeError := ⟨tag, message, causes⟩

end NodeError

/-- The way to the neighbours. -/
inductive Link where
  | up
  /-- Every broadcast fails for that reason. -/
  | down (reason : String)

/-- Sends a message: what goes out, or the error. -/
def Link.send : Link → Message → Except GossipError (List Message)
  | .up, m => .ok [m]
  | .down reason, _ => .error (.encode reason)

/-- A node. -/
structure Node where
  name : String
  wallet : Wallet
  chain : Chain
  pool : Pool
  /-- The number of changes of the chain. -/
  epoch : Nat
  /-- Whether a mining job is open. -/
  mining : Bool

/-- What an operation leads to. -/
structure Effect (α : Type) where
  node : Node
  /-- The messages sent. -/
  sent : List Message
  result : Except NodeError α

/-- An open mining job. -/
structure Ticket where
  job : MiningJob
  /-- The epoch of the snapshot. -/
  epoch : Nat

namespace Node

/-- A node with the genesis chain and an empty pool. -/
def new (name : String) (wallet : Wallet) : Node := ⟨name, wallet, .new, .empty, 0, false⟩

/-- The balance under an address. -/
def balance? (n : Node) (address : String) : Option UInt64 := n.chain.state.balance? address

/-! ## Transactions -/

/-- Puts a transaction into the pool. -/
def poolTransaction (n : Node) (t : Transaction) : Except NodeError Node :=
  if t.isReward then .error (.rewardNotAccepted t.id)
  else if n.chain.contains t.id then .error (.duplicateTransaction t.id)
  else
    match n.pool.add t with
    | (true, pool) => .ok { n with pool }
    | (false, _) => .error (.duplicateTransaction t.id)

/-- Pools a transaction and sends it to the neighbours.  It stays pooled if the link is
down. -/
def submit (link : Link) (n : Node) (t : Transaction) : Effect Unit :=
  match n.poolTransaction t with
  | .error e => ⟨n, [], .error e⟩
  | .ok n =>
      match link.send (.transaction t) with
      | .ok sent => ⟨n, sent, .ok ()⟩
      | .error e => ⟨n, [], .error (.gossip e)⟩

/-- Signs and submits a transfer from the node's wallet. -/
def transact (link : Link) (n : Node) (recipient : String) (value gasLimit : UInt64)
    (id : String) : Effect Transaction :=
  let t := Transaction.transact n.wallet recipient value gasLimit id
  let effect := n.submit link t
  ⟨effect.node, effect.sent, effect.result.map fun _ => t⟩

/-! ## Messages and chains of others -/

/-- Adds a block and clears its transactions from the pool. -/
def addBlock (n : Node) (b : Block) : Except NodeError Node :=
  match n.chain.addBlock Block.validate b n.pool with
  | .ok (chain, pool) => .ok { n with chain, pool, epoch := n.epoch + 1 }
  | .error e => .error (.chain e)

/-- Takes in a message. -/
def handle (n : Node) : Message → Except NodeError Node
  | .block b => n.addBlock b
  | .transaction t => n.poolTransaction t

/-- Adopts a longer chain and clears its transactions from the pool. -/
def sync (n : Node) (candidate : List Block) : Except NodeError Node :=
  match n.chain.replace Block.validate candidate with
  | .ok chain =>
      .ok { n with
        chain
        pool := chain.blocks.foldl (fun pool b => pool.clear b.transactions) n.pool
        epoch := n.epoch + 1 }
  | .error e => .error (.chain e)

/-! ## Mining -/

/-- Divides transactions into those that apply one after another on top of the chain, and the
others. -/
def sift (c : Chain) : List Transaction → State → List Transaction × List Transaction
  | [], _ => ([], [])
  | t :: rest, s =>
      if c.contains t.id then
        let (applicable, stale) := sift c rest s
        (applicable, t :: stale)
      else
        match t.validate s >>= fun _ => t.run s with
        | .ok s =>
            let (applicable, stale) := sift c rest s
            (t :: applicable, stale)
        | .error _ =>
            let (applicable, stale) := sift c rest s
            (applicable, t :: stale)

/-- The pending transactions that apply on top of the tip, and the node with only these in
its pool. -/
def applicable (n : Node) : List Transaction × Node :=
  let (applicable, stale) := sift n.chain n.pool.toList n.chain.state
  (applicable, { n with pool := n.pool.clear stale })

/-- Opens a mining job on the tip, with a reward of identifier `rewardId`. -/
def openJob (n : Node) (rewardId : String) : Except NodeError (Ticket × Node) :=
  if n.mining then .error .miningInProgress
  else
    let (series, n) := n.applicable
    let job := MiningJob.new n.chain.tip n.wallet.address series n.chain.state.root rewardId
    .ok (⟨job, n.epoch⟩, { n with mining := true })

/-- Closes a job with the block that its search found, and sends the block if it was
added. -/
def closeJob (link : Link) (n : Node) (ticket : Ticket) (found : Option Block) :
    Effect Block :=
  let n := { n with mining := false }
  match found with
  | none => ⟨n, [], .error .miningCancelled⟩
  | some b =>
      if n.epoch ≠ ticket.epoch then ⟨n, [], .error .miningCancelled⟩
      else
        match n.addBlock b with
        | .error e => ⟨n, [], .error e⟩
        | .ok n =>
            match link.send (.block b) with
            | .ok sent => ⟨n, sent, .ok b⟩
            | .error e => ⟨n, [], .error (.gossip e)⟩

/-- The search of a job.  It is cancelled as soon as the epoch of the node is not that of the
snapshot. -/
def search (n : Node) (ticket : Ticket) (draws : Nat → Draw) (attempts : Nat) : Option Block :=
  ticket.job.search (fun _ => n.epoch ≠ ticket.epoch) draws attempts 0

/-- Mines one block on the tip: a job opened, searched and closed with nothing in between. -/
def mine (link : Link) (n : Node) (rewardId : String) (draws : Nat → Draw) (attempts : Nat) :
    Effect Block :=
  match n.openJob rewardId with
  | .error e => ⟨n, [], .error e⟩
  | .ok (ticket, n) => n.closeJob link ticket (n.search ticket draws attempts)

/-! ## Running -/

/-- Takes in messages one after another; what is refused changes nothing. -/
def handleAll (n : Node) (messages : List Message) : Node :=
  messages.foldl (fun n m => (n.handle m).toOption.getD n) n

/-- Mines once for each entry of `rounds`, the identifier of the reward and the draws; a
round that fails is passed over. -/
def mineRounds (link : Link) (n : Node) (attempts : Nat) :
    List (String × (Nat → Draw)) → Node × List Message
  | [] => (n, [])
  | (rewardId, draws) :: rest =>
      let effect := n.mine link rewardId draws attempts
      let (n, sent) := mineRounds link effect.node attempts rest
      (n, effect.sent ++ sent)

/-- Runs on what a receiver gets from a hub: takes in every message, and then mines the
rounds, unless the hub is found closed. -/
def run (link : Link) (n : Node) (h : Hub) (r : Receiver) (attempts : Nat)
    (rounds : List (String × (Nat → Draw))) : Node × List Message :=
  let (messages, r) := h.drain (h.log.size + 1) r
  let n := n.handleAll messages
  match (h.receive r).1 with
  | .closed => (n, [])
  | _ => n.mineRounds link attempts rounds

/-- The number of times that a ticker of period `period` fires up to `span`, not counting its
start. -/
def tickCount (period span : Nat) : Nat := span / period

end Node

end WorkLedger
