/-
# A node among peers

One node publishes and mines; its peers sit on the same hub, validate what they receive and
keep their own chains.  The peers take in what was sent as soon as it is there.
-/
import WorkLedger.Node

namespace WorkLedger

/-- A node that only listens. -/
structure Peer where
  node : Node
  receiver : Receiver

/-- A publishing node, its hub and its peers. -/
structure Network where
  hub : Hub
  root : Node
  peers : List Peer

namespace Network

/-- A node with one peer for each further wallet; peers are numbered from one. -/
def new (name : String) (wallet : Wallet) (peerWallets : List Wallet) : Network :=
  let hub := peerWallets.foldl (fun h _ => h.join) Hub.new
  let peers := peerWallets.mapIdx fun i w =>
    let peerName := s!"{name}-peer-{i + 1}"
    ⟨.new peerName w, hub.subscribe peerName⟩
  ⟨hub, .new name wallet, peers⟩

/-- The peer after it has taken in everything that the hub has for it. -/
def catchUp (h : Hub) (p : Peer) : Peer :=
  let (messages, receiver) := h.drain (h.log.size + 1) p.receiver
  ⟨p.node.handleAll messages, receiver⟩

/-- The network after an operation of the root: what it sent has reached the peers. -/
def apply {α : Type} (n : Network) (e : Effect α) : Network :=
  let hub := e.sent.foldl (fun h m => h.publish e.node.name m) n.hub
  ⟨hub, e.node, n.peers.map (catchUp hub)⟩

/-- Publishes the account of the root. -/
def publishAccount (n : Network) (id : String) : Network × Except NodeError Unit :=
  let effect := n.root.submit .up (.createAccount n.root.wallet.account id)
  (n.apply effect, effect.result)

/-- Mines a block at the root. -/
def mine (n : Network) (rewardId : String) (draws : Nat → Draw) (attempts : Nat) :
    Network × Except NodeError Block :=
  let effect := n.root.mine .up rewardId draws attempts
  (n.apply effect, effect.result)

end Network

end WorkLedger
