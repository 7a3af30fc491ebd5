/-
# Gossip over a broadcast channel

Members of a hub share a broadcast channel.  Publishing puts an envelope with the text of a message
into it; a receiver goes through the envelopes that came after it subscribed and returns the
messages of the other members, leaving out what it cannot read.  The channel itself is a parameter:
nothing here depends on how it keeps its envelopes.
-/
import WorkLedger.Gossip.Message

namespace WorkLedger

/-- How far behind a receiver may be without losing messages. -/
def hubCapacity : Nat := 1024

/-- A message on its way. -/
structure Envelope where
  /-- The member that published it. -/
  publisher : String
  channel : String
  body : String
deriving DecidableEq, Repr

/-- What a look at a channel finds. -/
inductive Look where
  | envelope (e : Envelope)
  /-- Envelopes that are gone. -/
  | lagged (skipped : Nat)
  /-- Nothing yet. -/
  | empty
  /-- Nothing, and nobody is left to send. -/
  | closed

/-- A broadcast channel.  What is sent changes the channel that all share, what is received the
place of one receiver. -/
structure Broadcast (Channel Place : Type) where
  send : Channel → Envelope → Channel
  /-- A place behind everything that was sent. -/
  subscribe : Channel → Place
  look : Channel → Place → Look × Place
  /-- The number of envelopes that a place has yet to receive, those that are gone included. -/
  length : Channel → Place → Nat

/-- What a call of a receiver comes to. -/
inductive Delivery where
  | message (m : Message)
  /-- Nothing yet: the call waits. -/
  | pending
  /-- Nothing, and nobody is left to publish. -/
  | closed

namespace Broadcast

/-- A place in a channel, on behalf of a member. -/
structure Receiver (Place : Type) where
  /-- The member, whose own messages are skipped. -/
  member : String
  place : Place
deriving DecidableEq, Repr

variable {Channel Place : Type} (b : Broadcast Channel Place)

/-- Publishes a message. -/
def publish (c : Channel) (member : String) (m : Message) : Channel :=
  b.send c ⟨member, m.channel, m.body⟩

/-- A receiver of what comes from now on. -/
def receiver (c : Channel) (member : String) : Receiver Place := ⟨member, b.subscribe c⟩

/-- One look into the channel: what the call comes to, or nothing if it has to look again. -/
def turn (c : Channel) (r : Receiver Place) : Option Delivery × Receiver Place :=
  match b.look c r.place with
  | (.envelope e, place) =>
      if e.publisher = r.member then (none, { r with place })
      else
        match Message.ofBody e.channel e.body with
        | .ok m => (some (.message m), { r with place })
        | .error _ => (none, { r with place })
  | (.lagged _, place) => (none, { r with place })
  | (.empty, place) => (some .pending, { r with place })
  | (.closed, place) => (some .closed, { r with place })

/-- Looks for the next message of another member.  After `turns` looks without an answer the call
waits for its turn. -/
def receive (c : Channel) : (turns : Nat) → Receiver Place → Delivery × Receiver Place
  | 0, r => (.pending, r)
  | turns + 1, r =>
      match b.turn c r with
      | (some d, r) => (d, r)
      | (none, r) => receive c turns r

/-- Looks until there is an answer: one look for each envelope, and one that finds no more. -/
def next (c : Channel) (r : Receiver Place) : Delivery × Receiver Place :=
  b.receive c (b.length c r.place + 1) r

/-- All messages that a receiver can get now, from at most `calls` calls. -/
def drain (c : Channel) : (calls : Nat) → Receiver Place → List Message × Receiver Place
  | 0, r => ([], r)
  | calls + 1, r =>
      match b.next c r with
      | (.message m, r) =>
          let (rest, r) := drain c calls r
          (m :: rest, r)
      | (_, r) => ([], r)

end Broadcast

end WorkLedger
