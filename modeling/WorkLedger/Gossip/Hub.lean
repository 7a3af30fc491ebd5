/-
# The gossip hub

Every member of a hub publishes to all, and a receiver gets what the other members publish
after it subscribed, in the order of publication.  The hub keeps its log, a receiver is a place
in it.  A receiver that is more than `hubCapacity` messages behind loses the oldest ones.
When the last publisher has left, receivers read what is there and then find the hub closed.
-/
import WorkLedger.Gossip.Broadcast

namespace WorkLedger

/-- A hub. -/
structure Hub where
  /-- Everything published, the oldest first. -/
  log : Array Envelope
  /-- The number of members that can publish. -/
  publishers : Nat

/-- A receiver stands behind the messages that it passed, and its place is their number. -/
abbrev Receiver := Broadcast.Receiver Nat

namespace Hub

/-- A hub with its first member. -/
def new : Hub := ⟨#[], 1⟩

/-- One more member. -/
def join (h : Hub) : Hub := { h with publishers := h.publishers + 1 }

/-- One member less. -/
def leave (h : Hub) : Hub := { h with publishers := h.publishers - 1 }

/-- The entry of the log at a place, or the way to the oldest that is kept. -/
def look (h : Hub) (place : Nat) : Look × Nat :=
  let oldest := h.log.size - hubCapacity
  if place < oldest then (.lagged (oldest - place), oldest)
  else
    match h.log[place]? with
    | some e => (.envelope e, place + 1)
    | none => (if h.publishers = 0 then .closed else .empty, place)

/-- The log as a broadcast channel. -/
def channel : Broadcast Hub Nat where
  send h e := { h with log := h.log.push e }
  subscribe h := h.log.size
  look := look
  length h place := h.log.size - place

/-- Publishes a message. -/
def publish (h : Hub) (member : String) (m : Message) : Hub := channel.publish h member m

/-- A receiver of what comes from now on. -/
def subscribe (h : Hub) (member : String) : Receiver := channel.receiver h member

/-- Looks for the next message of another member. -/
def receive (h : Hub) (r : Receiver) : Delivery × Receiver := channel.next h r

/-- All messages that a receiver can get now, from at most `calls` calls. -/
def drain (h : Hub) (calls : Nat) (r : Receiver) : List Message × Receiver :=
  channel.drain h calls r

end Hub

end WorkLedger
