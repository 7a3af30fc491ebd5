/-
# Gossip messages

A block or a transaction travels as a JSON text on the channel of its kind.  The text is
compact, with the fields of a record in their order.
-/
import WorkLedger.Block.Basic
import WorkLedger.Json.Reader

namespace WorkLedger

/-- Why a message is not sent or not understood. -/
inductive GossipError where
  | encode (reason : String)
  /-- The body is not a message of the channel. -/
  | decode (channel : String)
  | unknownChannel (channel : String)
deriving DecidableEq, Repr

/-- The wording of an error. -/
def GossipError.message : GossipError → String
  | .encode reason => s!"failed to encode message: {reason}"
  | .decode channel => s!"failed to decode message on channel {channel}"
  | .unknownChannel channel => s!"unknown channel: {channel}"

/-- The name of an error. -/
def GossipError.tag : GossipError → String
  | .encode _ => "Encode"
  | .decode _ => "Decode"
  | .unknownChannel _ => "UnknownChannel"

instance : Explained GossipError := ⟨GossipError.tag, GossipError.message, fun _ => []⟩

/-- What nodes tell one another. -/
inductive Message where
  | block (b : Block)
  | transaction (t : Transaction)
deriving DecidableEq

namespace Message

/-- The channel of blocks. -/
def blockChannel : String := "BLOCK"

/-- The channel of transactions. -/
def transactionChannel : String := "TRANSACTION"

/-- The channel that a message travels on. -/
def channel : Message → String
  | .block _ => blockChannel
  | .transaction _ => transactionChannel

/-- The body as a value. -/
def content : Message → Json
  | .block b => toJson b
  | .transaction t => toJson t

/-- The text that travels. -/
def body (m : Message) : String := m.content.compact

/-- Channel and body in one value. -/
instance : ToJson Message :=
  ⟨fun m => .obj [("channel", .str m.channel), ("message", m.content)]⟩

/-- Reads the body of a message that stands inside `depth` containers. -/
def ofSource? (channel : String) (depth : Nat) (s : Source) : Option Message :=
  if channel = blockChannel then (Block.ofSource? depth s).map .block
  else if channel = transactionChannel then (Transaction.ofSource? depth s).map .transaction
  else none

/-- Reads the text of a body that came on a channel. -/
def ofBody (channel body : String) : Except GossipError Message :=
  if channel = blockChannel ∨ channel = transactionChannel then
    match (Source.read? body).bind (ofSource? channel 0) with
    | some m => .ok m
    | none => .error (.decode channel)
  else .error (.unknownChannel channel)

/-- The name of a channel: a text, or inside an object also the only key of an object with
`null`. -/
def channelName? (inObject : Bool) : Source → Option String
  | .str s => s
  | .obj [(s, .null)] => if inObject then s else none
  | _ => none

/-- Reads a message as a record of channel and body. -/
def ofTagged? (s : Source) : Option Message := do
  let [channel, message] ← s.record? ["channel", "message"] 2 | none
  let inObject := match s with
    | .obj _ => true
    | _ => false
  let channel ← channel.bind (channelName? inObject)
  message.bind (ofSource? channel 1)

end Message

end WorkLedger
