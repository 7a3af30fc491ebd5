/-
# Authenticated tries

A trie is a map from strings, one node for each character of a key, the value on the node
where the key ends.  Its root is the digest of the whole tree, so that tries which hold the
same entries have the same root, in whatever order the entries were put.

The children of a node form a `Forest`: a chain of labelled nodes in the order of their
labels.  A forest is one plain inductive type, the children of a node and its next sibling
being forests again, and every operation is one structural recursion.

`Trie` keeps the root beside the tree and takes it anew with every `put`.
-/
import WorkLedger.Json.Source
import WorkLedger.Json.Text

namespace WorkLedger.Trie

/-- Labelled nodes side by side. -/
inductive Forest (α : Type) where
  | nil
  /-- A node with its label, its value, its children, and the nodes after it. -/
  | cons (label : Char) (value : Option α) (children rest : Forest α)
deriving DecidableEq, Inhabited

namespace Forest

variable {α : Type}

/-- A branch with one value at the end of the characters `c :: cs`, in front of `rest`. -/
def branch (value : α) (c : Char) : List Char → Forest α → Forest α
  | [], rest => .cons c (some value) .nil rest
  | d :: ds, rest => .cons c none (branch value d ds .nil) rest

/-- Writes a value under the characters `c :: cs`. -/
def put (value : α) : Forest α → Char → List Char → Forest α
  | .nil, c, cs => branch value c cs .nil
  | .cons d w children rest, c, cs =>
      if c < d then branch value c cs (.cons d w children rest)
      else if c = d then
        match cs with
        | [] => .cons d (some value) children rest
        | e :: es => .cons d w (children.put value e es) rest
      else .cons d w children (rest.put value c cs)

/-- The value under the characters `c :: cs`. -/
def get? : Forest α → Char → List Char → Option α
  | .nil, _, _ => none
  | .cons d w children rest, c, cs =>
      if c = d then
        match cs with
        | [] => w
        | e :: es => children.get? e es
      else rest.get? c cs

/-- The members of the JSON object that maps labels to nodes. -/
def members [ToJson α] : Forest α → List (String × Json)
  | .nil => []
  | .cons d w children rest =>
      (String.singleton d,
        .obj [("value", Json.ofOption toJson w), ("childMap", .obj children.members)])
        :: rest.members

/-- Puts a node under a label, in the place of one that was there. -/
def graft (c : Char) (value : Option α) (children : Forest α) : Forest α → Forest α
  | .nil => .cons c value children .nil
  | .cons d w kids rest =>
      if c < d then .cons c value children (.cons d w kids rest)
      else if c = d then .cons c value children rest
      else .cons d w kids (graft c value children rest)

end Forest

/-- A tree: the value at its top and the nodes below. -/
structure Node (α : Type) where
  value : Option α
  children : Forest α
deriving DecidableEq

namespace Node

variable {α : Type}

/-- The tree without entries. -/
def empty : Node α := ⟨none, .nil⟩

instance : Inhabited (Node α) := ⟨empty⟩

/-- Writes a value under a key. -/
def put (n : Node α) (key : String) (value : α) : Node α :=
  match key.toList with
  | [] => { n with value := some value }
  | c :: cs => { n with children := n.children.put value c cs }

/-- The value under a key. -/
def get? (n : Node α) (key : String) : Option α :=
  match key.toList with
  | [] => n.value
  | c :: cs => n.children.get? c cs

instance [ToJson α] : ToJson (Node α) :=
  ⟨fun n => .obj [("value", Json.ofOption toJson n.value), ("childMap", .obj n.children.members)]⟩

end Node

end WorkLedger.Trie

namespace WorkLedger

/-- A tree with its root digest. -/
structure Trie (α : Type) where
  node : Trie.Node α
  root : Digest
deriving DecidableEq

namespace Trie

variable {α : Type} [ToJson α]

/-- The trie of a tree, with the root taken. -/
def ofNode (n : Node α) : Trie α := ⟨n, digestOf n⟩

/-- The trie without entries. -/
def empty : Trie α := ofNode .empty

instance : Inhabited (Trie α) := ⟨empty⟩

/-- The value under a key. -/
def get? (t : Trie α) (key : String) : Option α := t.node.get? key

/-- Writes a value under a key and takes the root anew. -/
def put (t : Trie α) (key : String) (value : α) : Trie α := ofNode (t.node.put key value)

/-- The trie that holds every item under the digits of its own digest.  Items are put in the
order of their digests. -/
def ofItems (items : List α) : Trie α :=
  let keyed := items.map fun a => (digestOf a, a)
  (keyed.mergeSort fun a b => decide (a.1 ≤ b.1)).foldl (fun t e => t.put e.1.toHex e.2) empty

end Trie

/-- The root of a trie without entries; it is the same for every type of values. -/
def emptyRoot : Digest := (Trie.empty : Trie Json).root

namespace Trie.Node

/-- Reads a tree of arbitrary values from `fuel` levels.  A node is a record of its value,
which may be missing or `null`, and of its children, each under a single character. -/
def ofSource? : (fuel : Nat) → Source → Option (Node Json)
  | 0, _ => none
  | fuel + 1, s => do
      let [value, children] ← s.record? ["value", "childMap"] 2 | none
      let value ← Source.optional? some value
      let some (.obj members) := children | none
      let forest ← members.foldlM (fun (f : Forest Json) m => do
        let key ← m.1
        let [c] := key.toList | none
        let n ← ofSource? fuel m.2
        return .graft c n.value n.children f) .nil
      return ⟨value, forest⟩

/-- Reads a tree of arbitrary values. -/
def read? (s : Source) : Option (Node Json) := ofSource? (s.nesting + 1) s

end Trie.Node

end WorkLedger
