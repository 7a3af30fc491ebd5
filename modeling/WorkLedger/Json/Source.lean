/-
# JSON as it is written

A text is read into a tree that keeps what a value forgets: the order of members, repeated
keys, and leaves that are well formed but denote nothing, such as a number too large for a
float or a string with half a surrogate pair.  Those leaves are harmless where nobody looks
at them: a record is read by picking its fields, and members of other names are skipped.
-/
import WorkLedger.Json.Basic

namespace WorkLedger

/-- A JSON text as a tree. -/
inductive Source where
  | null
  | bool (b : Bool)
  /-- A number, none if it is out of range. -/
  | num (n? : Option Number)
  /-- A string, none if it holds half a surrogate pair. -/
  | str (s? : Option String)
  | arr (items : List Source)
  | obj (members : List (Option String × Source))
deriving Inhabited

namespace Source

mutual

/-- A value as it would be written. -/
def ofJson : Json → Source
  | .null => .null
  | .bool b => .bool b
  | .num n => .num (some n)
  | .str s => .str (some s)
  | .arr items => .arr (ofItems items)
  | .obj members => .obj (ofMembers members)

/-- `ofJson` for every item. -/
def ofItems : List Json → List Source
  | [] => []
  | x :: rest => ofJson x :: ofItems rest

/-- `ofJson` for every member. -/
def ofMembers : List (String × Json) → List (Option String × Source)
  | [] => []
  | (k, v) :: rest => (some k, ofJson v) :: ofMembers rest

end

mutual

/-- The value, if every leaf denotes something; members keep their order. -/
def json? : Source → Option Json
  | .null => some .null
  | .bool b => some (.bool b)
  | .num n => n.map .num
  | .str s => s.map .str
  | .arr items => (items? items).map .arr
  | .obj members => (members? members).map .obj

/-- `json?` for every item. -/
def items? : List Source → Option (List Json)
  | [] => some []
  | x :: rest =>
      match json? x, items? rest with
      | some y, some ys => some (y :: ys)
      | _, _ => none

/-- `json?` for every member. -/
def members? : List (Option String × Source) → Option (List (String × Json))
  | [] => some []
  | (k, x) :: rest =>
      match k, json? x, members? rest with
      | some key, some y, some ys => some ((key, y) :: ys)
      | _, _, _ => none

end

mutual

/-- How many containers stand inside one another. -/
def nesting : Source → Nat
  | .arr items => nestingItems items + 1
  | .obj members => nestingMembers members + 1
  | _ => 0

/-- The largest nesting of an item. -/
def nestingItems : List Source → Nat
  | [] => 0
  | x :: rest => max (nesting x) (nestingItems rest)

/-- The largest nesting of a member. -/
def nestingMembers : List (Option String × Source) → Nat
  | [] => 0
  | (_, x) :: rest => max (nesting x) (nestingMembers rest)

end

/-! ## Records -/

/-- The only member of that name, `some none` if there is none and `none` if there are
several. -/
def field? (members : List (Option String × Source)) (name : String) : Option (Option Source) :=
  match members.filter (fun m => m.1 == some name) with
  | [] => some none
  | [(_, x)] => some (some x)
  | _ => none

/-- The fields of a record in the order of `names`.  A record is an object in which no field
is repeated, whatever else it holds, or an array of the fields in order, of which at least
the first `least` are there. -/
def record? (names : List String) (least : Nat) : Source → Option (List (Option Source))
  | .arr items =>
      if least ≤ items.length ∧ items.length ≤ names.length then
        some (items.map some ++ List.replicate (names.length - items.length) none)
      else none
  | .obj members =>
      if members.all (fun m => m.1.isSome) then names.mapM (field? members) else none
  | _ => none

/-- A field that has to be there, read as a value. -/
def required? {α : Type} (read : Json → Option α) : Option Source → Option α
  | none => none
  | some x => x.json?.bind read

/-- A field that may be missing or `null`, read as a value. -/
def optional? {α : Type} (read : Json → Option α) : Option Source → Option (Option α)
  | none => some none
  | some .null => some none
  | some x => (x.json?.bind read).map some

end Source

end WorkLedger
