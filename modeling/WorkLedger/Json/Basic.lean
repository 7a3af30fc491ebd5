/-
# JSON values

A value as a tree.  An object is kept as the list of its members, so that one type holds
both what is written out field by field and what is meant as a map; `Json.normalize` turns
the first reading into the second: members ascend by key at every depth, and of two members
of one key the later wins.  `Json.Object` is a map with that form as part of its type, which
is what a transaction carries as account data.

A number is an integer or a binary64 float given by its bits; the two never mix, `1` and
`1.0` are different values.
-/

namespace WorkLedger

/-- A JSON number. -/
inductive Number where
  | int (n : Int)
  /-- A binary64 float by its bits. -/
  | float (bits : UInt64)
deriving DecidableEq, Repr, Inhabited

/-- A JSON value. -/
inductive Json where
  | null
  | bool (b : Bool)
  | num (n : Number)
  | str (s : String)
  | arr (items : List Json)
  | obj (members : List (String × Json))
deriving Inhabited

namespace Json

/-- An integer as a value. -/
abbrev int (n : Int) : Json := .num (.int n)

/-- An optional value, `null` when there is none. -/
def ofOption {α : Type} (f : α → Json) : Option α → Json
  | none => .null
  | some a => f a

/-- The value of the first member of that key. -/
def get? (key : String) : Json → Option Json
  | .obj members => members.lookup key
  | _ => none

/-! ## Equality -/

mutual

/-- Equality of values as a Boolean. -/
def same : Json → Json → Bool
  | .null, .null => true
  | .bool a, .bool b => a == b
  | .num a, .num b => a == b
  | .str a, .str b => a == b
  | .arr a, .arr b => sameItems a b
  | .obj a, .obj b => sameMembers a b
  | _, _ => false

/-- Equality of lists of values. -/
def sameItems : List Json → List Json → Bool
  | [], [] => true
  | x :: xs, y :: ys => same x y && sameItems xs ys
  | _, _ => false

/-- Equality of lists of members. -/
def sameMembers : List (String × Json) → List (String × Json) → Bool
  | [], [] => true
  | (k, x) :: xs, (l, y) :: ys => k == l && same x y && sameMembers xs ys
  | _, _ => false

end

mutual

theorem same_iff : ∀ a b : Json, same a b = true ↔ a = b
  | .null, b => by cases b <;> simp [same]
  | .bool _, b => by cases b <;> simp [same]
  | .num _, b => by cases b <;> simp [same]
  | .str _, b => by cases b <;> simp [same]
  | .arr xs, b => by
      cases b with
      | arr ys => simp [same, sameItems_iff xs ys]
      | _ => simp [same]
  | .obj xs, b => by
      cases b with
      | obj ys => simp [same, sameMembers_iff xs ys]
      | _ => simp [same]

theorem sameItems_iff : ∀ xs ys : List Json, sameItems xs ys = true ↔ xs = ys
  | [], ys => by cases ys <;> simp [sameItems]
  | x :: xs, ys => by
      cases ys with
      | nil => simp [sameItems]
      | cons y ys =>
          simp [sameItems, same_iff x y, sameItems_iff xs ys]

theorem sameMembers_iff : ∀ xs ys : List (String × Json),
    sameMembers xs ys = true ↔ xs = ys
  | [], ys => by cases ys <;> simp [sameMembers]
  | (k, x) :: xs, ys => by
      cases ys with
      | nil => simp [sameMembers]
      | cons y ys =>
          obtain ⟨l, y⟩ := y
          simp [sameMembers, same_iff x y,
            sameMembers_iff xs ys]

end

instance : DecidableEq Json := fun a b => decidable_of_iff _ (same_iff a b)

/-! ## Maps -/

/-- Puts a member in front of all members of larger keys, unless its key is there
already. -/
def insertMember (key : String) (value : Json) :
    List (String × Json) → List (String × Json)
  | [] => [(key, value)]
  | (k, v) :: rest =>
      if key < k then (key, value) :: (k, v) :: rest
      else if key = k then (k, v) :: rest
      else (k, v) :: insertMember key value rest

mutual

/-- The value with every object as a map: members ascend by key, and the last of several
members of one key stays. -/
def normalize : Json → Json
  | .arr items => .arr (normalizeItems items)
  | .obj members => .obj (normalizeMembers members)
  | scalar => scalar

/-- `normalize` for every item. -/
def normalizeItems : List Json → List Json
  | [] => []
  | x :: rest => normalize x :: normalizeItems rest

/-- `normalize` for every member, and the members as a map. -/
def normalizeMembers : List (String × Json) → List (String × Json)
  | [] => []
  | (k, v) :: rest => insertMember k (normalize v) (normalizeMembers rest)

end

/-- Whether every key is less than the next one. -/
def ascending : List (String × Json) → Bool
  | [] => true
  | [_] => true
  | (k, _) :: (l, v) :: rest => decide (k < l) && ascending ((l, v) :: rest)

mutual

/-- Whether every object in the value is a map. -/
def isNormal : Json → Bool
  | .arr items => isNormalItems items
  | .obj members => ascending members && isNormalMembers members
  | _ => true

/-- Whether every object in the items is a map. -/
def isNormalItems : List Json → Bool
  | [] => true
  | x :: rest => isNormal x && isNormalItems rest

/-- Whether every object below the members is a map. -/
def isNormalMembers : List (String × Json) → Bool
  | [] => true
  | (_, v) :: rest => isNormal v && isNormalMembers rest

end

theorem isNormalMembers_insertMember {key : String} {value : Json} (hv : value.isNormal) :
    ∀ {members : List (String × Json)}, isNormalMembers members →
      isNormalMembers (insertMember key value members)
  | [], _ => by simp [insertMember, isNormalMembers, hv]
  | (k, v) :: rest, h => by
      have hrest := h
      simp only [isNormalMembers, Bool.and_eq_true] at hrest
      unfold insertMember
      split
      · simp [isNormalMembers, hv, hrest]
      · split
        · exact h
        · simp [isNormalMembers, hrest.1, isNormalMembers_insertMember hv hrest.2]

/-- Of two different keys one is less. -/
theorem lt_of_not_lt {k l : String} (h : ¬ k < l) (hne : ¬ k = l) : l < k :=
  Decidable.byContradiction fun h' =>
    hne (String.le_antisymm (String.not_lt.mp h') (String.not_lt.mp h))

/-- What is inserted above a lower bound stays above it. -/
theorem ascending_cons_insertMember {key low : String} {value lowValue : Json}
    (hlow : low < key) :
    ∀ {members : List (String × Json)}, ascending ((low, lowValue) :: members) →
      ascending ((low, lowValue) :: insertMember key value members)
  | [], _ => by simp [insertMember, ascending, hlow]
  | (k, v) :: rest, h => by
      simp only [ascending, Bool.and_eq_true, decide_eq_true_eq] at h
      unfold insertMember
      split
      · rename_i hk
        simp [ascending, hlow, hk, h.2]
      · split
        · simp [ascending, h.1, h.2]
        · rename_i hk hne
          simp [ascending, h.1, ascending_cons_insertMember (lt_of_not_lt hk hne) h.2]

theorem ascending_insertMember {key : String} {value : Json} :
    ∀ {members : List (String × Json)}, ascending members →
      ascending (insertMember key value members)
  | [], _ => by simp [insertMember, ascending]
  | (k, v) :: rest, h => by
      unfold insertMember
      split
      · rename_i hk
        simp [ascending, hk, h]
      · split
        · exact h
        · rename_i hk hne
          exact ascending_cons_insertMember (lt_of_not_lt hk hne) h

mutual

theorem isNormal_normalize : ∀ a : Json, (normalize a).isNormal
  | .null => rfl
  | .bool _ => rfl
  | .num _ => rfl
  | .str _ => rfl
  | .arr items => by
      simp only [normalize, isNormal]
      exact isNormalItems_normalizeItems items
  | .obj members => by
      simp only [normalize, isNormal, Bool.and_eq_true]
      exact ⟨ascending_normalizeMembers members, isNormalMembers_normalizeMembers members⟩

theorem isNormalItems_normalizeItems : ∀ items : List Json,
    isNormalItems (normalizeItems items)
  | [] => rfl
  | x :: rest => by
      simp [normalizeItems, isNormalItems, isNormal_normalize x,
        isNormalItems_normalizeItems rest]

theorem isNormalMembers_normalizeMembers : ∀ members : List (String × Json),
    isNormalMembers (normalizeMembers members)
  | [] => rfl
  | (_, v) :: rest =>
      isNormalMembers_insertMember (isNormal_normalize v)
        (isNormalMembers_normalizeMembers rest)

theorem ascending_normalizeMembers : ∀ members : List (String × Json),
    ascending (normalizeMembers members)
  | [] => rfl
  | (_, _) :: rest => ascending_insertMember (ascending_normalizeMembers rest)

end

/-- An object as a map: its members ascend by key, here and in everything below. -/
structure Object where
  /-- The members in the order of their keys. -/
  members : List (String × Json)
  /-- They are a map. -/
  normal : (Json.obj members).isNormal
deriving DecidableEq

namespace Object

/-- The map that a list of members denotes. -/
def ofMembers (members : List (String × Json)) : Object :=
  ⟨normalizeMembers members, isNormal_normalize (.obj members)⟩

/-- The map as a value. -/
def toJson (o : Object) : Json := .obj o.members

instance : Inhabited Object := ⟨⟨[], rfl⟩⟩

/-- The keys in ascending order. -/
def keys (o : Object) : List String := o.members.map Prod.fst

/-- The value under a key. -/
def get? (o : Object) (key : String) : Option Json := o.members.lookup key

end Object

/-! ## Depth -/

mutual

/-- How many containers stand inside one another; a scalar has none. -/
def nesting : Json → Nat
  | .arr items => nestingItems items + 1
  | .obj members => nestingMembers members + 1
  | _ => 0

/-- The largest nesting of an item. -/
def nestingItems : List Json → Nat
  | [] => 0
  | x :: rest => max (nesting x) (nestingItems rest)

/-- The largest nesting of a member. -/
def nestingMembers : List (String × Json) → Nat
  | [] => 0
  | (_, v) :: rest => max (nesting v) (nestingMembers rest)

end

end Json

/-- Types whose values have a JSON form, members in the order in which they are written. -/
class ToJson (α : Type) where
  /-- The JSON form. -/
  toJson : α → Json

export ToJson (toJson)

instance : ToJson Json := ⟨id⟩

end WorkLedger
