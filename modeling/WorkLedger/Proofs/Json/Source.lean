/-
# Values and their sources

A value is told from how it would be written, and a record written with every field under its
own key is read as its fields.  What a source says of itself, that its numbers have 64 bits and
how deep it is, holds of its parts and of the value it denotes.
-/
import WorkLedger.Json.Source
import WorkLedger.Proofs.Json.Faithful

namespace WorkLedger

/-! ## The numbers of a value -/

/-- Integers of 64 bits, with a sign or without one.  Every float passes. -/
def Number.inRange : Number → Bool
  | .int n => decide (-9223372036854775808 ≤ n ∧ n < 18446744073709551616)
  | .float _ => true

theorem Number.inRange_int {n : Int} :
    (Number.int n).inRange = true ↔ -9223372036854775808 ≤ n ∧ n < 18446744073709551616 :=
  decide_eq_true_iff

namespace Json

mutual

/-- Whether no number in the value is a float. -/
def floatFree : Json → Bool
  | .num (.float _) => false
  | .arr items => floatFreeItems items
  | .obj members => floatFreeMembers members
  | _ => true

/-- Whether no number in the items is a float. -/
def floatFreeItems : List Json → Bool
  | [] => true
  | x :: rest => floatFree x && floatFreeItems rest

/-- Whether no number below the members is a float. -/
def floatFreeMembers : List (String × Json) → Bool
  | [] => true
  | (_, v) :: rest => floatFree v && floatFreeMembers rest

end

theorem floatFreeItems_iff {items : List Json} :
    floatFreeItems items = true ↔ ∀ x ∈ items, x.floatFree = true := by
  induction items with
  | nil => simp [floatFreeItems]
  | cons x rest ih => simp [floatFreeItems, ih]

mutual

/-- Whether every integer in the value is one of 64 bits. -/
def inRange : Json → Bool
  | .num n => n.inRange
  | .arr items => inRangeItems items
  | .obj members => inRangeMembers members
  | _ => true

/-- Whether every integer in the items is one of 64 bits. -/
def inRangeItems : List Json → Bool
  | [] => true
  | x :: rest => inRange x && inRangeItems rest

/-- Whether every integer below the members is one of 64 bits. -/
def inRangeMembers : List (String × Json) → Bool
  | [] => true
  | (_, v) :: rest => inRange v && inRangeMembers rest

end

theorem inRangeItems_iff {items : List Json} :
    inRangeItems items = true ↔ ∀ x ∈ items, x.inRange = true := by
  induction items with
  | nil => simp [inRangeItems]
  | cons x rest ih => simp [inRangeItems, ih]

theorem inRangeMembers_insertMember {key : String} {value : Json} (hv : value.inRange = true) :
    ∀ {members : List (String × Json)}, inRangeMembers members = true →
      inRangeMembers (insertMember key value members) = true
  | [], _ => by simp [insertMember, inRangeMembers, hv]
  | (k, v) :: rest, h => by
      have hrest := h
      simp only [inRangeMembers, Bool.and_eq_true] at hrest
      unfold insertMember
      split
      · simp [inRangeMembers, hv, hrest]
      · split
        · exact h
        · simp [inRangeMembers, hrest.1, inRangeMembers_insertMember hv hrest.2]

mutual

theorem inRange_normalize : ∀ {a : Json}, a.inRange = true → a.normalize.inRange = true
  | .null, _ => rfl
  | .bool _, _ => rfl
  | .num _, h => h
  | .str _, _ => rfl
  | .arr items, h => by
      simp only [inRange] at h
      exact inRangeItems_normalizeItems h
  | .obj members, h => by
      simp only [inRange] at h
      exact inRangeMembers_normalizeMembers h

theorem inRangeItems_normalizeItems : ∀ {items : List Json}, inRangeItems items = true →
    inRangeItems (normalizeItems items) = true
  | [], _ => rfl
  | x :: rest, h => by
      simp only [inRangeItems, Bool.and_eq_true] at h
      simp only [normalizeItems, inRangeItems, inRange_normalize h.1,
        inRangeItems_normalizeItems h.2, Bool.and_self]

theorem inRangeMembers_normalizeMembers : ∀ {members : List (String × Json)},
    inRangeMembers members = true → inRangeMembers (normalizeMembers members) = true
  | [], _ => rfl
  | (_, v) :: rest, h => by
      simp only [inRangeMembers, Bool.and_eq_true] at h
      exact inRangeMembers_insertMember (inRange_normalize h.1)
        (inRangeMembers_normalizeMembers h.2)

end

/-- A value that its text gives back: no float is in it, and its integers have 64 bits. -/
structure Plain (a : Json) : Prop where
  floatFree : a.floatFree = true
  inRange : a.inRange = true

/-! ## Depth -/

/-- A plain value that is not deeper than so many containers. -/
structure Shallow (depth : Nat) (a : Json) : Prop extends Plain a where
  nesting : a.nesting ≤ depth

theorem nestingItems_le {items : List Json} {n : Nat} :
    nestingItems items ≤ n ↔ ∀ x ∈ items, x.nesting ≤ n := by
  induction items with
  | nil => simp [nestingItems]
  | cons x rest ih => rw [nestingItems, Nat.max_le, ih, List.forall_mem_cons]

theorem nestingMembers_insertMember (key : String) (value : Json)
    (members : List (String × Json)) :
    nestingMembers (insertMember key value members) ≤ max value.nesting (nestingMembers members) := by
  induction members with
  | nil => exact Nat.le_refl _
  | cons m rest ih =>
      obtain ⟨k, v⟩ := m
      unfold insertMember
      split
      · exact Nat.le_refl _
      · split
        · exact Nat.le_max_right _ _
        · simp only [nestingMembers]
          omega

mutual

/-- A map is not deeper than the members it was made of. -/
theorem nesting_normalize_le : ∀ a : Json, a.normalize.nesting ≤ a.nesting
  | .null => Nat.le_refl _
  | .bool _ => Nat.le_refl _
  | .num _ => Nat.le_refl _
  | .str _ => Nat.le_refl _
  | .arr items => Nat.succ_le_succ (nestingItems_normalizeItems_le items)
  | .obj members => Nat.succ_le_succ (nestingMembers_normalizeMembers_le members)

theorem nestingItems_normalizeItems_le : ∀ items : List Json,
    nestingItems (normalizeItems items) ≤ nestingItems items
  | [] => Nat.le_refl _
  | x :: rest => by
      have hx := nesting_normalize_le x
      have hrest := nestingItems_normalizeItems_le rest
      simp only [normalizeItems, nestingItems]
      omega

theorem nestingMembers_normalizeMembers_le : ∀ members : List (String × Json),
    nestingMembers (normalizeMembers members) ≤ nestingMembers members
  | [] => Nat.le_refl _
  | (k, v) :: rest => by
      have hinsert := nestingMembers_insertMember k v.normalize (normalizeMembers rest)
      have hv := nesting_normalize_le v
      have hrest := nestingMembers_normalizeMembers_le rest
      simp only [normalizeMembers, nestingMembers]
      omega

end

/-! ## The parts of a value -/

/-- The items of an array, and what stands under the keys of an object. -/
def parts : Json → List Json
  | .arr items => items
  | .obj members => members.map Prod.snd
  | _ => []

theorem nesting_lt_of_mem_parts {a x : Json} (hx : x ∈ a.parts) : x.nesting < a.nesting := by
  cases a with
  | arr items => exact Nat.lt_succ_of_le (nestingItems_le.mp (Nat.le_refl _) x hx)
  | obj members =>
      refine Nat.lt_succ_of_le ?_
      induction members with
      | nil => exact nomatch hx
      | cons m rest ih =>
          rcases List.mem_cons.mp hx with rfl | hx
          · exact Nat.le_max_left _ _
          · exact Nat.le_trans (ih hx) (Nat.le_max_right _ _)
  | _ => exact nomatch hx

theorem inRange_of_mem_parts {a x : Json} (ha : a.inRange = true) (hx : x ∈ a.parts) :
    x.inRange = true := by
  cases a with
  | arr items =>
      simp only [inRange] at ha
      exact inRangeItems_iff.mp ha x hx
  | obj members =>
      simp only [inRange] at ha
      induction members with
      | nil => exact nomatch hx
      | cons m rest ih =>
          simp only [inRangeMembers, Bool.and_eq_true] at ha
          rcases List.mem_cons.mp hx with rfl | hx
          · exact ha.1
          · exact ih ha.2 hx
  | _ => exact nomatch hx

end Json

namespace Source

/-! ## The value of a source -/

mutual

/-- How a value would be written denotes the value. -/
theorem json?_ofJson : ∀ a : Json, (ofJson a).json? = some a
  | .null => rfl
  | .bool _ => rfl
  | .num _ => rfl
  | .str _ => rfl
  | .arr items => by simp only [ofJson, json?, items?_ofItems items, Option.map_some]
  | .obj members => by simp only [ofJson, json?, members?_ofMembers members, Option.map_some]

theorem items?_ofItems : ∀ items : List Json, items? (ofItems items) = some items
  | [] => rfl
  | x :: rest => by simp only [ofItems, items?, json?_ofJson x, items?_ofItems rest]

theorem members?_ofMembers : ∀ members : List (String × Json),
    members? (ofMembers members) = some members
  | [] => rfl
  | (k, v) :: rest => by
      simp only [ofMembers, members?, json?_ofJson v, members?_ofMembers rest]

end

mutual

/-- A value is as deep as its source. -/
theorem nesting_of_json? : ∀ {s : Source} {a : Json}, s.json? = some a → a.nesting = s.nesting
  | .null, _, h => by
      cases h
      rfl
  | .bool _, _, h => by
      cases h
      rfl
  | .num _, _, h => by
      obtain ⟨n, -, rfl⟩ := Option.map_eq_some_iff.mp h
      rfl
  | .str _, _, h => by
      obtain ⟨t, -, rfl⟩ := Option.map_eq_some_iff.mp h
      rfl
  | .arr items, _, h => by
      obtain ⟨ys, hys, rfl⟩ := Option.map_eq_some_iff.mp h
      exact congrArg Nat.succ (nestingItems_of_items? hys)
  | .obj members, _, h => by
      obtain ⟨ys, hys, rfl⟩ := Option.map_eq_some_iff.mp h
      exact congrArg Nat.succ (nestingMembers_of_members? hys)

theorem nestingItems_of_items? : ∀ {items : List Source} {ys : List Json},
    items? items = some ys → Json.nestingItems ys = nestingItems items
  | [], _, h => by
      cases h
      rfl
  | x :: rest, _, h => by
      unfold items? at h
      split at h
      · rename_i y ys hy hys
        cases h
        rw [Json.nestingItems, nestingItems, nesting_of_json? hy, nestingItems_of_items? hys]
      · exact nomatch h

theorem nestingMembers_of_members? : ∀ {members : List (Option String × Source)}
    {ys : List (String × Json)}, members? members = some ys →
    Json.nestingMembers ys = nestingMembers members
  | [], _, h => by
      cases h
      rfl
  | (k, x) :: rest, _, h => by
      unfold members? at h
      split at h
      · rename_i key y ys hy hys
        cases h
        rw [Json.nestingMembers, nestingMembers, nesting_of_json? hy,
          nestingMembers_of_members? hys]
      · exact nomatch h

end

theorem nesting_ofJson (a : Json) : (ofJson a).nesting = a.nesting :=
  (nesting_of_json? (json?_ofJson a)).symm

/-! ## The numbers of a source -/

mutual

/-- Whether every integer in the source is one of 64 bits. -/
def inRange : Source → Bool
  | .num (some n) => n.inRange
  | .arr items => inRangeItems items
  | .obj members => inRangeMembers members
  | _ => true

/-- Whether every integer in the items is one of 64 bits. -/
def inRangeItems : List Source → Bool
  | [] => true
  | x :: rest => inRange x && inRangeItems rest

/-- Whether every integer below the members is one of 64 bits. -/
def inRangeMembers : List (Option String × Source) → Bool
  | [] => true
  | (_, x) :: rest => inRange x && inRangeMembers rest

end

mutual

theorem inRange_of_json? : ∀ {s : Source} {a : Json}, s.inRange = true → s.json? = some a →
    a.inRange = true
  | .null, _, _, h => by
      cases h
      rfl
  | .bool _, _, _, h => by
      cases h
      rfl
  | .num n?, _, hrange, h => by
      obtain ⟨n, rfl, rfl⟩ := Option.map_eq_some_iff.mp h
      exact hrange
  | .str _, _, _, h => by
      obtain ⟨t, -, rfl⟩ := Option.map_eq_some_iff.mp h
      rfl
  | .arr items, _, hrange, h => by
      obtain ⟨ys, hys, rfl⟩ := Option.map_eq_some_iff.mp h
      simp only [inRange] at hrange
      exact inRangeItems_of_items? hrange hys
  | .obj members, _, hrange, h => by
      obtain ⟨ys, hys, rfl⟩ := Option.map_eq_some_iff.mp h
      simp only [inRange] at hrange
      exact inRangeMembers_of_members? hrange hys

theorem inRangeItems_of_items? : ∀ {items : List Source} {ys : List Json},
    inRangeItems items = true → items? items = some ys → Json.inRangeItems ys = true
  | [], _, _, h => by
      cases h
      rfl
  | x :: rest, _, hrange, h => by
      simp only [inRangeItems, Bool.and_eq_true] at hrange
      unfold items? at h
      split at h
      · rename_i y ys hy hys
        cases h
        simp only [Json.inRangeItems, inRange_of_json? hrange.1 hy,
          inRangeItems_of_items? hrange.2 hys, Bool.and_self]
      · exact nomatch h

theorem inRangeMembers_of_members? : ∀ {members : List (Option String × Source)}
    {ys : List (String × Json)}, inRangeMembers members = true → members? members = some ys →
    Json.inRangeMembers ys = true
  | [], _, _, h => by
      cases h
      rfl
  | (k, x) :: rest, _, hrange, h => by
      simp only [inRangeMembers, Bool.and_eq_true] at hrange
      unfold members? at h
      split at h
      · rename_i key y ys hy hys
        cases h
        simp only [Json.inRangeMembers, inRange_of_json? hrange.1 hy,
          inRangeMembers_of_members? hrange.2 hys, Bool.and_self]
      · exact nomatch h

end

/-! ## The parts of a source -/

/-- What is read from a list is read from its items. -/
theorem exists_of_mem_mapM {α β : Type} {f : α → Option β} :
    ∀ {items : List α} {read : List β}, items.mapM f = some read →
      ∀ y ∈ read, ∃ x ∈ items, f x = some y
  | [], _, h, y, hy => by
      cases h
      exact nomatch hy
  | z :: items, read, h, y, hy => by
      rw [List.mapM_cons] at h
      obtain ⟨w, hw, h⟩ := Option.bind_eq_some_iff.mp h
      obtain ⟨ws, hws, h⟩ := Option.bind_eq_some_iff.mp h
      cases h
      rcases List.mem_cons.mp hy with rfl | hy
      · exact ⟨z, List.mem_cons_self, hw⟩
      · obtain ⟨x, hx, hread⟩ := exists_of_mem_mapM hws y hy
        exact ⟨x, List.mem_cons_of_mem z hx, hread⟩

/-- The items of an array, and what stands under the keys of an object. -/
def parts : Source → List Source
  | .arr items => items
  | .obj members => members.map Prod.snd
  | _ => []

theorem inRange_of_mem_parts {s x : Source} (hs : s.inRange = true) (hx : x ∈ s.parts) :
    x.inRange = true := by
  cases s with
  | arr items =>
      simp only [inRange] at hs
      induction items with
      | nil => exact nomatch hx
      | cons y rest ih =>
          simp only [inRangeItems, Bool.and_eq_true] at hs
          rcases List.mem_cons.mp hx with rfl | hx
          · exact hs.1
          · exact ih hs.2 hx
  | obj members =>
      simp only [inRange] at hs
      induction members with
      | nil => exact nomatch hx
      | cons m rest ih =>
          simp only [inRangeMembers, Bool.and_eq_true] at hs
          rcases List.mem_cons.mp hx with rfl | hx
          · exact hs.1
          · exact ih hs.2 hx
  | _ => exact nomatch hx

theorem mem_of_field? {members : List (Option String × Source)} {name : String} {x : Source}
    (h : field? members name = some (some x)) : x ∈ members.map Prod.snd := by
  unfold field? at h
  split at h
  · exact nomatch h
  · rename_i key y heq
    cases h
    have hmem : (key, x) ∈ members.filter (fun m => m.1 == some name) := by
      rw [heq]
      exact List.mem_cons_self
    exact List.mem_map_of_mem (List.mem_filter.mp hmem).1
  · exact nomatch h

/-- The fields of a record are parts of it. -/
theorem mem_parts_of_record? {names : List String} {least : Nat} {s x : Source}
    {fields : List (Option Source)} (h : s.record? names least = some fields)
    (hx : some x ∈ fields) : x ∈ s.parts := by
  unfold record? at h
  split at h
  · split at h
    · cases h
      rcases List.mem_append.mp hx with hx | hx
      · obtain ⟨y, hy, heq⟩ := List.mem_map.mp hx
        cases heq
        exact hy
      · exact nomatch (List.mem_replicate.mp hx).2
    · exact nomatch h
  · split at h
    · obtain ⟨name, -, hname⟩ := exists_of_mem_mapM h _ hx
      exact mem_of_field? hname
    · exact nomatch h
  · exact nomatch h

/-! ## Records that were written -/

theorem filter_ofMembers_eq_nil {members : List (String × Json)} {name : String}
    (h : name ∉ members.map Prod.fst) :
    (ofMembers members).filter (fun m => m.1 == some name) = [] := by
  induction members with
  | nil => rfl
  | cons m rest ih =>
      obtain ⟨k, v⟩ := m
      simp only [List.map_cons, List.mem_cons, not_or] at h
      have hne : (some k == some name) = false := beq_eq_false_iff_ne.mpr fun heq =>
        h.1 (Option.some.inj heq).symm
      rw [ofMembers, List.filter_cons_of_neg (by rw [hne]; decide), ih h.2]

/-- A key that stands once is found under its name. -/
theorem field?_ofMembers {members : List (String × Json)}
    (h : (members.map Prod.fst).Nodup) (name : String) :
    field? (ofMembers members) name = some ((members.lookup name).map ofJson) := by
  induction members with
  | nil => rfl
  | cons m rest ih =>
      obtain ⟨k, v⟩ := m
      rw [List.map_cons, List.nodup_cons] at h
      by_cases heq : name = k
      · subst heq
        have hself : (some name == some name) = true := beq_self_eq_true _
        rw [field?, ofMembers, List.filter_cons, if_pos hself, filter_ofMembers_eq_nil h.1,
          List.lookup_cons_self]
        rfl
      · have hkey : (some k == some name) = false := beq_eq_false_iff_ne.mpr fun h =>
          heq (Option.some.inj h).symm
        have hlookup : List.lookup name ((k, v) :: rest) = rest.lookup name := by
          rw [List.lookup_cons, beq_eq_false_iff_ne.mpr heq]
        have hrest := ih h.2
        rw [field?] at hrest
        rw [field?, ofMembers, List.filter_cons_of_neg (by rw [hkey]; decide), hrest, hlookup]

/-- A record that was written is read as what stands under its names. -/
theorem record?_ofJson {members : List (String × Json)} (h : (members.map Prod.fst).Nodup)
    (names : List String) (least : Nat) :
    (ofJson (.obj members)).record? names least =
      some (names.map fun name => (members.lookup name).map ofJson) := by
  have hkeys : (ofMembers members).all (fun m => m.1.isSome) = true := by
    clear h
    induction members with
    | nil => rfl
    | cons m rest ih => exact ih
  rw [ofJson, record?, if_pos hkeys, funext (field?_ofMembers h)]
  exact List.mapM_pure

theorem required?_ofJson {α : Type} (read : Json → Option α) (a : Json) :
    required? read (some (ofJson a)) = read a := by
  rw [required?, json?_ofJson, Option.bind_some]

end Source

end WorkLedger
