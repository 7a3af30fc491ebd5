/-
# JSON forms that tell their values

A digest is taken of the canonical text, in which objects are maps.  What the text can tell is
therefore the normal form of a value.  `Faithful` says of a type that the normal form tells
its elements apart; for records this is checked field by field, since a map gives back what
was put under each key.
-/
import Mathlib.Data.List.Nodup
import WorkLedger.Proofs.Json.Unambiguous

namespace WorkLedger

namespace Json

/-! ## Normal forms -/

theorem normalizeItems_eq_map (items : List Json) : normalizeItems items = items.map normalize := by
  induction items with
  | nil => rfl
  | cons x rest ih => rw [normalizeItems, ih, List.map_cons]

theorem lookup_insertMember {members : List (String × Json)} {key : String}
    (h : members.lookup key = none) (value : Json) (k : String) :
    (insertMember key value members).lookup k = if k = key then some value else members.lookup k := by
  induction members with
  | nil =>
      by_cases hk : k = key
      · simp [insertMember, hk]
      · simp [insertMember, hk]
  | cons m rest ih =>
      obtain ⟨l, v⟩ := m
      have hne : key ≠ l := by
        rintro rfl
        simp at h
      rw [List.lookup_cons, beq_false_of_ne hne] at h
      unfold insertMember
      split
      · by_cases hk : k = key
        · simp [hk]
        · rw [List.lookup_cons, beq_false_of_ne hk, if_neg hk]
      · rw [List.lookup_cons, List.lookup_cons, ih h]
        by_cases hkl : k = l
        · subst hkl
          simp [Ne.symm hne]
        · simp [beq_false_of_ne hkl]

/-- A map gives back what was put under a key, if the keys are different. -/
theorem lookup_normalizeMembers {members : List (String × Json)}
    (h : (members.map Prod.fst).Nodup) (k : String) :
    (normalizeMembers members).lookup k = (members.lookup k).map normalize := by
  induction members generalizing k with
  | nil => rfl
  | cons m rest ih =>
      obtain ⟨l, v⟩ := m
      obtain ⟨hl, hrest⟩ := List.nodup_cons.mp h
      have hnone : rest.lookup l = none := by
        rw [List.lookup_eq_none_iff]
        intro p hp
        have hne : l ≠ p.1 := fun heq => hl (List.mem_map.mpr ⟨p, hp, heq.symm⟩)
        simp [hne]
      have hnone' : (normalizeMembers rest).lookup l = none := by
        rw [ih hrest, hnone]
        rfl
      rw [normalizeMembers, lookup_insertMember hnone', ih hrest, List.lookup_cons]
      by_cases hk : k = l
      · simp [hk]
      · simp [hk, beq_false_of_ne hk]

/-- Objects of one normal form have fields of one normal form. -/
theorem lookup_eq_of_normalize_eq {members members' : List (String × Json)}
    (h : normalize (.obj members) = normalize (.obj members'))
    (hkeys : (members.map Prod.fst).Nodup) (hkeys' : (members'.map Prod.fst).Nodup) (k : String) :
    (members.lookup k).map normalize = (members'.lookup k).map normalize := by
  rw [← lookup_normalizeMembers hkeys, ← lookup_normalizeMembers hkeys']
  rw [normalize, normalize] at h
  rw [Json.obj.inj h]

/-- The canonical text tells the normal form. -/
theorem normalize_eq_of_canonical_eq {a b : Json} (h : a.canonical = b.canonical) :
    a.normalize = b.normalize :=
  compact_inj h

theorem canonical_eq_iff {a b : Json} : a.canonical = b.canonical ↔ a.normalize = b.normalize :=
  ⟨normalize_eq_of_canonical_eq, congrArg compact⟩

/-! ## Maps are their own normal form -/

theorem insertMember_of_ascending {key : String} {value : Json} {members : List (String × Json)}
    (h : ascending ((key, value) :: members) = true) (value' : Json) :
    insertMember key value' members = (key, value') :: members := by
  cases members with
  | nil => rfl
  | cons m rest =>
      simp only [ascending, Bool.and_eq_true, decide_eq_true_eq] at h
      exact if_pos h.1

theorem ascending_of_cons {m : String × Json} {members : List (String × Json)}
    (h : ascending (m :: members) = true) : ascending members = true := by
  cases members with
  | nil => rfl
  | cons n rest =>
      simp only [ascending, Bool.and_eq_true] at h
      exact h.2

mutual

theorem normalize_of_isNormal : ∀ {a : Json}, a.isNormal = true → a.normalize = a
  | .null, _ => rfl
  | .bool _, _ => rfl
  | .num _, _ => rfl
  | .str _, _ => rfl
  | .arr items, h => by
      simp only [isNormal] at h
      rw [normalize, normalizeItems_of_isNormal h]
  | .obj members, h => by
      simp only [isNormal, Bool.and_eq_true] at h
      rw [normalize, normalizeMembers_of_isNormal h.1 h.2]

theorem normalizeItems_of_isNormal : ∀ {items : List Json}, isNormalItems items = true →
    normalizeItems items = items
  | [], _ => rfl
  | x :: rest, h => by
      simp only [isNormalItems, Bool.and_eq_true] at h
      rw [normalizeItems, normalize_of_isNormal h.1, normalizeItems_of_isNormal h.2]

theorem normalizeMembers_of_isNormal : ∀ {members : List (String × Json)},
    ascending members = true → isNormalMembers members = true →
    normalizeMembers members = members
  | [], _, _ => rfl
  | (k, v) :: rest, hascending, h => by
      simp only [isNormalMembers, Bool.and_eq_true] at h
      rw [normalizeMembers, normalize_of_isNormal h.1,
        normalizeMembers_of_isNormal (ascending_of_cons hascending) h.2,
        insertMember_of_ascending hascending]

end

/-- Values in which every object is a map already are told from their texts. -/
theorem eq_of_canonical_eq {a b : Json} (ha : a.isNormal = true) (hb : b.isNormal = true)
    (h : a.canonical = b.canonical) : a = b := by
  have hnormal := normalize_eq_of_canonical_eq h
  rwa [normalize_of_isNormal ha, normalize_of_isNormal hb] at hnormal

theorem Object.normalize_toJson (o : Object) : o.toJson.normalize = o.toJson :=
  normalize_of_isNormal o.normal

/-! ## Maps that give the same -/

/-- Behind a key of a map there are only larger ones. -/
theorem lookup_eq_none_of_ascending {key k : String} {value : Json}
    {members : List (String × Json)} (h : ascending ((key, value) :: members) = true)
    (hk : ¬ key < k) : members.lookup k = none := by
  induction members generalizing key value with
  | nil => rfl
  | cons m rest ih =>
      obtain ⟨l, v⟩ := m
      simp only [ascending, Bool.and_eq_true, decide_eq_true_eq] at h
      have hne : k ≠ l := fun heq => hk (heq ▸ h.1)
      rw [List.lookup_cons, beq_false_of_ne hne]
      exact ih h.2 fun hlt => hk (String.lt_trans h.1 hlt)

/-- A key that is less than the first one of a map is not in the map. -/
theorem not_lt_of_lookup_eq {k l : String} {v w : Json} {rest rest' : List (String × Json)}
    (h : ascending ((l, w) :: rest') = true)
    (heq : ∀ key, ((k, v) :: rest).lookup key = ((l, w) :: rest').lookup key) : ¬ k < l := by
  intro hlt
  have hnone := lookup_eq_none_of_ascending h (String.lt_asymm hlt)
  have hkey := heq k
  rw [List.lookup_cons_self, List.lookup_cons, beq_false_of_ne (String.ne_of_lt hlt), hnone] at hkey
  exact nomatch hkey

/-- Maps that give the same under every key are equal. -/
theorem eq_of_lookup_eq {members members' : List (String × Json)}
    (h : ascending members = true) (h' : ascending members' = true)
    (heq : ∀ key, members.lookup key = members'.lookup key) : members = members' := by
  induction members generalizing members' with
  | nil =>
      cases members' with
      | nil => rfl
      | cons m' rest' =>
          have hkey := heq m'.1
          rw [List.lookup_cons_self] at hkey
          exact nomatch hkey
  | cons m rest ih =>
      obtain ⟨k, v⟩ := m
      cases members' with
      | nil =>
          have hkey := heq k
          rw [List.lookup_cons_self] at hkey
          exact nomatch hkey
      | cons m' rest' =>
          obtain ⟨l, w⟩ := m'
          have hkl : k = l := String.le_antisymm
            (String.not_lt.mp (not_lt_of_lookup_eq h fun key => (heq key).symm))
            (String.not_lt.mp (not_lt_of_lookup_eq h' heq))
          subst hkl
          have hvw : v = w := by simpa using heq k
          have hrest : rest = rest' := by
            refine ih (ascending_of_cons h) (ascending_of_cons h') fun key => ?_
            by_cases hk : key = k
            · subst hk
              rw [lookup_eq_none_of_ascending h (String.lt_irrefl key),
                lookup_eq_none_of_ascending h' (String.lt_irrefl key)]
            · simpa [List.lookup_cons, beq_false_of_ne hk] using heq key
          rw [hvw, hrest]

/-- Objects have one text exactly if they have values of one text under every key, in whatever
order the members stand. -/
theorem canonical_obj_eq_iff {members members' : List (String × Json)}
    (hkeys : (members.map Prod.fst).Nodup) (hkeys' : (members'.map Prod.fst).Nodup) :
    (obj members).canonical = (obj members').canonical ↔
      ∀ key, (members.lookup key).map canonical = (members'.lookup key).map canonical := by
  have hcanonical : ∀ o : Option Json, o.map canonical = (o.map normalize).map compact := by
    intro o
    rw [Option.map_map]
    rfl
  constructor
  · intro h key
    rw [hcanonical, hcanonical,
      lookup_eq_of_normalize_eq (normalize_eq_of_canonical_eq h) hkeys hkeys' key]
  · intro h
    refine canonical_eq_iff.mpr ?_
    have heq : normalizeMembers members = normalizeMembers members' := by
      refine eq_of_lookup_eq (ascending_normalizeMembers members)
        (ascending_normalizeMembers members') fun key => ?_
      rw [lookup_normalizeMembers hkeys, lookup_normalizeMembers hkeys']
      have hkey := h key
      rw [hcanonical, hcanonical] at hkey
      exact Option.map_injective (fun _ _ => compact_inj) hkey
    rw [normalize, normalize, heq]

end Json

/-! ## Faithful forms -/

/-- The normal form of the JSON form tells the elements of a type apart, and none of them from
`null`. -/
structure Faithful (α : Type) [ToJson α] : Prop where
  inj : ∀ {a b : α}, (toJson a).normalize = (toJson b).normalize → a = b
  ne_null : ∀ a : α, toJson a ≠ .null

namespace Faithful

variable {α : Type} [ToJson α]

theorem normalize_ne_null (h : Faithful α) (a : α) : (toJson a).normalize ≠ .null := by
  have := h.ne_null a
  cases ha : toJson a with
  | null => exact absurd ha this
  | _ => exact nofun

theorem ofOption_inj (h : Faithful α) {a b : Option α}
    (heq : (Json.ofOption toJson a).normalize = (Json.ofOption toJson b).normalize) : a = b := by
  cases a with
  | none =>
      cases b with
      | none => rfl
      | some b => exact absurd heq.symm (h.normalize_ne_null b)
  | some a =>
      cases b with
      | none => exact absurd heq (h.normalize_ne_null a)
      | some b => rw [h.inj heq]

/-- The same for a member that is left out when there is no value. -/
theorem map_toJson_inj (h : Faithful α) {a b : Option α}
    (heq : (a.map toJson).map Json.normalize = (b.map toJson).map Json.normalize) : a = b := by
  cases a with
  | none =>
      cases b with
      | none => rfl
      | some b => exact nomatch heq
  | some a =>
      cases b with
      | none => exact nomatch heq
      | some b => rw [h.inj (Option.some.inj heq)]

/-- Objects of one normal form have the same element under a key. -/
theorem field_inj (h : Faithful α) {members members' : List (String × Json)}
    (heq : (Json.obj members).normalize = (Json.obj members').normalize)
    (hkeys : (members.map Prod.fst).Nodup) (hkeys' : (members'.map Prod.fst).Nodup)
    {key : String} {a b : α} (ha : members.lookup key = some (toJson a))
    (hb : members'.lookup key = some (toJson b)) : a = b := by
  have hfield := Json.lookup_eq_of_normalize_eq heq hkeys hkeys' key
  rw [ha, hb] at hfield
  exact h.inj (Option.some.inj hfield)

theorem map_inj (h : Faithful α) {xs ys : List α}
    (heq : xs.map (fun a => (toJson a).normalize) = ys.map fun a => (toJson a).normalize) :
    xs = ys := by
  induction xs generalizing ys with
  | nil =>
      cases ys with
      | nil => rfl
      | cons y ys => exact nomatch heq
  | cons x xs ih =>
      cases ys with
      | nil => exact nomatch heq
      | cons y ys =>
          obtain ⟨hxy, hrest⟩ := List.cons.inj heq
          rw [h.inj hxy, ih hrest]

end Faithful

/-! ## Digests -/

/-- The text that the digest of a value is taken of. -/
def textOf {α : Type} [ToJson α] (a : α) : String := (toJson a).canonical

/-- No two of the texts have one digest. -/
def CollisionFree (texts : List String) : Prop :=
  ∀ s ∈ texts, ∀ t ∈ texts, Digest.ofText s = Digest.ofText t → s = t

instance (texts : List String) : Decidable (CollisionFree texts) :=
  inferInstanceAs (Decidable (∀ s ∈ texts, ∀ t ∈ texts, _ → _))

theorem CollisionFree.mono {texts larger : List String} (hfree : CollisionFree larger)
    (h : texts ⊆ larger) : CollisionFree texts :=
  fun s hs t ht heq => hfree s (h hs) t (h ht) heq

/-- Texts do not collide if, each counted once, their digests have different first bytes. -/
theorem CollisionFree.of_nodup_head? {texts distinct : List String} (h : texts ⊆ distinct)
    (hheads : (distinct.map fun s => (Digest.ofText s).bytes.head?).Nodup) :
    CollisionFree texts := by
  intro s hs t ht heq
  exact List.inj_on_of_nodup_map hheads (h hs) (h ht) (congrArg (·.bytes.head?) heq)

/-- Without collisions, equal digests come from values of one normal form. -/
theorem CollisionFree.normalize_eq {texts : List String} (hfree : CollisionFree texts)
    {α β : Type} [ToJson α] [ToJson β] {a : α} {b : β} (ha : textOf a ∈ texts)
    (hb : textOf b ∈ texts) (h : digestOf a = digestOf b) :
    (toJson a).normalize = (toJson b).normalize :=
  Json.normalize_eq_of_canonical_eq (hfree _ ha _ hb h)

end WorkLedger
