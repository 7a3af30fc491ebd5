/-
# Tries of items

A trie of items holds each item under the digits of its digest and nothing else.  Without
collisions among the items it therefore depends on which items there are, and on nothing else:
neither on their order nor on how often they occur.
-/
import WorkLedger.Proofs.Text.Hex
import WorkLedger.Proofs.Trie.Puts

namespace WorkLedger.Trie

variable {α : Type} [ToJson α]

/-- Puts items under the digits of their digests. -/
def putAll (t : Trie α) (entries : List (Digest × α)) : Trie α :=
  entries.foldl (fun t e => t.put e.1.toHex e.2) t

theorem putAll_eq_putEach (t : Trie α) (entries : List (Digest × α)) :
    t.putAll entries = t.putEach (entries.map fun e => (e.1.toHex, e.2)) := by
  rw [putEach, List.foldl_map]
  rfl

theorem Sound.putAll {t : Trie α} (h : t.Sound) (entries : List (Digest × α)) :
    (t.putAll entries).Sound := by
  rw [putAll_eq_putEach]
  exact h.putEach _

/-- What is read under a key is one of the entries put there, or was there before. -/
theorem get?_putAll {t : Trie α} (h : t.Sound) (entries : List (Digest × α)) (key : String) :
    (∃ e ∈ entries, e.1.toHex = key ∧ (t.putAll entries).get? key = some e.2) ∨
      ((∀ e ∈ entries, e.1.toHex ≠ key) ∧ (t.putAll entries).get? key = t.get? key) := by
  rw [putAll_eq_putEach, get?_putEach h]
  cases hlast : lastPut? (entries.map fun e => (e.1.toHex, e.2)) key with
  | some v =>
      obtain ⟨e, he, hput⟩ := List.mem_map.mp (mem_of_lastPut? hlast)
      cases hput
      exact .inl ⟨e, he, rfl, rfl⟩
  | none =>
      refine .inr ⟨?_, rfl⟩
      intro e he hkey
      refine lastPut?_eq_none.mp hlast ?_
      rw [List.map_map]
      exact List.mem_map.mpr ⟨e, he, hkey⟩

/-- The items with their digests, in the order in which they are put. -/
def sortedItems (items : List α) : List (Digest × α) :=
  (items.map fun a => (digestOf a, a)).mergeSort fun a b => decide (a.1 ≤ b.1)

theorem ofItems_eq_putAll (items : List α) : ofItems items = empty.putAll (sortedItems items) := rfl

theorem ofItems_nil : (ofItems [] : Trie α) = empty := by
  rw [ofItems_eq_putAll, sortedItems, List.map_nil, List.mergeSort_nil]
  rfl

theorem ofItems_singleton (a : α) : ofItems [a] = empty.put (digestOf a).toHex a := by
  rw [ofItems_eq_putAll, sortedItems, List.map_singleton, List.mergeSort_singleton]
  rfl

theorem mem_sortedItems {items : List α} {e : Digest × α} :
    e ∈ sortedItems items ↔ e.2 ∈ items ∧ e.1 = digestOf e.2 := by
  rw [sortedItems, List.mem_mergeSort, List.mem_map]
  constructor
  · rintro ⟨a, ha, rfl⟩
    exact ⟨ha, rfl⟩
  · rintro ⟨ha, hdigest⟩
    exact ⟨e.2, ha, by rw [← hdigest]⟩

theorem sound_ofItems (items : List α) : (ofItems items).Sound := sound_empty.putAll _

/-- Whatever the trie holds is an item, under the digits of its digest. -/
theorem mem_of_get?_ofItems {items : List α} {key : String} {a : α}
    (h : (ofItems items).get? key = some a) : a ∈ items ∧ (digestOf a).toHex = key := by
  rw [ofItems_eq_putAll] at h
  rcases get?_putAll sound_empty (sortedItems items) key with ⟨e, he, hkey, hget⟩ | ⟨-, hget⟩
  · obtain ⟨hmem, hdigest⟩ := mem_sortedItems.mp he
    cases h.symm.trans hget
    exact ⟨hmem, hdigest ▸ hkey⟩
  · rw [hget, get?_empty] at h
    exact nomatch h

/-- No two items have one digest. -/
def Separated (items : List α) : Prop :=
  ∀ a ∈ items, ∀ b ∈ items, digestOf a = digestOf b → a = b

theorem separated_of_nodup {items : List α} (h : (items.map digestOf).Nodup) :
    Separated items := by
  induction items with
  | nil => exact nofun
  | cons x rest ih =>
      obtain ⟨hx, hrest⟩ := List.nodup_cons.mp h
      intro a ha b hb heq
      rcases List.mem_cons.mp ha with rfl | ha'
      · rcases List.mem_cons.mp hb with rfl | hb'
        · rfl
        · exact absurd (heq ▸ List.mem_map_of_mem hb') hx
      · rcases List.mem_cons.mp hb with rfl | hb'
        · exact absurd (heq ▸ List.mem_map_of_mem ha') hx
        · exact ih hrest a ha' b hb' heq

theorem separated_of_nodup_head? {items : List α}
    (h : (items.map fun a => (digestOf a).bytes.head?).Nodup) : Separated items := by
  have hdigests : ((items.map digestOf).map fun d => d.bytes.head?).Nodup := by
    rw [List.map_map]
    exact h
  refine separated_of_nodup (List.Pairwise.of_map (S := (· ≠ ·)) (fun d => d.bytes.head?) ?_ hdigests)
  exact fun _ _ hne heq => hne (by rw [heq])

theorem get?_ofItems {items : List α} (h : Separated items) {a : α} (ha : a ∈ items) :
    (ofItems items).get? (digestOf a).toHex = some a := by
  rw [ofItems_eq_putAll]
  rcases get?_putAll sound_empty (sortedItems items) (digestOf a).toHex with
    ⟨e, he, hkey, hget⟩ | ⟨hnone, -⟩
  · obtain ⟨hmem, hdigest⟩ := mem_sortedItems.mp he
    have heq : digestOf e.2 = digestOf a := hdigest ▸ Digest.toHex_inj hkey
    rw [hget, h e.2 hmem a ha heq]
  · exact absurd rfl (hnone (digestOf a, a) (mem_sortedItems.mpr ⟨ha, rfl⟩))

theorem mem_iff_get?_ofItems {items : List α} (h : Separated items) {a : α} :
    a ∈ items ↔ (ofItems items).get? (digestOf a).toHex = some a :=
  ⟨get?_ofItems h, fun hget => (mem_of_get?_ofItems hget).1⟩

/-- Sorting the items before they are put does not matter. -/
theorem ofItems_eq_ofPuts {items : List α} (h : Separated items) :
    ofItems items = ofPuts (items.map fun a => ((digestOf a).toHex, a)) := by
  refine (sound_ofItems items).ext (sound_ofPuts _) fun key => ?_
  rw [get?_ofPuts]
  cases hlast : lastPut? (items.map fun a => ((digestOf a).toHex, a)) key with
  | some a =>
      obtain ⟨_, ha, hput⟩ := List.mem_map.mp (mem_of_lastPut? hlast)
      cases hput
      exact get?_ofItems h ha
  | none =>
      cases hget : (ofItems items).get? key with
      | none => rfl
      | some a =>
          obtain ⟨ha, rfl⟩ := mem_of_get?_ofItems hget
          refine absurd ?_ (lastPut?_eq_none.mp hlast)
          rw [List.map_map]
          exact List.mem_map_of_mem ha

/-- The trie does not depend on the order of the items. -/
theorem ofItems_congr {xs ys : List α} (hxs : Separated xs) (hys : Separated ys)
    (h : ∀ a, a ∈ xs ↔ a ∈ ys) : ofItems xs = ofItems ys := by
  refine (sound_ofItems xs).ext (sound_ofItems ys) fun key => Option.ext fun a => ?_
  constructor
  · intro hget
    obtain ⟨hmem, rfl⟩ := mem_of_get?_ofItems hget
    exact get?_ofItems hys ((h a).mp hmem)
  · intro hget
    obtain ⟨hmem, rfl⟩ := mem_of_get?_ofItems hget
    exact get?_ofItems hxs ((h a).mpr hmem)

theorem ofItems_perm {xs ys : List α} (hxs : Separated xs) (h : xs.Perm ys) :
    ofItems xs = ofItems ys := by
  have hys : Separated ys := fun a ha b hb => hxs a (h.mem_iff.mpr ha) b (h.mem_iff.mpr hb)
  exact ofItems_congr hxs hys fun _ => h.mem_iff

/-- Items whose texts do not collide are separated. -/
theorem separated_of_collisionFree (hα : Faithful α) {items : List α} {texts : List String}
    (hfree : CollisionFree texts) (h : ∀ a ∈ items, textOf a ∈ texts) : Separated items :=
  fun a ha b hb heq => hα.inj (hfree.normalize_eq (h a ha) (h b hb) heq)

/-- Equal roots come from the same items, unless texts collide. -/
theorem mem_iff_of_root_eq (hα : Faithful α) {xs ys : List α} {texts : List String}
    (hfree : CollisionFree texts) (hx : ∀ a ∈ xs, textOf a ∈ texts) (hy : ∀ a ∈ ys, textOf a ∈ texts)
    (hxtext : textOf (ofItems xs).node ∈ texts) (hytext : textOf (ofItems ys).node ∈ texts)
    (hroot : (ofItems xs).root = (ofItems ys).root) (a : α) : a ∈ xs ↔ a ∈ ys := by
  have hxs := separated_of_collisionFree hα hfree hx
  have hys := separated_of_collisionFree hα hfree hy
  have heq : ofItems xs = ofItems ys :=
    (sound_ofItems xs).eq_of_root_eq hα (sound_ofItems ys) hfree hxtext hytext hroot
  rw [mem_iff_get?_ofItems hxs, heq, ← mem_iff_get?_ofItems hys]

end WorkLedger.Trie
