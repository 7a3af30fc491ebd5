/-
# Which series have one root

The transactions root is taken of a trie that holds each transaction under its digest.  So it
tells which transactions a series has, but neither in which order nor how often.  A repeated
transaction is the one change that the root does not show, and a repeated transaction repeats its
identifier: among series with distinct identifiers the root tells the series up to order.
-/
import WorkLedger.Proofs.Block.Commitment

namespace WorkLedger

namespace Trie

variable {α : Type} [ToJson α] {xs ys : List α}

/-! ## Items and roots -/

/-- Tries of items have one root exactly if they hold the same items.  The texts of items have to
be told apart from each other, and the texts of the two trees. -/
theorem root_ofItems_eq_iff (hα : Faithful α) (hitems : CollisionFree ((xs ++ ys).map textOf))
    (htrees : CollisionFree [textOf (ofItems xs).node, textOf (ofItems ys).node]) :
    (ofItems xs).root = (ofItems ys).root ↔ ∀ a, a ∈ xs ↔ a ∈ ys := by
  have hxs : Separated xs := separated_of_collisionFree hα hitems fun _ ha =>
    List.mem_map_of_mem (List.mem_append_left ys ha)
  have hys : Separated ys := separated_of_collisionFree hα hitems fun _ ha =>
    List.mem_map_of_mem (List.mem_append_right xs ha)
  constructor
  · intro hroot a
    have heq : ofItems xs = ofItems ys :=
      (sound_ofItems xs).eq_of_root_eq hα (sound_ofItems ys) htrees (by simp) (by simp) hroot
    rw [mem_iff_get?_ofItems hxs, heq, ← mem_iff_get?_ofItems hys]
  · intro h
    rw [ofItems_congr hxs hys h]

/-- Nothing is found under the digest of what is no item. -/
theorem get?_ofItems_eq_none (hα : Faithful α) {a : α} (ha : a ∉ xs)
    (hfree : CollisionFree ((a :: xs).map textOf)) :
    (ofItems xs).get? (digestOf a).toHex = none := by
  cases hget : (ofItems xs).get? (digestOf a).toHex with
  | none => rfl
  | some b =>
      obtain ⟨hb, hkey⟩ := mem_of_get?_ofItems hget
      have hseparated : Separated (a :: xs) := separated_of_collisionFree hα hfree fun _ hc =>
        List.mem_map_of_mem hc
      have hba : b = a := hseparated b (List.mem_cons_of_mem a hb) a List.mem_cons_self
        (Digest.toHex_inj hkey)
      exact absurd (hba ▸ hb) ha

end Trie

/-! ## Series with distinct identifiers -/

section Series

variable {xs ys : List Transaction}

/-- A series of the same transactions has each of them at least once; what it has besides are
copies. -/
theorem exists_perm_append_copies (hids : (xs.map (·.id)).Nodup) (h : ∀ t, t ∈ xs ↔ t ∈ ys) :
    ∃ copies, ys.Perm (xs ++ copies) ∧ copies ⊆ xs := by
  obtain ⟨first, hfirst, hsublist⟩ :=
    List.subperm_of_subset (hids.of_map _) fun t ht => (h t).mp ht
  obtain ⟨copies, hperm⟩ := hsublist.exists_perm_append
  refine ⟨copies, hperm.trans (hfirst.append_right copies), ?_⟩
  intro t ht
  exact (h t).mpr (hperm.mem_iff.mpr (List.mem_append_right first ht))

/-- A copy repeats an identifier. -/
theorem nodup_ids_append_copies {copies : List Transaction} (hcopies : copies ⊆ xs)
    (hids : ((xs ++ copies).map (·.id)).Nodup) : copies = [] := by
  cases copies with
  | nil => rfl
  | cons t rest =>
      rw [List.map_append, List.nodup_append] at hids
      obtain ⟨-, -, hapart⟩ := hids
      have ht : t ∈ xs := hcopies List.mem_cons_self
      exact absurd rfl (hapart _ (List.mem_map_of_mem ht) _ (List.mem_map_of_mem List.mem_cons_self))

/-- As long as no texts collide, two series have one root exactly if they have the same
transactions, in any order and any number; and the trie gives each transaction of its series under
its digest, and nothing under that of another one.  If the transactions of a block have distinct
identifiers, then a series that keeps the root in its header has the same transactions in another
order, or it has copies of some besides and identifiers that are no longer distinct. -/
theorem transactionsRoot_tells_series (hitems : CollisionFree ((xs ++ ys).map textOf))
    (htrees : CollisionFree [textOf (Trie.ofItems xs).node, textOf (Trie.ofItems ys).node]) :
    (transactionsRoot xs = transactionsRoot ys ↔ ∀ t, t ∈ xs ↔ t ∈ ys) ∧
    (∀ t ∈ xs, (Trie.ofItems xs).get? (digestOf t).toHex = some t) ∧
    (∀ t, t ∉ xs → CollisionFree ((t :: xs).map textOf) →
      (Trie.ofItems xs).get? (digestOf t).toHex = none) ∧
    ∀ b : Block, b.transactions = xs → b.ids.Nodup →
      b.header.transactionsRoot = transactionsRoot xs →
      let changed : Block := { b with transactions := ys }
      changed.header.transactionsRoot = transactionsRoot ys →
        (changed.ids.Nodup → ys.Perm xs) ∧
        (¬changed.ids.Nodup → ∃ copies, copies ≠ [] ∧ copies ⊆ xs ∧ ys.Perm (xs ++ copies)) := by
  have hroot : transactionsRoot xs = transactionsRoot ys ↔ ∀ t, t ∈ xs ↔ t ∈ ys :=
    Trie.root_ofItems_eq_iff faithful_transaction hitems htrees
  have hxs : Trie.Separated xs :=
    Trie.separated_of_collisionFree faithful_transaction hitems fun _ ht =>
      List.mem_map_of_mem (List.mem_append_left ys ht)
  refine ⟨hroot, ?found, ?absent, ?block⟩
  case found =>
    intro t ht
    exact Trie.get?_ofItems hxs ht
  case absent =>
    intro t ht hfree
    exact Trie.get?_ofItems_eq_none faithful_transaction ht hfree
  case block =>
    rintro b rfl hids hb changed hchanged
    have hsame : ∀ t, t ∈ b.transactions ↔ t ∈ ys := hroot.mp (hb.symm.trans hchanged)
    obtain ⟨copies, hperm, hcopies⟩ := exists_perm_append_copies hids hsame
    have hnodup : changed.ids.Nodup ↔ ((b.transactions ++ copies).map (·.id)).Nodup :=
      (hperm.map Transaction.id).nodup_iff
    constructor
    · intro hdistinct
      have hnone : copies = [] := nodup_ids_append_copies hcopies (hnodup.mp hdistinct)
      rwa [hnone, List.append_nil] at hperm
    · intro hrepeats
      refine ⟨copies, ?_, hcopies, hperm⟩
      rintro rfl
      rw [List.append_nil] at hnodup
      exact hrepeats (hnodup.mpr hids)

open Block in
/-- Two publications, and the same in the other order with one of them twice: the second block
keeps the root of the first one, and repeats an identifier. -/
theorem transactionsRoot_of_repeated_publication :
    let xs := [publication "ada", publication "bea"]
    let ys := [publication "bea", publication "ada", publication "bea"]
    let b : Block := { genesis with
      header := { genesis.header with transactionsRoot := transactionsRoot xs }
      transactions := xs }
    CollisionFree ((xs ++ ys).map textOf) ∧
      CollisionFree [textOf (Trie.ofItems xs).node, textOf (Trie.ofItems ys).node] ∧
      b.header.transactionsRoot = transactionsRoot ys ∧
      (Trie.ofItems xs).get? (digestOf (publication "ada")).toHex = some (publication "ada") ∧
      ∃ copies, copies ≠ [] ∧ copies ⊆ xs ∧ ys.Perm (xs ++ copies) := by
  intro xs ys b
  have hsame : ∀ t, t ∈ xs ↔ t ∈ ys := by
    intro t
    simp only [xs, ys, List.mem_cons, List.not_mem_nil, or_false]
    tauto
  have hdistinctTexts : (xs ++ ys).map textOf ⊆ xs.map textOf := by
    rw [List.map_append]
    exact List.append_subset.mpr
      ⟨List.Subset.refl _, List.map_subset _ fun t ht => (hsame t).mpr ht⟩
  have hitems : CollisionFree ((xs ++ ys).map textOf) := by
    refine CollisionFree.of_nodup_head? hdistinctTexts ?_
    show [(digestOf (publication "ada")).bytes.head?,
      (digestOf (publication "bea")).bytes.head?].Nodup
    rw [head?_digestOf_publications.1, head?_digestOf_publications.2]
    decide
  have hseparated : ∀ zs : List Transaction, zs ⊆ xs ++ ys → Trie.Separated zs := fun zs hzs =>
    Trie.separated_of_collisionFree faithful_transaction hitems fun _ ht =>
      List.mem_map_of_mem (hzs ht)
  have htries : Trie.ofItems xs = Trie.ofItems ys :=
    Trie.ofItems_congr (hseparated xs (List.subset_append_left xs ys))
      (hseparated ys (List.subset_append_right xs ys)) hsame
  have htrees : CollisionFree [textOf (Trie.ofItems xs).node, textOf (Trie.ofItems ys).node] := by
    rw [htries]
    simp [CollisionFree]
  obtain ⟨hroot, hfound, -, hblock⟩ := transactionsRoot_tells_series hitems htrees
  have hkept : b.header.transactionsRoot = transactionsRoot ys := hroot.mpr hsame
  have hrepeats : ¬(ys.map (·.id)).Nodup := by decide
  have hdistinct : b.ids.Nodup := by decide
  exact ⟨hitems, htrees, hkept, hfound _ List.mem_cons_self,
    (hblock b rfl hdistinct rfl hkept).2 hrepeats⟩

end Series

end WorkLedger
