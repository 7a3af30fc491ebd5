/-
# What a state root commits to

Contract storage lies outside the trie of accounts.  What binds it to the root of a state is the
stamp: every account carries the root of the storage under its key.  So as long as the texts of
these trees do not collide, states of one root hold the same accounts and, slot by slot, the
same storage.  Conversely a root depends on the accounts alone: it does not show in which order
they were stored, nor what was stored before.
-/
import WorkLedger.Proofs.Digest.Sponge
import WorkLedger.Proofs.Json.Records
import WorkLedger.Proofs.State.Reached
import WorkLedger.Proofs.Trie.Commitment

namespace WorkLedger.State

/-! ## The texts behind a root -/

/-- The texts that the roots of a state are digests of: that of the accounts, and those of the
storage under all keys. -/
def nodeTexts (s : State) : List String :=
  textOf s.accounts.node :: s.storage.toList.map fun entry => textOf entry.2.node

theorem mem_nodeTexts {s : State} {text : String} :
    text ∈ s.nodeTexts ↔ text = textOf s.accounts.node ∨
      ∃ key storage, s.storage? key = some storage ∧ text = textOf storage.node := by
  rw [nodeTexts, List.mem_cons, List.mem_map]
  refine or_congr_right ?_
  constructor
  · rintro ⟨⟨key, storage⟩, hentry, rfl⟩
    exact ⟨key, storage, Std.HashMap.mem_toList_iff_getElem?_eq_some.mp hentry, rfl⟩
  · rintro ⟨key, storage, hstorage, rfl⟩
    exact ⟨(key, storage), Std.HashMap.mem_toList_iff_getElem?_eq_some.mpr hstorage, rfl⟩

theorem textOf_accounts_mem (s : State) : textOf s.accounts.node ∈ s.nodeTexts :=
  mem_nodeTexts.mpr (.inl rfl)

/-! ## Roots and contents -/

theorem root_empty : State.empty.root = emptyRoot := rfl

variable {s t : State} {texts : List String}

/-- A root depends on the accounts alone. -/
theorem WellFormed.root_eq (hs : s.WellFormed) (ht : t.WellFormed)
    (h : ∀ key, s.account? key = t.account? key) : s.root = t.root := by
  have heq : s.accounts = t.accounts := hs.accounts.ext ht.accounts h
  unfold root
  rw [heq]

/-- States with the same accounts have the same root, and conversely if texts do not collide. -/
theorem WellFormed.root_eq_iff (hs : s.WellFormed) (ht : t.WellFormed)
    (hfree : CollisionFree texts) (htext : textOf s.accounts.node ∈ texts)
    (httext : textOf t.accounts.node ∈ texts) :
    s.root = t.root ↔ ∀ key, s.account? key = t.account? key := by
  refine ⟨fun hroot key => ?_, hs.root_eq ht⟩
  have heq : s.accounts = t.accounts :=
    hs.accounts.eq_of_root_eq faithful_account ht.accounts hfree htext httext hroot
  unfold account?
  rw [heq]

/-- Where two states hold the same account they hold the same storage, since both have stamped
the account with the root of theirs. -/
theorem WellFormed.storage?_eq_of_account?_eq (hs : s.WellFormed) (ht : t.WellFormed)
    (hfree : CollisionFree texts) (htexts : s.nodeTexts ⊆ texts) (httexts : t.nodeTexts ⊆ texts)
    {key : String} (h : s.account? key = t.account? key) : s.storage? key = t.storage? key := by
  have hstorage := hs.storage?_eq key
  have htstorage := ht.storage?_eq key
  cases ha : s.account? key with
  | none =>
      rw [hstorage, htstorage, ← h, ha]
      rfl
  | some a =>
      rw [ha, Option.map_some] at hstorage
      rw [← h, ha, Option.map_some] at htstorage
      have hstamp := (hs.keeps key a ha).storageRoot
      have htstamp := (ht.keeps key a (h ▸ ha)).storageRoot
      have hroot : (s.storageAt key).root = (t.storageAt key).root :=
        Option.some.inj (hstamp.symm.trans htstamp)
      have heq : s.storageAt key = t.storageAt key :=
        (hs.sound_storageAt key).eq_of_root_eq faithful_word (ht.sound_storageAt key) hfree
          (htexts (mem_nodeTexts.mpr (.inr ⟨key, _, hstorage, rfl⟩)))
          (httexts (mem_nodeTexts.mpr (.inr ⟨key, _, htstorage, rfl⟩))) hroot
      rw [hstorage, htstorage, heq]

/-- States that hold the same account and the same storage under every key. -/
def Agree (s t : State) : Prop :=
  ∀ key, s.account? key = t.account? key ∧ s.storage? key = t.storage? key

/-- The root tells the whole state, unless texts collide. -/
theorem WellFormed.agree_of_root_eq (hs : s.WellFormed) (ht : t.WellFormed)
    (hfree : CollisionFree texts) (htexts : s.nodeTexts ⊆ texts) (httexts : t.nodeTexts ⊆ texts)
    (hroot : s.root = t.root) : s.Agree t := by
  have haccounts := (hs.root_eq_iff ht hfree (htexts s.textOf_accounts_mem)
    (httexts t.textOf_accounts_mem)).mp hroot
  exact fun key =>
    ⟨haccounts key, hs.storage?_eq_of_account?_eq ht hfree htexts httexts (haccounts key)⟩

/-- Whatever transactions led to two states: if the roots are equal and no two of the texts
behind them collide, then under every key the account is the same, and so is the storage as a
whole; and if the accounts are the same, then the roots are equal. -/
theorem root_binds_afterAll (xs ys : List Transaction) :
    let s := afterAll xs
    let t := afterAll ys
    (CollisionFree (s.nodeTexts ++ t.nodeTexts) → s.root = t.root →
      (∀ key, s.account? key = t.account? key) ∧ ∀ key, s.storage? key = t.storage? key) ∧
    ((∀ key, s.account? key = t.account? key) → s.root = t.root) := by
  intro s t
  have hs : s.WellFormed := (reachable_afterAll xs).wellFormed
  have ht : t.WellFormed := (reachable_afterAll ys).wellFormed
  refine ⟨fun hfree hroot => ?_, hs.root_eq ht⟩
  have hagree : s.Agree t := hs.agree_of_root_eq ht hfree (List.subset_append_left _ _)
    (List.subset_append_right _ _) hroot
  exact ⟨fun key => (hagree key).1, fun key => (hagree key).2⟩

/-- Ada is paid once, the second time after a transfer that fails. -/
theorem root_binds_two_ways :
    let s := afterAll [.reward "ada" "first"]
    let t := afterAll [⟨"lost", "nobody", "ada", 1, 0, .transact, none⟩, .reward "ada" "second"]
    CollisionFree (s.nodeTexts ++ t.nodeTexts) ∧ s.root = t.root ∧
      ∀ key, s.storage? key = t.storage? key := by
  intro s t
  have hst : t = s := rfl
  have hwrites : State.empty.Writes "ada" (.new "ada" 50 []) .empty s :=
    storageAt_empty "ada" ▸ writes_putAccount .empty "ada" (.new "ada" 50 [])
  have htexts : ∀ text ∈ s.nodeTexts,
      text ∈ [textOf s.accounts.node, textOf (Trie.empty : Trie Word).node] := by
    intro text htext
    rcases mem_nodeTexts.mp htext with rfl | ⟨key, storage, hstorage, rfl⟩
    · simp
    · rw [hwrites.storage, storage?_empty] at hstorage
      split at hstorage
      · cases hstorage
        simp
      · exact nomatch hstorage
  have hfree : CollisionFree (s.nodeTexts ++ t.nodeTexts) := by
    rw [hst]
    refine CollisionFree.of_nodup_head? (List.append_subset.mpr ⟨htexts, htexts⟩) ?_
    have haccounts : (digestOf s.accounts.node).bytes.head? = some 0x97 := by
      rw [hwrites.accounts, digestOf_eq_digestOfBytes]
      show (Keccak.digestOfBytes _).bytes.head? = _
      decide +kernel
    have hstorage : (digestOf (Trie.empty : Trie Word).node).bytes.head? = some 0x8b := by
      rw [digestOf_eq_digestOfBytes]
      decide +kernel
    show [(digestOf s.accounts.node).bytes.head?,
      (digestOf (Trie.empty : Trie Word).node).bytes.head?].Nodup
    rw [haccounts, hstorage]
    decide
  exact ⟨hfree, rfl, ((root_binds_afterAll _ _).1 hfree rfl).2⟩

end WorkLedger.State
