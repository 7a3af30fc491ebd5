/-
# Well-formed states

What holds of every state that transactions lead to.  An account is stored exactly where
storage has been created; it is stored under its own key, with the hash of its code and with
the root that its storage has; and storage without code is empty.

A state changes by `Writes` only: one account is stored, together with the storage under its
key.  `WellFormed.write` says when that keeps a state well formed.
-/
import WorkLedger.Proofs.Trie.Map
import WorkLedger.State

namespace WorkLedger

/-- The account with the root of a storage. -/
def Account.stampedWith (a : Account) (storage : Trie Word) : Account :=
  { a with storageRoot := some storage.root }

namespace State

/-! ## Writing to a state -/

/-- An account and storage are put under a key. -/
structure Writes (s : State) (key : String) (a : Account) (storage : Trie Word) (s' : State) :
    Prop where
  accounts : s'.accounts = s.accounts.put key (a.stampedWith storage)
  storage : ∀ k, s'.storage? k = if k = key then some storage else s.storage? k

theorem storage?_insert (s : State) (key : String) (storage : Trie Word) (k : String) :
    (s.storage.insert key storage)[k]? = if k = key then some storage else s.storage? k := by
  rw [Std.HashMap.getElem?_insert]
  simp only [beq_iff_eq, eq_comm (a := key)]
  rfl

theorem writes_putAccount (s : State) (key : String) (a : Account) :
    s.Writes key a (s.storageAt key) (s.putAccount key a) :=
  ⟨rfl, storage?_insert s key _⟩

theorem writes_setStorage_putAccount (s : State) (key : String) (a : Account)
    (storage : Trie Word) :
    s.Writes key a storage ((s.setStorage key storage).putAccount key a) := by
  have hat : (s.setStorage key storage).storageAt key = storage := by
    unfold storageAt
    rw [show (s.setStorage key storage).storage? key = _ from storage?_insert s key storage key,
      if_pos rfl]
    rfl
  have h := (s.setStorage key storage).writes_putAccount key a
  rw [hat] at h
  refine ⟨h.accounts, fun k => ?_⟩
  rw [h.storage,
    show (s.setStorage key storage).storage? k = _ from storage?_insert s key storage k]
  split <;> rfl

/-! ## The invariant -/

/-- What holds of an account and the storage under the same key. -/
structure Keeps (key : String) (a : Account) (storage : Trie Word) : Prop where
  storageKey : a.storageKey = key
  codeHash : a.codeHash = Account.codeHashOf a.address a.code
  storageRoot : a.storageRoot = some storage.root
  /-- Only contracts have written storage. -/
  storage : a.code = [] → storage = .empty

/-- What holds of every state that transactions lead to. -/
structure WellFormed (s : State) : Prop where
  accounts : s.accounts.Sound
  storage : ∀ key trie, s.storage? key = some trie → trie.Sound
  isSome : ∀ key, (s.account? key).isSome = (s.storage? key).isSome
  keeps : ∀ key a, s.account? key = some a → Keeps key a (s.storageAt key)

theorem account?_empty (key : String) : State.empty.account? key = none := Trie.get?_empty key

theorem storage?_empty (key : String) : State.empty.storage? key = none :=
  Std.HashMap.getElem?_empty

theorem storageAt_empty (key : String) : State.empty.storageAt key = .empty := by
  unfold storageAt
  rw [storage?_empty]
  rfl

theorem wellFormed_empty : State.empty.WellFormed where
  accounts := Trie.sound_empty
  storage := by
    intro key trie h
    rw [storage?_empty] at h
    exact nomatch h
  isSome := by
    intro key
    rw [account?_empty, storage?_empty]
    rfl
  keeps := by
    intro key a h
    rw [account?_empty] at h
    exact nomatch h

variable {s s' : State} {key : String} {a : Account} {storage : Trie Word}

theorem Writes.sound_accounts (h : s.Writes key a storage s') (hs : s.accounts.Sound) :
    s'.accounts.Sound :=
  h.accounts ▸ hs.put key _

theorem Writes.account? (h : s.Writes key a storage s') (hs : s.accounts.Sound) (k : String) :
    s'.account? k = if k = key then some (a.stampedWith storage) else s.account? k := by
  unfold State.account?
  rw [h.accounts, Trie.get?_put hs]

theorem Writes.storageAt (h : s.Writes key a storage s') (k : String) :
    s'.storageAt k = if k = key then storage else s.storageAt k := by
  unfold State.storageAt
  rw [h.storage]
  split <;> rfl

/-- A write that puts the storage back leaves all storage alone. -/
theorem Writes.storageAt_eq (h : s.Writes key a (s.storageAt key) s') (k : String) :
    s'.storageAt k = s.storageAt k := by
  rw [h.storageAt]
  split
  · rename_i heq
    rw [heq]
  · rfl

/-- Storing an account that keeps the invariant keeps it everywhere. -/
theorem WellFormed.write (hs : s.WellFormed) (h : s.Writes key a storage s')
    (hstorage : storage.Sound) (ha : Keeps key (a.stampedWith storage) storage) :
    s'.WellFormed where
  accounts := h.sound_accounts hs.accounts
  storage := by
    intro k trie hk
    rw [h.storage] at hk
    split at hk
    · cases hk
      exact hstorage
    · exact hs.storage k trie hk
  isSome := by
    intro k
    rw [h.account? hs.accounts, h.storage]
    split
    · rfl
    · exact hs.isSome k
  keeps := by
    intro k b hk
    rw [h.account? hs.accounts] at hk
    rw [h.storageAt]
    split at hk
    · rename_i heq
      cases hk
      rw [if_pos heq, heq]
      exact ha
    · rename_i hne
      rw [if_neg hne]
      exact hs.keeps k b hk

theorem WellFormed.sound_storageAt (hs : s.WellFormed) (key : String) :
    (s.storageAt key).Sound := by
  unfold State.storageAt
  cases h : s.storage? key with
  | none => exact Trie.sound_empty
  | some trie => exact hs.storage key trie h

/-- Storage is there exactly where an account is. -/
theorem WellFormed.storage?_eq (hs : s.WellFormed) (key : String) :
    s.storage? key = (s.account? key).map fun _ => s.storageAt key := by
  have h := hs.isSome key
  unfold State.storageAt
  cases ha : s.account? key with
  | none =>
      rw [ha] at h
      exact Option.isNone_iff_eq_none.mp (by simpa using h.symm)
  | some a =>
      rw [ha] at h
      obtain ⟨trie, htrie⟩ := Option.isSome_iff_exists.mp h.symm
      rw [htrie]
      rfl

theorem WellFormed.storageAt_of_none (hs : s.WellFormed) (h : s.account? key = none) :
    s.storageAt key = .empty := by
  unfold State.storageAt
  rw [hs.storage?_eq, h]
  rfl

theorem WellFormed.stampedWith_storageAt (hs : s.WellFormed) (h : s.account? key = some a) :
    a.stampedWith (s.storageAt key) = a := by
  have hroot := (hs.keeps key a h).storageRoot
  cases a
  cases hroot
  rfl

end State

end WorkLedger
