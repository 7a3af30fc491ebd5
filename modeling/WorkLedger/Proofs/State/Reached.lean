/-
# States that can be reached

A state is built by storing accounts and storage under keys, whatever they are.  Transactions
build states, and no others than well-formed ones: whatever is tried, and whether it succeeds
or fails, each account is that of its key, of its code and of its storage.
-/
import WorkLedger.Proofs.Transaction.Effect

namespace WorkLedger.State

/-! ## By writes -/

/-- The states that can be built at all: accounts and storage are put under any keys. -/
inductive Built : State → Prop
  | empty : Built .empty
  | putAccount {s : State} (key : String) (a : Account) : Built s → Built (s.putAccount key a)
  | setStorage {s : State} (key : String) (storage : Trie Word) :
      Built s → Built (s.setStorage key storage)

theorem Built.sound_accounts {s : State} (h : s.Built) : s.accounts.Sound := by
  induction h with
  | empty => exact Trie.sound_empty
  | putAccount key a _ ih => exact ih.put key _
  | setStorage _ _ _ ih => exact ih

/-- A transaction changes a state by such writes only. -/
theorem Built.run {s s' : State} {t : Transaction} (hs : s.Built) (h : t.run s = .ok s') :
    s'.Built := by
  cases hdata : t.data with
  | transact =>
      simp only [Transaction.run, hdata, Transaction.runTransact] at h
      obtain ⟨sender, -, h⟩ := bind_eq_ok.mp h
      obtain ⟨recipient, -, h⟩ := bind_eq_ok.mp h
      obtain ⟨⟨gasUsed, storage⟩, -, h⟩ := bind_eq_ok.mp h
      obtain ⟨-, h⟩ := check_eq_ok.mp h
      cases pure_eq_ok.mp h
      cases storage with
      | none => exact .putAccount _ _ (.putAccount _ _ hs)
      | some left => exact .putAccount _ _ (.setStorage _ _ (.putAccount _ _ hs))
  | createAccount fields =>
      obtain ⟨a, -, rfl⟩ := (Transaction.run_createAccount_eq_ok hdata).mp h
      exact .putAccount _ _ hs
  | miningReward =>
      obtain ⟨-, rfl⟩ := (Transaction.run_reward_eq_ok hdata).mp h
      exact .putAccount _ _ hs

theorem Reachable.built {s : State} (h : s.Reachable) : s.Built := by
  induction h with
  | empty => exact .empty
  | run _ hrun ih => exact ih.run hrun

/-! ## By transactions -/

theorem Reachable.runSeries {series : List Transaction} {s s' : State} (hs : s.Reachable)
    (h : Transaction.runSeries series s = .ok s') : s'.Reachable := by
  induction series generalizing s with
  | nil =>
      cases h
      exact hs
  | cons t rest ih =>
      obtain ⟨next, hrun, h⟩ := Transaction.runSeries_cons_eq_ok.mp h
      exact ih (hs.run hrun) h

/-- The state after a transaction was tried; one that fails changes nothing. -/
def after (s : State) (t : Transaction) : State :=
  match t.run s with
  | .ok s' => s'
  | .error _ => s

/-- The state after transactions were tried one after another, from the empty state on. -/
def afterAll (series : List Transaction) : State := series.foldl after .empty

theorem Reachable.after {s : State} (h : s.Reachable) (t : Transaction) :
    (s.after t).Reachable := by
  unfold State.after
  split
  · rename_i hrun
    exact h.run hrun
  · exact h

theorem reachable_afterAll (series : List Transaction) : (afterAll series).Reachable := by
  suffices h : ∀ s : State, s.Reachable → (series.foldl State.after s).Reachable from h _ .empty
  induction series with
  | nil => exact fun s hs => hs
  | cons t rest ih => exact fun s hs => ih _ (hs.after t)

theorem isSome_codeHashOf {address : String} {code : List Word} :
    (Account.codeHashOf address code).isSome = true ↔ code ≠ [] := by
  cases code with
  | nil => exact ⟨nofun, fun h => absurd rfl h⟩
  | cons w rest => exact ⟨fun _ => nofun, fun _ => rfl⟩

/-- Whatever transactions were tried, accounts and storage exist under the same keys; an account
lies under its own key, with the hash of its code and the root of its storage; roots are the
digests of their trees, and without code there is no storage. -/
theorem keeps_afterAll (series : List Transaction) :
    let s := afterAll series
    s.accounts.root = digestOf s.accounts.node ∧
    ∀ key, ((s.account? key).isSome = true ↔ (s.storage? key).isSome = true) ∧
      ∀ a, s.account? key = some a → ∃ storage, s.storage? key = some storage ∧
        a.storageKey = key ∧
        a.codeHash = Account.codeHashOf a.address a.code ∧
        (a.codeHash.isSome = true ↔ a.code ≠ []) ∧
        a.storageRoot = some storage.root ∧
        storage.root = digestOf storage.node ∧
        (a.code = [] → storage = .empty) := by
  intro s
  have hs : s.WellFormed := (reachable_afterAll series).wellFormed
  refine ⟨hs.accounts.root, fun key => ⟨by rw [hs.isSome], fun a ha => ?_⟩⟩
  have hkeeps := hs.keeps key a ha
  have hstorage : s.storage? key = some (s.storageAt key) := by
    rw [hs.storage?_eq, ha]
    rfl
  refine ⟨s.storageAt key, hstorage, hkeeps.storageKey, hkeeps.codeHash, ?_, hkeeps.storageRoot,
    (hs.sound_storageAt key).root, hkeeps.storage⟩
  rw [hkeeps.codeHash]
  exact isSome_codeHashOf

end WorkLedger.State
