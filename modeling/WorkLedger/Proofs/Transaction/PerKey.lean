/-
# What a series does under one key

Under one key a state holds three things: who is there (an account without its balance), the
balance, and the storage.  A transaction changes each of them in a way that hardly depends on
the rest of the state, and a series adds up these changes.  Only the gas depends on when a
transaction runs, because code may ask what is in its storage: what a key pays for gas, and
what it earns, is added up along the run.

All amounts are 64-bit numbers that wrap around, so that debits and credits can be taken in
any order.
-/
import Mathlib.Data.UInt
import WorkLedger.Proofs.Transaction.Effect

namespace WorkLedger

/-- An account without what changes in it. -/
def Account.bare (a : Account) : Account := { a with balance := 0, storageRoot := none }

namespace State

/-- Who is there under a key. -/
def bareAt (s : State) (key : String) : Option Account := (s.account? key).map (·.bare)

/-- The balance under a key, zero if there is no account. -/
def balanceAt (s : State) (key : String) : UInt64 := (s.balance? key).getD 0

/-- The code under a key. -/
def codeAt (s : State) (key : String) : List Word := ((s.bareAt key).map (·.code)).getD []

variable {s s' : State} {key : String} {a : Account}

theorem bareAt_of_account? (h : s.account? key = some a) : s.bareAt key = some a.bare := by
  rw [bareAt, h]
  rfl

theorem bareAt_eq_none : s.bareAt key = none ↔ s.account? key = none := Option.map_eq_none_iff

theorem balanceAt_of_account? (h : s.account? key = some a) : s.balanceAt key = a.balance := by
  rw [balanceAt, balance?, h]
  rfl

theorem balanceAt_of_none (h : s.account? key = none) : s.balanceAt key = 0 := by
  rw [balanceAt, balance?, h]
  rfl

theorem codeAt_of_account? (h : s.account? key = some a) : s.codeAt key = a.code := by
  rw [codeAt, bareAt_of_account? h]
  rfl

/-- The three together are the account under the key. -/
theorem WellFormed.account?_eq (hs : s.WellFormed) (key : String) :
    s.account? key = (s.bareAt key).map fun a =>
      { a with balance := s.balanceAt key, storageRoot := some (s.storageAt key).root } := by
  cases ha : s.account? key with
  | none =>
      rw [bareAt_eq_none.mpr ha]
      rfl
  | some a =>
      rw [bareAt_of_account? ha, balanceAt_of_account? ha]
      have hroot := (hs.keeps key a ha).storageRoot
      cases a
      cases hroot
      rfl

theorem Writes.bareAt {storage : Trie Word} (h : s.Writes key a storage s')
    (hs : s.accounts.Sound) (k : String) :
    s'.bareAt k = if k = key then some a.bare else s.bareAt k := by
  unfold State.bareAt
  rw [h.account? hs]
  split <;> rfl

/-- A write of who is there already, with whatever balance, changes nobody. -/
theorem Writes.bareAt_eq {storage : Trie Word} {balance : UInt64}
    (h : s.Writes key { a with balance := balance } storage s') (hs : s.accounts.Sound)
    (ha : s.bareAt key = some a.bare) (k : String) : s'.bareAt k = s.bareAt k := by
  rw [h.bareAt hs]
  split
  · rename_i heq
    rw [heq, ha]
    rfl
  · rfl

theorem Writes.balanceAt {storage : Trie Word} (h : s.Writes key a storage s')
    (hs : s.accounts.Sound) (k : String) :
    s'.balanceAt k = if k = key then a.balance else s.balanceAt k := by
  unfold State.balanceAt State.balance?
  rw [h.account? hs]
  split <;> rfl

end State

/-! ## States that agree -/

namespace State

/-- The account and the storage under a key are the same. -/
structure AgreeAt (key : String) (s t : State) : Prop where
  account? : s.account? key = t.account? key
  storage? : s.storage? key = t.storage? key

variable {s t u : State} {key : String}

namespace AgreeAt

theorem symm (h : AgreeAt key s t) : AgreeAt key t s := ⟨h.account?.symm, h.storage?.symm⟩

theorem trans (h : AgreeAt key s t) (h' : AgreeAt key t u) : AgreeAt key s u :=
  ⟨h.account?.trans h'.account?, h.storage?.trans h'.storage?⟩

theorem bareAt (h : AgreeAt key s t) : s.bareAt key = t.bareAt key :=
  congrArg (Option.map _) h.account?

theorem balanceAt (h : AgreeAt key s t) : s.balanceAt key = t.balanceAt key := by
  unfold State.balanceAt State.balance?
  rw [h.account?]

theorem codeAt (h : AgreeAt key s t) : s.codeAt key = t.codeAt key := by
  unfold State.codeAt
  rw [h.bareAt]

theorem storageAt (h : AgreeAt key s t) : s.storageAt key = t.storageAt key := by
  unfold State.storageAt
  rw [h.storage?]

end AgreeAt

/-- Who is there, the balance and the storage are all there is to a key. -/
theorem WellFormed.agreeAt (hs : s.WellFormed) (ht : t.WellFormed)
    (hbare : s.bareAt key = t.bareAt key) (hbalance : s.balanceAt key = t.balanceAt key)
    (hstorage : s.storageAt key = t.storageAt key) : AgreeAt key s t := by
  have haccount : s.account? key = t.account? key := by
    rw [hs.account?_eq, ht.account?_eq, hbare, hbalance, hstorage]
  refine ⟨haccount, ?_⟩
  rw [hs.storage?_eq, ht.storage?_eq, haccount, hstorage]

theorem WellFormed.accounts_eq (hs : s.WellFormed) (ht : t.WellFormed)
    (hagree : ∀ key, AgreeAt key s t) : s.accounts = t.accounts :=
  hs.accounts.ext ht.accounts fun key => (hagree key).account?

end State

/-! ## Calls -/

/-- The storage after code has run on it. -/
def storageAfter (code : List Word) (storage : Trie Word) : Trie Word :=
  if code.isEmpty then storage else (runOnTrie code storage).2

/-- The gas that code uses on a storage. -/
def gasOn (code : List Word) (storage : Trie Word) : UInt64 :=
  if code.isEmpty then 0
  else
    match (runOnTrie code storage).1 with
    | .ok outcome => outcome.gasUsed
    | .error _ => 0

/-- The storage after a number of calls. -/
def storageAfterCalls (code : List Word) : Nat → Trie Word → Trie Word
  | 0, storage => storage
  | n + 1, storage => storageAfterCalls code n (storageAfter code storage)

/-- The gas of a number of calls, each on the storage that the one before has left. -/
def gasOfCalls (code : List Word) : Nat → Trie Word → UInt64
  | 0, _ => 0
  | n + 1, storage => gasOn code storage + gasOfCalls code n (storageAfter code storage)

namespace Transaction

variable {t : Transaction} {s s' : State} {key : String}

/-- Whether it is a transfer to a key. -/
def calls (t : Transaction) (key : String) : Bool := t.data = .transact ∧ t.recipient = key

/-- The gas that a transaction uses on a state. -/
def gasUsed (t : Transaction) (s : State) : UInt64 :=
  match t.data with
  | .transact => gasOn (s.codeAt t.recipient) (s.storageAt t.recipient)
  | _ => 0

/-- What a key pays for gas in a series. -/
def gasPaid (key : String) : List Transaction → State → UInt64
  | [], _ => 0
  | t :: rest, s =>
      match t.run s with
      | .ok next => (if key = t.sender then t.gasUsed s else 0) + gasPaid key rest next
      | .error _ => 0

/-- Only transfers cost gas. -/
theorem gasPaid_eq_zero {series : List Transaction} (h : ∀ t ∈ series, t.data ≠ .transact) :
    gasPaid key series s = 0 := by
  induction series generalizing s with
  | nil => rfl
  | cons t rest ih =>
      have hfree : t.gasUsed s = 0 := by
        unfold gasUsed
        split
        · rename_i hdata
          exact absurd hdata (h t List.mem_cons_self)
        · rfl
      unfold gasPaid
      split
      · rw [hfree, ite_self, UInt64.zero_add]
        exact ih fun t ht => h t (List.mem_cons_of_mem _ ht)
      · rfl

/-- What a key earns for gas in a series. -/
def gasEarned (key : String) : List Transaction → State → UInt64
  | [], _ => 0
  | t :: rest, s =>
      match t.run s with
      | .ok next => (if key = t.recipient then t.gasUsed s else 0) + gasEarned key rest next
      | .error _ => 0

/-- Who is there under a key after the transaction, if nobody was before. -/
def founds (t : Transaction) (key : String) : Option Account :=
  match t.data with
  | .transact => none
  | .createAccount _ =>
      match t.accountSnapshot with
      | .ok a => if key = a.storageKey then some a.bare else none
      | .error _ => none
  | .miningReward => if key = t.recipient then some (.new key 0 []) else none

/-- The change of the balance under a key, but for gas. -/
def change (t : Transaction) (key : String) : UInt64 :=
  match t.data with
  | .transact =>
      (if key = t.recipient then t.value else 0) - (if key = t.sender then t.value else 0)
  | .createAccount _ =>
      match t.accountSnapshot with
      | .ok a => if key = a.storageKey then a.balance else 0
      | .error _ => 0
  | .miningReward => if key = t.recipient then t.value else 0

/-! ## One transaction -/

/-- A transfer to a key runs the code there. -/
theorem gasOn_of_call {recipient : Account} {gasUsed : UInt64} {storage : Option (Trie Word)}
    (hrecipient : s.account? t.recipient = some recipient)
    (hcall : t.call s recipient = .ok (gasUsed, storage)) :
    gasUsed = gasOn (s.codeAt t.recipient) (s.storageAt t.recipient) ∧
      storage.getD (s.storageAt t.recipient) =
        storageAfter (s.codeAt t.recipient) (s.storageAt t.recipient) := by
  rw [State.codeAt_of_account? hrecipient]
  unfold gasOn storageAfter
  rcases code_of_call hcall with ⟨hcode, rfl, hleft⟩ | ⟨hcode, result, hrun⟩
  · rw [hcode]
    exact ⟨rfl, hleft⟩
  · have hsome : recipient.code.isEmpty = false := by simpa using hcode
    rw [hsome, hrun]
    exact ⟨rfl, rfl⟩

/-- The gas of a call that ends in time is that of the code on the storage it finds. -/
theorem gasUsed_of_call {recipient : Account} {gasUsed : UInt64} {storage : Option (Trie Word)}
    (hdata : t.data = .transact) (hpayee : t.payee s = .ok recipient)
    (hcall : t.call s recipient = .ok (gasUsed, storage)) : t.gasUsed s = gasUsed := by
  rw [(gasOn_of_call (payee_eq_ok.mp hpayee) hcall).1]
  simp only [Transaction.gasUsed, hdata]

/-- The recipient as it is read again after the debit: nobody else, and with a smaller balance
only if it is the sender. -/
theorem exists_reread {sender recipient : Account} {amount : UInt64} {storage : Trie Word}
    {debited : State} (hs : s.accounts.Sound) (hsender : s.account? t.sender = some sender)
    (hrecipient : s.account? t.recipient = some recipient)
    (hdebit : s.Writes t.sender { sender with balance := sender.balance - amount } storage debited) :
    ∃ a, debited.account? t.recipient = some a ∧ a.bare = recipient.bare ∧
      a.balance = recipient.balance - if t.recipient = t.sender then amount else 0 := by
  have hreread := hdebit.account? hs t.recipient
  by_cases hself : t.recipient = t.sender
  · rw [if_pos hself] at hreread
    rw [hself, hsender] at hrecipient
    cases hrecipient
    exact ⟨_, hreread, rfl, by rw [if_pos hself]; rfl⟩
  · rw [if_neg hself, hrecipient] at hreread
    exact ⟨recipient, hreread, rfl, by rw [if_neg hself, UInt64.sub_zero]⟩

theorem balance_rewarded (t : Transaction) (s : State) :
    (t.rewarded s).balance = s.balanceAt t.recipient := by
  cases ha : s.account? t.recipient with
  | none =>
      rw [rewarded_of_none ha, State.balanceAt_of_none ha]
      rfl
  | some a => rw [rewarded_of_account? ha, State.balanceAt_of_account? ha]

theorem bareAt_run (hs : s.accounts.Sound) (h : t.run s = .ok s') (key : String) :
    s'.bareAt key = (s.bareAt key).or (t.founds key) := by
  cases hdata : t.data with
  | transact =>
      obtain ⟨sender, recipient, _, _, debited, hpayer, hpayee, -, -, hdebit, hcredit⟩ :=
        writes_of_run_transact hdata h
      have hsender := (payer_eq_ok.mp hpayer).1
      obtain ⟨reread, hreread, -⟩ := exists_reread hs hsender (payee_eq_ok.mp hpayee) hdebit
      rw [hreread, Option.getD_some] at hcredit
      rw [hcredit.bareAt_eq (hdebit.sound_accounts hs) (State.bareAt_of_account? hreread),
        hdebit.bareAt_eq hs (State.bareAt_of_account? hsender)]
      simp only [founds, hdata, Option.or_none]
  | createAccount fields =>
      obtain ⟨a, hnew, rfl⟩ := (run_createAccount_eq_ok hdata).mp h
      obtain ⟨hsnapshot, hnone⟩ := newAccount_eq_ok.mp hnew
      rw [(s.writes_putAccount _ a).bareAt hs]
      simp only [founds, hdata, hsnapshot]
      split
      · rename_i hkey
        rw [hkey, State.bareAt_eq_none.mpr hnone, Option.none_or]
      · rw [Option.or_none]
  | miningReward =>
      obtain ⟨-, rfl⟩ := (run_reward_eq_ok hdata).mp h
      rw [(s.writes_putAccount _ _).bareAt hs]
      simp only [founds, hdata]
      split
      · rename_i hkey
        subst hkey
        cases ha : s.account? t.recipient with
        | none =>
            rw [rewarded_of_none ha, State.bareAt_eq_none.mpr ha]
            rfl
        | some a =>
            rw [rewarded_of_account? ha, State.bareAt_of_account? ha]
            rfl
      · rw [Option.or_none]

theorem storageAt_run (h : t.run s = .ok s') (key : String) :
    s'.storageAt key =
      if t.calls key then storageAfter (s.codeAt key) (s.storageAt key) else s.storageAt key := by
  cases hdata : t.data with
  | transact =>
      obtain ⟨_, recipient, _, _, debited, -, hpayee, hcall, -, hdebit, hcredit⟩ :=
        writes_of_run_transact hdata h
      rw [hcredit.storageAt, hdebit.storageAt_eq, hdebit.storageAt_eq]
      by_cases hkey : key = t.recipient
      · subst hkey
        simp [calls, hdata, (gasOn_of_call (payee_eq_ok.mp hpayee) hcall).2]
      · simp [calls, hkey, Ne.symm hkey]
  | createAccount fields =>
      obtain ⟨a, -, rfl⟩ := (run_createAccount_eq_ok hdata).mp h
      rw [(s.writes_putAccount _ a).storageAt_eq]
      simp [calls, hdata]
  | miningReward =>
      obtain ⟨-, rfl⟩ := (run_reward_eq_ok hdata).mp h
      rw [(s.writes_putAccount _ _).storageAt_eq]
      simp [calls, hdata]

theorem balanceAt_run (hs : s.WellFormed) (h : t.run s = .ok s') (key : String) :
    s'.balanceAt key + (if key = t.sender then t.gasUsed s else 0) =
      s.balanceAt key + t.change key + (if key = t.recipient then t.gasUsed s else 0) := by
  cases hdata : t.data with
  | transact =>
      obtain ⟨gasUsed, storage, hsettles⟩ := settles_of_run hs hdata h
      have hgas : t.gasUsed s = gasUsed := by
        obtain ⟨recipient, hrecipient, hcall, -⟩ := hsettles.payee
        exact gasUsed_of_call hdata (payee_eq_ok.mpr hrecipient) hcall
      rw [hgas]
      simp only [change, hdata]
      have hafter := hsettles.account? key
      cases ha : s.account? key with
      | some a =>
          rw [ha, Option.map_some] at hafter
          rw [State.balanceAt_of_account? ha, State.balanceAt_of_account? hafter]
          simp only [Account.stampedWith, settled, charged]
          split <;> split <;> grind
      | none =>
          rw [ha, Option.map_none] at hafter
          have hsender : key ≠ t.sender := by
            rintro rfl
            obtain ⟨_, hsome, -⟩ := hsettles.payer
            rw [ha] at hsome
            cases hsome
          have hrecipient : key ≠ t.recipient := by
            rintro rfl
            obtain ⟨_, hsome, -⟩ := hsettles.payee
            rw [ha] at hsome
            cases hsome
          rw [State.balanceAt_of_none ha, State.balanceAt_of_none hafter]
          simp [hsender, hrecipient]
  | createAccount fields =>
      obtain ⟨a, hnew, rfl⟩ := (run_createAccount_eq_ok hdata).mp h
      obtain ⟨hsnapshot, hnone⟩ := newAccount_eq_ok.mp hnew
      rw [(s.writes_putAccount _ a).balanceAt hs.accounts]
      simp only [change, gasUsed, hdata, hsnapshot, ite_self, UInt64.add_zero]
      split
      · rename_i hkey
        rw [hkey, State.balanceAt_of_none hnone, UInt64.zero_add]
      · rw [UInt64.add_zero]
  | miningReward =>
      obtain ⟨-, rfl⟩ := (run_reward_eq_ok hdata).mp h
      rw [(s.writes_putAccount _ _).balanceAt hs.accounts]
      simp only [change, gasUsed, hdata, ite_self, UInt64.add_zero]
      split
      · rename_i hkey
        rw [balance_rewarded, hkey]
      · rw [UInt64.add_zero]

end Transaction

end WorkLedger
