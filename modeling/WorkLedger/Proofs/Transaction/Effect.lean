/-
# What transactions do

A transaction that runs on a well-formed state leaves one, and its effect can be read off key
by key.  A publication and a reward write one account.  A transfer writes two, or one twice;
what comes of it is in `Settles`: the balances of the sender and of the recipient change by
what is charged, and only the recipient's storage may change.
-/
import WorkLedger.Proofs.Machine.Simulation
import WorkLedger.Proofs.Outcome
import WorkLedger.Proofs.State.WellFormed
import WorkLedger.Proofs.Transaction.Series

namespace WorkLedger

/-- The trie that a run of code leaves is sound. -/
theorem Trie.Sound.runOnTrie {storage : Trie Word} (h : storage.Sound) (code : List Word) :
    (runOnTrie code storage).2.Sound := by
  refine sound_ofNode (storage_runCode (P := Node.Canonical) ?_ code h.canonical)
  exact fun n key value hn => hn.put key.storageKey value

namespace Transaction

variable {t : Transaction} {s s' : State}

/-! ## Publications -/

theorem accountSnapshot_eq_ok {a : Account} :
    t.accountSnapshot = .ok a ↔
      ∃ fields, t.data = .createAccount fields ∧ fields.keys = Account.publishedFields ∧
        Account.ofFields fields = .ok a ∧ a.codeHash = Account.codeHashOf a.address a.code := by
  unfold accountSnapshot
  cases t.data with
  | transact => exact ⟨nofun, fun ⟨_, h, _⟩ => nomatch h⟩
  | miningReward => exact ⟨nofun, fun ⟨_, h, _⟩ => nomatch h⟩
  | createAccount fields =>
      simp only [Payload.createAccount.injEq, exists_eq_left']
      split
      · rename_i hkeys
        exact ⟨nofun, fun h => absurd h.1 hkeys⟩
      · rename_i hkeys
        rw [Decidable.not_not.mp hkeys]
        cases hfields : Account.ofFields fields with
        | error e => exact ⟨nofun, fun h => nomatch h.2.1⟩
        | ok b =>
            simp only [Except.ok.injEq, true_and]
            constructor
            · intro h
              split at h
              · rename_i hhash
                cases h
                exact ⟨rfl, hhash⟩
              · exact nomatch h
            · rintro ⟨rfl, hhash⟩
              rw [if_pos hhash]

theorem newAccount_eq_ok {a : Account} :
    t.newAccount s = .ok a ↔ t.accountSnapshot = .ok a ∧ s.account? a.storageKey = none := by
  unfold newAccount
  constructor
  · intro h
    obtain ⟨b, hsnapshot, h⟩ := bind_eq_ok.mp h
    obtain ⟨hnew, h⟩ := check_eq_ok.mp h
    cases pure_eq_ok.mp h
    exact ⟨hsnapshot, Option.not_isSome_iff_eq_none.mp hnew⟩
  · rintro ⟨hsnapshot, hnew⟩
    refine bind_eq_ok.mpr ⟨a, hsnapshot, ?_⟩
    exact check_eq_ok.mpr ⟨Option.not_isSome_iff_eq_none.mpr hnew, pure_eq_ok.mpr rfl⟩

theorem validateCreateAccount_eq_ok :
    t.validateCreateAccount s = .ok () ↔ ∃ a, t.newAccount s = .ok a := by
  unfold validateCreateAccount
  rw [bind_eq_ok]
  constructor
  · rintro ⟨a, ha, -⟩
    exact ⟨a, ha⟩
  · rintro ⟨a, ha⟩
    exact ⟨a, ha, rfl⟩

theorem run_createAccount_eq_ok {fields : Json.Object} (hdata : t.data = .createAccount fields) :
    t.run s = .ok s' ↔ ∃ a, t.newAccount s = .ok a ∧ s' = s.putAccount a.storageKey a := by
  simp only [run, hdata, runCreateAccount, bind_eq_ok, pure_eq_ok, eq_comm (a := s')]

/-! ## Rewards -/

/-- The account that a reward is paid into. -/
def rewarded (t : Transaction) (s : State) : Account :=
  (s.account? t.recipient).getD (.new t.recipient 0 [])

theorem rewarded_of_account? {a : Account} (h : s.account? t.recipient = some a) :
    t.rewarded s = a := by
  rw [rewarded, h]
  rfl

theorem rewarded_of_none (h : s.account? t.recipient = none) :
    t.rewarded s = .new t.recipient 0 [] := by
  rw [rewarded, h]
  rfl

theorem run_reward_eq_ok (hdata : t.data = .miningReward) :
    t.run s = .ok s' ↔ (t.rewarded s).balance.toNat + t.value.toNat < UInt64.size ∧
      s' = s.putAccount t.recipient
        { t.rewarded s with balance := (t.rewarded s).balance + t.value } := by
  simp only [run, hdata, runReward]
  constructor
  · intro h
    split at h
    · exact nomatch h
    · rename_i hfits
      cases h
      exact ⟨Nat.not_le.mp hfits, rfl⟩
  · rintro ⟨hfits, rfl⟩
    exact if_neg (Nat.not_le.mpr hfits)

/-! ## Transfers -/

theorem payer_eq_ok {sender : Account} :
    t.payer s = .ok sender ↔ s.account? t.sender = some sender ∧
      saturatingAdd t.value t.gasLimit ≤ sender.balance := by
  unfold payer
  cases s.account? t.sender with
  | none => exact ⟨nofun, fun h => nomatch h.1⟩
  | some a =>
      simp only [Option.some.injEq]
      constructor
      · intro h
        split at h
        · exact nomatch h
        · rename_i hfunds
          cases h
          exact ⟨rfl, UInt64.not_lt.mp hfunds⟩
      · rintro ⟨rfl, hfunds⟩
        exact if_neg (UInt64.not_lt.mpr hfunds)

theorem payee_eq_ok {recipient : Account} :
    t.payee s = .ok recipient ↔ s.account? t.recipient = some recipient := by
  unfold payee
  cases s.account? t.recipient with
  | none => exact ⟨nofun, nofun⟩
  | some a => simp

/-- A call runs the code of a contract within the gas limit, and is nothing for a plain
account. -/
theorem call_eq_ok {recipient : Account} {gasUsed : UInt64} {storage : Option (Trie Word)} :
    t.call s recipient = .ok (gasUsed, storage) ↔
      (recipient.isContract = true ∧ gasUsed ≤ t.gasLimit ∧ ∃ result left,
        runOnTrie recipient.code (s.storageAt t.recipient) = (.ok ⟨result, gasUsed⟩, left) ∧
          storage = some left) ∨
      (recipient.isContract = false ∧ gasUsed = 0 ∧ storage = none) := by
  unfold call
  cases hcontract : recipient.isContract with
  | false =>
      simp only [Bool.false_eq_true, if_false, false_and, false_or, true_and, Except.ok.injEq,
        Prod.mk.injEq]
      exact ⟨fun ⟨h, h'⟩ => ⟨h.symm, h'.symm⟩, fun ⟨h, h'⟩ => ⟨h.symm, h'.symm⟩⟩
  | true =>
      simp only [if_true, true_and, Bool.true_eq_false, false_and, or_false]
      split
      · rename_i fault left hrun
        exact ⟨nofun, fun ⟨_, _, _, h, _⟩ => nomatch hrun.symm.trans h⟩
      · rename_i outcome left hrun
        constructor
        · intro h
          split at h
          · exact nomatch h
          · rename_i hlimit
            cases h
            exact ⟨UInt64.not_lt.mp hlimit, outcome.result, left, hrun, rfl⟩
        · rintro ⟨hlimit, result, left', hrun', rfl⟩
          cases hrun.symm.trans hrun'
          exact if_neg (UInt64.not_lt.mpr hlimit)

/-- Whether a call succeeds, and with what, depends on the code and on its storage. -/
theorem call_congr {a b : Account} (hcode : a.code = b.code)
    (hstorage : s.storageAt t.recipient = s'.storageAt t.recipient) :
    t.call s a = t.call s' b := by
  unfold call Account.isContract
  rw [hcode, hstorage]

/-- Without code a call does nothing; otherwise it is the run of the code. -/
theorem code_of_call {recipient : Account} {gasUsed : UInt64} {storage : Option (Trie Word)}
    (hcall : t.call s recipient = .ok (gasUsed, storage)) :
    recipient.code = [] ∧ gasUsed = 0 ∧
        storage.getD (s.storageAt t.recipient) = s.storageAt t.recipient ∨
      recipient.code ≠ [] ∧ ∃ result, runOnTrie recipient.code (s.storageAt t.recipient) =
        (.ok ⟨result, gasUsed⟩, storage.getD (s.storageAt t.recipient)) := by
  rcases call_eq_ok.mp hcall with ⟨hcontract, -, result, left, hrun, rfl⟩ | ⟨hplain, rfl, rfl⟩
  · right
    have hcode : recipient.code ≠ [] := by simpa [Account.isContract] using hcontract
    exact ⟨hcode, result, hrun⟩
  · left
    have hcode : recipient.code = [] := by simpa [Account.isContract] using hplain
    exact ⟨hcode, rfl, rfl⟩

/-- A transfer validates if it is signed and no rule refuses it. -/
theorem validate_transact_eq_ok (hdata : t.data = .transact) :
    t.validate s = .ok () ↔ t.isSigned = true ∧ ∃ sender recipient gasUsed storage,
      t.payer s = .ok sender ∧ t.payee s = .ok recipient ∧
      t.call s recipient = .ok (gasUsed, storage) := by
  simp only [validate, hdata, validateTransact, check_eq_ok, bind_eq_ok, pure_eq_ok,
    Bool.not_eq_true', Bool.not_eq_false]
  constructor
  · rintro ⟨hsigned, sender, hpayer, recipient, hpayee, ⟨gasUsed, storage⟩, hcall, -⟩
    exact ⟨hsigned, sender, recipient, gasUsed, storage, hpayer, hpayee, hcall⟩
  · rintro ⟨hsigned, sender, recipient, gasUsed, storage, hpayer, hpayee, hcall⟩
    exact ⟨hsigned, sender, hpayer, recipient, hpayee, (gasUsed, storage), hcall, trivial⟩

/-- What a transfer charges when the call has used some gas. -/
def charged (t : Transaction) (gasUsed : UInt64) : UInt64 := t.value + gasUsed

theorem gasUsed_le {recipient : Account} {gasUsed : UInt64} {storage : Option (Trie Word)}
    (hcall : t.call s recipient = .ok (gasUsed, storage)) :
    gasUsed.toNat ≤ t.gasLimit.toNat := by
  rcases call_eq_ok.mp hcall with ⟨-, hlimit, -⟩ | ⟨-, rfl, -⟩
  · exact UInt64.le_iff_toNat_le.mp hlimit
  · exact Nat.zero_le _

/-- A charge that wraps around is smaller than value and gas. -/
theorem charged_le_add (t : Transaction) (gasUsed : UInt64) :
    (t.charged gasUsed).toNat ≤ t.value.toNat + gasUsed.toNat := by
  rw [charged, UInt64.toNat_add]
  exact Nat.mod_le _ _

/-- The saturated sum is affordable if the sum is.  If the sum does not fit a number, then only the
largest balance passes. -/
theorem saturatingAdd_le_iff {a b c : UInt64} :
    saturatingAdd a b ≤ c ↔ a.toNat + b.toNat ≤ c.toNat ∨ c.toNat = UInt64.size - 1 := by
  have hlt := c.toNat_lt_size
  rw [UInt64.le_iff_toNat_le]
  unfold saturatingAdd
  split
  · rename_i hfits
    rw [UInt64.toNat_add, Nat.mod_eq_of_lt hfits]
    omega
  · have hmax : (UInt64.ofNat (UInt64.size - 1)).toNat = UInt64.size - 1 := rfl
    omega

/-- The charge is covered: the sender can afford value and gas limit, or has the largest balance,
and that covers what wraps around. -/
theorem charged_le {sender recipient : Account} {gasUsed : UInt64} {storage : Option (Trie Word)}
    (hfunds : saturatingAdd t.value t.gasLimit ≤ sender.balance)
    (hcall : t.call s recipient = .ok (gasUsed, storage)) :
    (t.charged gasUsed).toNat ≤ sender.balance.toNat := by
  have hgas := gasUsed_le hcall
  have hcharged := t.charged_le_add gasUsed
  have hlt := (t.charged gasUsed).toNat_lt_size
  rcases saturatingAdd_le_iff.mp hfunds with hafford | hfull
  · omega
  · omega

/-- The balance under a key after a transfer. -/
def settled (t : Transaction) (charged : UInt64) (key : String) (balance : UInt64) : UInt64 :=
  balance - (if key = t.sender then charged else 0) + (if key = t.recipient then charged else 0)

/-- A transfer is a write for the sender and then one for the recipient, who may be the
same. -/
theorem writes_of_run_transact (hdata : t.data = .transact) (h : t.run s = .ok s') :
    ∃ sender recipient gasUsed storage debited,
      t.payer s = .ok sender ∧ t.payee s = .ok recipient ∧
      t.call s recipient = .ok (gasUsed, storage) ∧
      (t.sender ≠ t.recipient →
        recipient.balance.toNat + (t.charged gasUsed).toNat < UInt64.size) ∧
      s.Writes t.sender { sender with balance := sender.balance - t.charged gasUsed }
        (s.storageAt t.sender) debited ∧
      debited.Writes t.recipient
        { (debited.account? t.recipient).getD recipient with
          balance := ((debited.account? t.recipient).getD recipient).balance +
            t.charged gasUsed }
        (storage.getD (debited.storageAt t.recipient)) s' := by
  simp only [run, hdata, runTransact] at h
  obtain ⟨sender, hsender, h⟩ := bind_eq_ok.mp h
  obtain ⟨recipient, hrecipient, h⟩ := bind_eq_ok.mp h
  obtain ⟨⟨gasUsed, storage⟩, hcall, h⟩ := bind_eq_ok.mp h
  obtain ⟨hfits, h⟩ := check_eq_ok.mp h
  cases pure_eq_ok.mp h
  refine ⟨sender, recipient, gasUsed, storage, _, hsender, hrecipient, hcall, ?_,
    State.writes_putAccount .., ?_⟩
  · exact fun hne => Nat.not_le.mp fun hle => hfits ⟨hne, hle⟩
  · cases storage with
    | none => exact State.writes_putAccount ..
    | some left => exact State.writes_setStorage_putAccount ..

/-- A transfer that passes the rules runs, if the recipient can take the charge. -/
theorem exists_run_transact {sender recipient : Account} {gasUsed : UInt64}
    {storage : Option (Trie Word)} (hdata : t.data = .transact) (hpayer : t.payer s = .ok sender)
    (hpayee : t.payee s = .ok recipient) (hcall : t.call s recipient = .ok (gasUsed, storage))
    (hroom : t.sender ≠ t.recipient →
      recipient.balance.toNat + (t.charged gasUsed).toNat < UInt64.size) :
    ∃ s', t.run s = .ok s' := by
  have hfits : ¬(t.sender ≠ t.recipient ∧
      UInt64.size ≤ recipient.balance.toNat + (t.value + gasUsed).toNat) :=
    fun ⟨hne, hfull⟩ => Nat.not_le.mpr (hroom hne) hfull
  simp only [run, hdata, runTransact, hpayer, hpayee, ok_bind, hcall, if_neg hfits]
  exact ⟨_, rfl⟩

/-- A transfer takes one state to another. -/
structure Settles (t : Transaction) (s : State) (gasUsed : UInt64)
    (storage : Option (Trie Word)) (s' : State) : Prop where
  payer : ∃ sender, s.account? t.sender = some sender ∧
    saturatingAdd t.value t.gasLimit ≤ sender.balance
  payee : ∃ recipient, s.account? t.recipient = some recipient ∧
    t.call s recipient = .ok (gasUsed, storage) ∧
      (t.sender ≠ t.recipient →
        recipient.balance.toNat + (t.charged gasUsed).toNat < UInt64.size)
  account? : ∀ k, s'.account? k = (s.account? k).map fun a =>
    { a with balance := t.settled (t.charged gasUsed) k a.balance }.stampedWith (s'.storageAt k)
  storageAt : ∀ k, s'.storageAt k =
    if k = t.recipient then storage.getD (s.storageAt k) else s.storageAt k
  wellFormed : s'.WellFormed

/-- What holds of an account in a well-formed state still holds with another balance and the
root of another storage, if that storage belongs to code. -/
theorem keeps_stampedWith {key : String} {a : Account} {storage storage' : Trie Word}
    (h : State.Keeps key a storage) (balance : UInt64)
    (hstorage : a.code = [] → storage' = .empty) :
    State.Keeps key ({ a with balance := balance }.stampedWith storage') storage' where
  storageKey := h.storageKey
  codeHash := h.codeHash
  storageRoot := rfl
  storage := hstorage

/-- What a debit leaves under each key. -/
theorem account?_of_debit {key : String} {a : Account} {amount : UInt64} {debited : State}
    (hs : s.WellFormed) (ha : s.account? key = some a)
    (h : s.Writes key { a with balance := a.balance - amount } (s.storageAt key) debited)
    (k : String) : debited.account? k = (s.account? k).map fun b =>
      { b with balance := b.balance - if k = key then amount else 0 } := by
  rw [h.account? hs.accounts]
  split
  · rename_i heq
    rw [heq, ha, ← hs.stampedWith_storageAt ha]
    rfl
  · simp

/-- A call leaves sound storage, and none to a plain account. -/
theorem storage_of_call {recipient : Account} {gasUsed : UInt64} {storage : Option (Trie Word)}
    (hs : s.WellFormed) (hrecipient : s.account? t.recipient = some recipient)
    (hcall : t.call s recipient = .ok (gasUsed, storage)) :
    (storage.getD (s.storageAt t.recipient)).Sound ∧
      (recipient.code = [] → storage.getD (s.storageAt t.recipient) = .empty) := by
  have hsound := hs.sound_storageAt t.recipient
  rcases code_of_call hcall with ⟨-, -, hleft⟩ | ⟨hcode, result, hrun⟩
  · rw [hleft]
    exact ⟨hsound, (hs.keeps _ _ hrecipient).storage⟩
  · have hleft := hsound.runOnTrie recipient.code
    rw [hrun] at hleft
    exact ⟨hleft, fun hplain => absurd hplain hcode⟩

theorem settles_of_run (hs : s.WellFormed) (hdata : t.data = .transact) (h : t.run s = .ok s') :
    ∃ gasUsed storage, Settles t s gasUsed storage s' := by
  obtain ⟨sender, recipient, gasUsed, storage, debited, hpayer, hpayee, hcall, hfits, hdebit,
    hcredit⟩ := writes_of_run_transact hdata h
  have hsender := (payer_eq_ok.mp hpayer).1
  have hrecipient := payee_eq_ok.mp hpayee
  have hdebited : debited.WellFormed := hs.write hdebit (hs.sound_storageAt t.sender)
    (keeps_stampedWith (hs.keeps _ _ hsender) _ (hs.keeps _ _ hsender).storage)
  have hat := hdebit.storageAt_eq
  have hdebits := account?_of_debit hs hsender hdebit
  -- The recipient as it is read again.
  have hreread := hdebits t.recipient
  rw [hrecipient, Option.map_some] at hreread
  rw [hat, hreread, Option.getD_some] at hcredit
  obtain ⟨hleft, hcode⟩ := storage_of_call hs hrecipient hcall
  have hkeeps := hdebited.keeps _ _ hreread
  have hs' : s'.WellFormed := hdebited.write hcredit hleft (keeps_stampedWith hkeeps _ hcode)
  have hstorageAt : ∀ k, s'.storageAt k =
      if k = t.recipient then storage.getD (s.storageAt k) else s.storageAt k := by
    intro k
    rw [hcredit.storageAt, hat]
    split
    · rename_i heq
      rw [heq]
    · rfl
  refine ⟨gasUsed, storage, ⟨sender, payer_eq_ok.mp hpayer⟩, ⟨recipient, hrecipient, hcall, hfits⟩,
    ?_, hstorageAt, hs'⟩
  intro k
  rw [hcredit.account? hdebited.accounts, hstorageAt]
  by_cases hk : k = t.recipient
  · subst hk
    rw [if_pos rfl, if_pos rfl, hrecipient]
    simp only [Option.map_some, settled, if_true]
  · rw [if_neg hk, if_neg hk, hdebits]
    cases ha : s.account? k with
    | none => rfl
    | some a =>
        have hstamped := hdebits k
        rw [ha, Option.map_some] at hstamped
        have hroot := hdebited.stampedWith_storageAt hstamped
        rw [hat] at hroot
        simp only [Option.map_some, settled, hk, if_false, UInt64.add_zero]
        exact congrArg some hroot.symm

/-! ## All kinds -/

/-- Whatever the state holds, running keeps its accounts a trie proper. -/
theorem sound_accounts_of_run (hs : s.accounts.Sound) (h : t.run s = .ok s') :
    s'.accounts.Sound := by
  cases hdata : t.data with
  | transact =>
      obtain ⟨_, _, _, _, debited, -, -, -, -, hdebit, hcredit⟩ := writes_of_run_transact hdata h
      exact hcredit.sound_accounts (hdebit.sound_accounts hs)
  | createAccount fields =>
      obtain ⟨a, -, rfl⟩ := (run_createAccount_eq_ok hdata).mp h
      exact (State.writes_putAccount ..).sound_accounts hs
  | miningReward =>
      obtain ⟨-, rfl⟩ := (run_reward_eq_ok hdata).mp h
      exact (State.writes_putAccount ..).sound_accounts hs

theorem run_wellFormed (hs : s.WellFormed) (h : t.run s = .ok s') : s'.WellFormed := by
  cases hdata : t.data with
  | transact =>
      obtain ⟨gasUsed, storage, hsettles⟩ := settles_of_run hs hdata h
      exact hsettles.wellFormed
  | createAccount fields =>
      obtain ⟨a, hnew, rfl⟩ := (run_createAccount_eq_ok hdata).mp h
      obtain ⟨hsnapshot, hnone⟩ := newAccount_eq_ok.mp hnew
      obtain ⟨_, -, -, -, hhash⟩ := accountSnapshot_eq_ok.mp hsnapshot
      exact hs.write (State.writes_putAccount ..) (hs.sound_storageAt _)
        ⟨rfl, hhash, rfl, fun _ => hs.storageAt_of_none hnone⟩
  | miningReward =>
      obtain ⟨-, rfl⟩ := (run_reward_eq_ok hdata).mp h
      refine hs.write (State.writes_putAccount ..) (hs.sound_storageAt _) ?_
      cases ha : s.account? t.recipient with
      | none =>
          rw [rewarded_of_none ha]
          exact ⟨rfl, rfl, rfl, fun _ => hs.storageAt_of_none ha⟩
      | some a =>
          rw [rewarded_of_account? ha]
          exact keeps_stampedWith (hs.keeps _ _ ha) _ (hs.keeps _ _ ha).storage

theorem runSeries_wellFormed {series : List Transaction} (hs : s.WellFormed)
    (h : runSeries series s = .ok s') : s'.WellFormed := by
  induction series generalizing s with
  | nil =>
      cases h
      exact hs
  | cons t rest ih =>
      obtain ⟨next, hrun, h⟩ := runSeries_cons_eq_ok.mp h
      exact ih (run_wellFormed hs hrun) h

end Transaction

/-- The states that transactions lead to.  A transaction that fails leaves the state alone. -/
inductive State.Reachable : State → Prop
  | empty : Reachable .empty
  | run {s s' : State} {t : Transaction} : Reachable s → t.run s = .ok s' → Reachable s'

theorem State.Reachable.wellFormed {s : State} (h : s.Reachable) : s.WellFormed := by
  induction h with
  | empty => exact wellFormed_empty
  | run _ hrun ih => exact Transaction.run_wellFormed ih hrun

end WorkLedger
