/-
# What a transfer changes

The sender pays the value and the gas that the recipient's code has used, and the recipient gets
both.  Where the two are one account, nothing moves.  The recipient's storage becomes what its
code has left, and its account carries the root of that.  Nothing else changes.

A transfer is settled in one go, with gas netted.  It could as well go by a deposit: the sender
puts down the gas limit with the value, and gets back what is left of it.  The limit therefore
decides only whether a transfer runs, not what it does.
-/
import WorkLedger.Proofs.Transaction.Latch

namespace WorkLedger

/-! ## Storing an account again -/

namespace State

variable {s s' : State} {key : String} {a : Account} {f : UInt64 → UInt64}
  {storage : Option (Trie Word)}

/-- Stores the account under a key again, with another balance, and with other storage if some is
given. -/
def amend (s : State) (key : String) (storage : Option (Trie Word)) (f : UInt64 → UInt64) :
    State :=
  match s.account? key with
  | none => s
  | some a =>
      let stored :=
        match storage with
        | none => s
        | some left => s.setStorage key left
      stored.putAccount key { a with balance := f a.balance }

theorem writes_amend (ha : s.account? key = some a) :
    s.Writes key { a with balance := f a.balance } (storage.getD (s.storageAt key))
      (s.amend key storage f) := by
  simp only [amend, ha]
  cases storage with
  | none => exact writes_putAccount ..
  | some left => exact writes_setStorage_putAccount ..

/-- An account has been stored again. -/
structure Amends (s : State) (key : String) (storage : Option (Trie Word)) (f : UInt64 → UInt64)
    (s' : State) : Prop where
  wellFormed : s'.WellFormed
  bareAt : ∀ k, s'.bareAt k = s.bareAt k
  balanceAt : ∀ k, s'.balanceAt k = if k = key then f (s.balanceAt k) else s.balanceAt k
  storageAt : ∀ k, s'.storageAt k =
    if k = key then storage.getD (s.storageAt k) else s.storageAt k

/-- Any balance will do, and any storage that is a trie proper, if there is code it belongs to. -/
theorem WellFormed.amends (hs : s.WellFormed) (ha : s.account? key = some a)
    (hsound : (storage.getD (s.storageAt key)).Sound)
    (hplain : a.code = [] → storage.getD (s.storageAt key) = .empty) :
    s.Amends key storage f (s.amend key storage f) := by
  have hwrites : s.Writes key _ _ (s.amend key storage f) := writes_amend ha
  constructor
  case wellFormed =>
    exact hs.write hwrites hsound (Transaction.keeps_stampedWith (hs.keeps key a ha) _ hplain)
  case bareAt =>
    intro k
    exact hwrites.bareAt_eq hs.accounts (bareAt_of_account? ha) k
  case balanceAt =>
    intro k
    rw [hwrites.balanceAt hs.accounts]
    split
    · rename_i hk
      rw [hk, balanceAt_of_account? ha]
    · rfl
  case storageAt =>
    intro k
    rw [hwrites.storageAt]
    split
    · rename_i hk
      rw [hk]
    · rfl

theorem WellFormed.amends_balance (hs : s.WellFormed) (ha : s.account? key = some a) :
    s.Amends key none f (s.amend key none f) :=
  hs.amends ha (hs.sound_storageAt key) (hs.keeps key a ha).storage

namespace Amends

theorem storageAt_eq (h : s.Amends key none f s') (k : String) :
    s'.storageAt k = s.storageAt k := by
  rw [h.storageAt]
  exact ite_self _

/-- Whoever was there is found again. -/
theorem exists_account? (h : s.Amends key storage f s') {k : String} {b : Account}
    (hb : s.account? k = some b) : ∃ b', s'.account? k = some b' ∧ b'.bare = b.bare := by
  have hbare : s'.bareAt k = some b.bare := by
    rw [h.bareAt, bareAt_of_account? hb]
  exact Option.map_eq_some_iff.mp hbare

end Amends

end State

namespace Transaction

variable {t u : Transaction} {s s' s'' : State}

/-! ## The netted transfer -/

/-- What a transfer changes, if it leaves some storage to its recipient. -/
structure Settlement (t : Transaction) (s : State) (left : Trie Word) (s' : State) : Prop where
  /-- The code of the recipient has used the gas and left the storage. -/
  code : ∃ recipient, s.account? t.recipient = some recipient ∧
    (recipient.code = [] ∧ t.gasUsed s = 0 ∧ left = s.storageAt t.recipient ∨
      recipient.code ≠ [] ∧ ∃ result,
        runOnTrie recipient.code (s.storageAt t.recipient) = (.ok ⟨result, t.gasUsed s⟩, left))
  debit : t.sender ≠ t.recipient → ∃ a a', s.account? t.sender = some a ∧
    s'.account? t.sender = some a' ∧
    a'.balance.toNat + (t.value.toNat + (t.gasUsed s).toNat) = a.balance.toNat
  credit : t.sender ≠ t.recipient → ∃ a a', s.account? t.recipient = some a ∧
    s'.account? t.recipient = some a' ∧
    a'.balance.toNat = a.balance.toNat + (t.value.toNat + (t.gasUsed s).toNat)
  /-- Paying oneself moves nothing, whether there is code or not. -/
  oneself : t.sender = t.recipient → ∀ key, s'.balance? key = s.balance? key
  /-- Nobody comes or goes, and address, code and code hash stay. -/
  kept : ∀ key, s'.bareAt key = s.bareAt key
  storage : ∀ key, s'.storage? key = if key = t.recipient then some left else s.storage? key
  storageRoot : ∃ a', s'.account? t.recipient = some a' ∧ a'.storageRoot = some left.root
  others : ∀ key, key ≠ t.sender → key ≠ t.recipient → s'.account? key = s.account? key

/-- The balance of an account that is there after a transfer. -/
theorem Settles.exists_account? {gasUsed : UInt64} {storage : Option (Trie Word)}
    (h : Settles t s gasUsed storage s') {key : String} {a : Account}
    (ha : s.account? key = some a) : ∃ a', s'.account? key = some a' ∧
      a'.balance = t.settled (t.charged gasUsed) key a.balance ∧
      a'.storageRoot = some (s'.storageAt key).root := by
  have hafter := h.account? key
  rw [ha] at hafter
  exact ⟨_, hafter, rfl, rfl⟩

section

variable (hs : s.WellFormed) (hdata : t.data = .transact) (h : t.run s = .ok s')
include hs hdata h

theorem settlement_of_run (hfits : t.value.toNat + (t.gasUsed s).toNat < UInt64.size) :
    ∃ left, t.Settlement s left s' := by
  obtain ⟨gasUsed, storage, hsettles⟩ := settles_of_run hs hdata h
  obtain ⟨sender, hsender, hfunds⟩ := hsettles.payer
  obtain ⟨recipient, hrecipient, hcall, hroom⟩ := hsettles.payee
  have hgas : t.gasUsed s = gasUsed := gasUsed_of_call hdata (payee_eq_ok.mpr hrecipient) hcall
  have hcharged : (t.charged gasUsed).toNat = t.value.toNat + (t.gasUsed s).toNat := by
    rw [charged, UInt64.toNat_add, ← hgas, Nat.mod_eq_of_lt hfits]
  have hcovered : (t.charged gasUsed).toNat ≤ sender.balance.toNat := charged_le hfunds hcall
  obtain ⟨sender', hsender', hdebit, -⟩ := hsettles.exists_account? hsender
  obtain ⟨recipient', hrecipient', hcredit, hroot⟩ := hsettles.exists_account? hrecipient
  have hbare : ∀ key, s'.bareAt key = s.bareAt key := by
    intro key
    rw [bareAt_run hs.accounts h]
    simp only [founds, hdata, Option.or_none]
  refine ⟨storage.getD (s.storageAt t.recipient), ?_⟩
  constructor
  case code =>
    refine ⟨recipient, hrecipient, ?_⟩
    rw [hgas]
    exact code_of_call hcall
  case debit =>
    intro hne
    refine ⟨sender, sender', hsender, hsender', ?_⟩
    rw [settled, if_pos rfl, if_neg hne, UInt64.add_zero] at hdebit
    rw [hdebit, UInt64.toNat_sub_of_le _ _ (UInt64.le_iff_toNat_le.mpr hcovered), ← hcharged,
      Nat.sub_add_cancel hcovered]
  case credit =>
    intro hne
    refine ⟨recipient, recipient', hrecipient, hrecipient', ?_⟩
    rw [settled, if_neg hne.symm, if_pos rfl, UInt64.sub_zero] at hcredit
    rw [hcredit, UInt64.toNat_add, Nat.mod_eq_of_lt (hroom hne), hcharged]
  case oneself =>
    intro hself key
    unfold State.balance?
    rw [hsettles.account?, Option.map_map]
    congr 1
    funext a
    show t.settled (t.charged gasUsed) key a.balance = a.balance
    unfold settled
    rw [hself]
    split
    · exact UInt64.sub_add_cancel ..
    · rw [UInt64.sub_zero, UInt64.add_zero]
  case kept => exact hbare
  case storage =>
    intro key
    rw [hsettles.wellFormed.storage?_eq, hsettles.storageAt]
    split
    · rename_i hkey
      rw [hkey, hrecipient', Option.map_some]
    · rw [hs.storage?_eq, hsettles.account?, Option.map_map]
      rfl
  case storageRoot =>
    refine ⟨recipient', hrecipient', ?_⟩
    rw [hroot, hsettles.storageAt, if_pos rfl]
  case others =>
    intro key hks hkr
    rw [hsettles.account?]
    cases ha : s.account? key with
    | none => rfl
    | some a =>
        rw [Option.map_some, settled, if_neg hks, if_neg hkr, UInt64.sub_zero, UInt64.add_zero,
          hsettles.storageAt, if_neg hkr]
        exact congrArg some (hs.stampedWith_storageAt ha)

end

/-- Calls of one account differ in whether they end within the limit, and in nothing else. -/
theorem call_unique {recipient : Account} {x y : UInt64 × Option (Trie Word)}
    (hrecipient : u.recipient = t.recipient) (h : t.call s recipient = .ok x)
    (h' : u.call s recipient = .ok y) : y = x := by
  obtain ⟨gasUsed, storage⟩ := x
  obtain ⟨gasUsed', storage'⟩ := y
  rcases call_eq_ok.mp h with ⟨hcontract, -, result, left, hrun, rfl⟩ | ⟨hplain, rfl, rfl⟩
  · rcases call_eq_ok.mp h' with ⟨-, -, result', left', hrun', rfl⟩ | ⟨hplain, -, -⟩
    · rw [hrecipient, hrun] at hrun'
      cases hrun'
      rfl
    · rw [hcontract] at hplain
      exact nomatch hplain
  · rcases call_eq_ok.mp h' with ⟨hcontract, -⟩ | ⟨-, rfl, rfl⟩
    · rw [hplain] at hcontract
      exact nomatch hcontract
    · rfl

/-- What a transfer does depends on its ends and on its value. -/
theorem run_unique (hdata : t.data = .transact) (hdata' : u.data = .transact)
    (hsender : u.sender = t.sender) (hrecipient : u.recipient = t.recipient)
    (hvalue : u.value = t.value) (h : t.run s = .ok s') (h' : u.run s = .ok s'') : s'' = s' := by
  simp only [run, hdata, runTransact] at h
  simp only [run, hdata', runTransact] at h'
  obtain ⟨sender, hpayer, h⟩ := bind_eq_ok.mp h
  obtain ⟨recipient, hpayee, h⟩ := bind_eq_ok.mp h
  obtain ⟨⟨gasUsed, storage⟩, hcall, h⟩ := bind_eq_ok.mp h
  obtain ⟨-, h⟩ := check_eq_ok.mp h
  obtain ⟨sender', hpayer', h'⟩ := bind_eq_ok.mp h'
  obtain ⟨recipient', hpayee', h'⟩ := bind_eq_ok.mp h'
  obtain ⟨⟨gasUsed', storage'⟩, hcall', h'⟩ := bind_eq_ok.mp h'
  obtain ⟨-, h'⟩ := check_eq_ok.mp h'
  have hsame : sender' = sender := by
    have hfound := (payer_eq_ok.mp hpayer').1
    rw [hsender, (payer_eq_ok.mp hpayer).1] at hfound
    exact (Option.some.inj hfound).symm
  have hsame' : recipient' = recipient := by
    have hfound := payee_eq_ok.mp hpayee'
    rw [hrecipient, payee_eq_ok.mp hpayee] at hfound
    exact (Option.some.inj hfound).symm
  subst hsame hsame'
  cases call_unique hrecipient hcall hcall'
  rw [hsender, hrecipient, hvalue] at h'
  exact (pure_eq_ok.mp h').symm.trans (pure_eq_ok.mp h)

/-! ## The transfer with a deposit -/

/-- The transfer with a deposit: the sender puts down value and gas limit, the code runs, the
recipient gets value and gas, and the sender what is left of the gas. -/
def runWithDeposit (t : Transaction) (s : State) : Except TransactionError State := do
  let _ ← t.payer s
  let deposited := s.amend t.sender none (· - (t.value + t.gasLimit))
  let recipient ← t.payee deposited
  let (gasUsed, storage) ← t.call deposited recipient
  let paid := deposited.amend t.recipient storage (· + (t.value + gasUsed))
  return paid.amend t.sender none (· + (t.gasLimit - gasUsed))

/-- The deposit, the payment and the refund add up to the netted charge under every key. -/
theorem agreeAt_of_amends {gasUsed : UInt64} {storage : Option (Trie Word)}
    {deposited paid refunded : State} (hs : s.WellFormed) (hdata : t.data = .transact)
    (h : t.run s = .ok s') (hgas : t.gasUsed s = gasUsed)
    (hstorage : storage.getD (s.storageAt t.recipient) =
      storageAfter (s.codeAt t.recipient) (s.storageAt t.recipient))
    (hdeposit : s.Amends t.sender none (· - (t.value + t.gasLimit)) deposited)
    (hpay : deposited.Amends t.recipient storage (· + (t.value + gasUsed)) paid)
    (hrefund : paid.Amends t.sender none (· + (t.gasLimit - gasUsed)) refunded) (key : String) :
    refunded.AgreeAt key s' := by
  refine hrefund.wellFormed.agreeAt (run_wellFormed hs h) ?_ ?_ ?_
  · rw [hrefund.bareAt, hpay.bareAt, hdeposit.bareAt, bareAt_run hs.accounts h]
    simp only [founds, hdata, Option.or_none]
  · have hnetted := balanceAt_run hs h key
    rw [hgas] at hnetted
    simp only [change, hdata] at hnetted
    rw [hrefund.balanceAt, hpay.balanceAt, hdeposit.balanceAt]
    grind
  · rw [hrefund.storageAt_eq, hpay.storageAt, hdeposit.storageAt_eq, storageAt_run h]
    by_cases hkey : key = t.recipient
    · subst hkey
      simp [calls, hdata, hstorage]
    · simp [calls, hkey, Ne.symm hkey]

/-- The deposit comes to the same accounts and the same storage. -/
theorem exists_runWithDeposit (hs : s.WellFormed) (hdata : t.data = .transact)
    (h : t.run s = .ok s') : ∃ s'', t.runWithDeposit s = .ok s'' ∧
      s''.accounts = s'.accounts ∧ ∀ key, s''.storage? key = s'.storage? key := by
  obtain ⟨sender, recipient, gasUsed, storage, -, hpayer, hpayee, hcall, -⟩ :=
    writes_of_run_transact hdata h
  have hsender := (payer_eq_ok.mp hpayer).1
  have hrecipient := payee_eq_ok.mp hpayee
  let deposited := s.amend t.sender none (· - (t.value + t.gasLimit))
  have hdeposit : s.Amends t.sender none _ deposited := hs.amends_balance hsender
  obtain ⟨depositor, hdepositor, -⟩ := hdeposit.exists_account? hsender
  obtain ⟨reread, hreread, hbare⟩ := hdeposit.exists_account? hrecipient
  -- The code runs as it does without the deposit.
  have hcode : reread.bare.code = recipient.bare.code := by rw [hbare]
  have hcall' : t.call deposited reread = .ok (gasUsed, storage) := by
    rw [← hcall]
    exact call_congr hcode (hdeposit.storageAt_eq t.recipient)
  let paid := deposited.amend t.recipient storage (· + (t.value + gasUsed))
  obtain ⟨hsound, hplain⟩ := storage_of_call hdeposit.wellFormed hreread hcall'
  have hpay : deposited.Amends t.recipient storage _ paid :=
    hdeposit.wellFormed.amends hreread hsound hplain
  obtain ⟨payer, hpaying, -⟩ := hpay.exists_account? hdepositor
  let refunded := paid.amend t.sender none (· + (t.gasLimit - gasUsed))
  have hrefund : paid.Amends t.sender none _ refunded := hpay.wellFormed.amends_balance hpaying
  have hruns : t.runWithDeposit s = .ok refunded := by
    have hpayee' : t.payee deposited = .ok reread := payee_eq_ok.mpr hreread
    unfold runWithDeposit
    rw [hpayer, ok_bind]
    show (t.payee deposited >>= _) = _
    rw [hpayee', ok_bind, hcall']
    rfl
  have hagree : ∀ key, refunded.AgreeAt key s' :=
    agreeAt_of_amends hs hdata h (gasUsed_of_call hdata hpayee hcall)
      (gasOn_of_call hrecipient hcall).2 hdeposit hpay hrefund
  exact ⟨refunded, hruns, hrefund.wellFormed.accounts_eq (run_wellFormed hs h) hagree,
    fun key => (hagree key).storage?⟩

/-! ## Both -/

/-- The effect of a transfer that runs, its charge being a number.  A transfer with a deposit, whose
amounts wrap around, has the same effect; the sender can afford the deposit, if that is a number.
Another transfer between the same ends and of the same value leads to the same state. -/
theorem run_transact_effect (hs : s.Reachable) (hdata : t.data = .transact)
    (h : t.run s = .ok s') (hfits : t.value.toNat + (t.gasUsed s).toNat < UInt64.size) :
    (∃ left, t.Settlement s left s') ∧
    (∃ s'', t.runWithDeposit s = .ok s'' ∧
      s''.accounts = s'.accounts ∧ ∀ key, s''.storage? key = s'.storage? key) ∧
    (t.gasUsed s).toNat ≤ t.gasLimit.toNat ∧
    (t.value.toNat + t.gasLimit.toNat < UInt64.size →
      t.value.toNat + t.gasLimit.toNat ≤ (s.balanceAt t.sender).toNat) ∧
    ∀ (u : Transaction) (s'' : State), u.data = .transact → u.sender = t.sender →
      u.recipient = t.recipient → u.value = t.value → u.run s = .ok s'' → s'' = s' := by
  obtain ⟨sender, recipient, gasUsed, storage, -, hpayer, hpayee, hcall, -⟩ :=
    writes_of_run_transact hdata h
  obtain ⟨hsender, hfunds⟩ := payer_eq_ok.mp hpayer
  refine ⟨settlement_of_run hs.wellFormed hdata h hfits,
    exists_runWithDeposit hs.wellFormed hdata h, ?_, ?_, ?_⟩
  · rw [gasUsed_of_call hdata hpayee hcall]
    exact gasUsed_le hcall
  · intro hdeposit
    rw [State.balanceAt_of_account? hsender]
    rcases saturatingAdd_le_iff.mp hfunds with hafford | hfull
    · exact hafford
    · omega
  · intro u s'' hdata' hsender' hrecipient' hvalue h'
    exact run_unique hdata hdata' hsender' hrecipient' hvalue h h'

open Latch in
/-- Alice's call, for which she pays 12. -/
theorem settlement_callOfAlice : ∃ (s s' : State) (left : Trie Word) (a a' : Account),
    s.Reachable ∧ callOfAlice.data = .transact ∧ callOfAlice.run s = .ok s' ∧
    callOfAlice.value.toNat + (callOfAlice.gasUsed s).toNat < UInt64.size ∧
    callOfAlice.Settlement s left s' ∧
    s.account? alice.address = some a ∧ s'.account? alice.address = some a' ∧
    a'.balance.toNat + 12 = a.balance.toNat := by
  obtain ⟨s, hs⟩ := exists_funded
  obtain ⟨-, s', hrun⟩ := hs.caller_alice.exists_run hs.callable
  have hgas : callOfAlice.gasUsed s = 12 := hs.caller_alice.gasUsed hs.callable
  have hfits : callOfAlice.value.toNat + (callOfAlice.gasUsed s).toNat < UInt64.size := by
    rw [hgas]
    decide
  obtain ⟨⟨left, hsettlement⟩, -⟩ := run_transact_effect hs.reachable rfl hrun hfits
  obtain ⟨a, a', ha, ha', hdebit⟩ := hsettlement.debit distinct.2.1
  rw [hgas] at hdebit
  exact ⟨s, s', left, a, a', hs.reachable, rfl, hrun, hfits, hsettlement, ha, ha', hdebit⟩

end Transaction

end WorkLedger
