/-
# When transactions run

What it takes for a transaction to validate and run: a publication needs a free key, a reward an
account that can take it, a call a sender who holds the gas limit and code that ends within
it.

Of two calls of one contract by two senders each pays for the gas of its place.  So where the
first call is dearer than the second, or the other way round, the senders have an interest in
the order.
-/
import WorkLedger.Proofs.Transaction.Reorder

namespace WorkLedger.Transaction

variable {t u : Transaction} {s s' : State} {key : String} {gas : UInt64} {left : Trie Word}

/-! ## Publications -/

section Publication

variable {a : Account}

theorem run_publication_of_free (hsnapshot : t.accountSnapshot = .ok a)
    (hfree : s.bareAt a.storageKey = none) :
    t.validate s = .ok () ∧ t.run s = .ok (s.putAccount a.storageKey a) := by
  obtain ⟨fields, hdata, -⟩ := accountSnapshot_eq_ok.mp hsnapshot
  have hnew : t.newAccount s = .ok a :=
    newAccount_eq_ok.mpr ⟨hsnapshot, State.bareAt_eq_none.mp hfree⟩
  constructor
  · simp only [validate, hdata, validateCreateAccount]
    exact bind_eq_ok.mpr ⟨a, hnew, rfl⟩
  · exact (run_createAccount_eq_ok hdata).mpr ⟨a, hnew, rfl⟩

theorem exists_run_publication (hsnapshot : t.accountSnapshot = .ok a)
    (hfree : s.bareAt a.storageKey = none) : t.validate s = .ok () ∧ ∃ s', t.run s = .ok s' := by
  obtain ⟨hvalid, hrun⟩ := run_publication_of_free hsnapshot hfree
  exact ⟨hvalid, _, hrun⟩

theorem bareAt_run_publication (hs : s.WellFormed) (hsnapshot : t.accountSnapshot = .ok a)
    (h : t.run s = .ok s') (key : String) :
    s'.bareAt key = (s.bareAt key).or (if key = a.storageKey then some a.bare else none) := by
  obtain ⟨fields, hdata, -⟩ := accountSnapshot_eq_ok.mp hsnapshot
  rw [bareAt_run hs.accounts h]
  simp only [founds, hdata, hsnapshot]

theorem balanceAt_run_publication (hs : s.WellFormed) (hsnapshot : t.accountSnapshot = .ok a)
    (h : t.run s = .ok s') (key : String) :
    s'.balanceAt key = s.balanceAt key + if key = a.storageKey then a.balance else 0 := by
  obtain ⟨fields, hdata, -⟩ := accountSnapshot_eq_ok.mp hsnapshot
  have hbalance := balanceAt_run hs h key
  simp only [gasUsed, change, hdata, hsnapshot, ite_self, UInt64.add_zero] at hbalance
  exact hbalance

theorem storageAt_run_publication (hsnapshot : t.accountSnapshot = .ok a)
    (h : t.run s = .ok s') (key : String) : s'.storageAt key = s.storageAt key := by
  obtain ⟨fields, hdata, -⟩ := accountSnapshot_eq_ok.mp hsnapshot
  rw [storageAt_run h]
  simp [calls, hdata]

end Publication

/-! ## Rewards -/

section Reward

variable {beneficiary id : String}

theorem exists_run_reward
    (hroom : (s.balanceAt beneficiary).toNat + miningReward.toNat < UInt64.size) :
    ∃ s', (Transaction.reward beneficiary id).run s = .ok s' := by
  refine ⟨_, (run_reward_eq_ok rfl).mpr ⟨?_, rfl⟩⟩
  rw [balance_rewarded]
  exact hroom

theorem run_reward_of_free (hfree : s.bareAt beneficiary = none) :
    (reward beneficiary id).run s =
      .ok (s.putAccount beneficiary (.new beneficiary miningReward [])) := by
  have hnew : (reward beneficiary id).rewarded s = .new beneficiary 0 [] :=
    rewarded_of_none (State.bareAt_eq_none.mp hfree)
  have hroom : (0 : UInt64).toNat + miningReward.toNat < UInt64.size := by decide
  refine (run_reward_eq_ok rfl).mpr ?_
  rw [hnew]
  exact ⟨hroom, rfl⟩

theorem run_reward_of_full
    (hfull : UInt64.size ≤ (s.balanceAt beneficiary).toNat + miningReward.toNat) :
    (reward beneficiary id).run s = .error (.balanceOverflow beneficiary) := by
  have hbalance : ((reward beneficiary id).rewarded s).balance = s.balanceAt beneficiary :=
    balance_rewarded _ s
  rw [← hbalance] at hfull
  exact if_pos hfull

theorem bareAt_run_reward (hs : s.WellFormed) (h : (reward beneficiary id).run s = .ok s')
    (key : String) : s'.bareAt key =
      (s.bareAt key).or (if key = beneficiary then some (.new key 0 []) else none) :=
  bareAt_run hs.accounts h key

theorem balanceAt_run_reward (hs : s.WellFormed) (h : (reward beneficiary id).run s = .ok s')
    (key : String) : s'.balanceAt key =
      s.balanceAt key + if key = beneficiary then miningReward else 0 := by
  have hbalance := balanceAt_run hs h key
  have hfree : (reward beneficiary id).gasUsed s = 0 := rfl
  rw [hfree, ite_self, ite_self, UInt64.add_zero, UInt64.add_zero] at hbalance
  exact hbalance

theorem storageAt_run_reward (h : (reward beneficiary id).run s = .ok s')
    (key : String) : s'.storageAt key = s.storageAt key :=
  storageAt_run h key

section

variable {series : List Transaction} (hseries : validateAndRun series s = .ok s')
include hseries

/-- A reward behind a series, if its account can take it in the end. -/
theorem validateAndRun_append_reward
    (hroom : (s'.balanceAt beneficiary).toNat + miningReward.toNat < UInt64.size) :
    ∃ s'', validateAndRun (series ++ [reward beneficiary id]) s = .ok s'' := by
  obtain ⟨s'', hrun⟩ : ∃ s'', (reward beneficiary id).run s' = .ok s'' := exists_run_reward hroom
  refine ⟨s'', ?_⟩
  rw [validateAndRun_append, hseries, ok_bind]
  exact validateAndRun_cons_eq_ok.mpr ⟨rfl, s'', hrun, rfl⟩

theorem validateSeries_append_reward_of_full
    (hfull : UInt64.size ≤ (s'.balanceAt beneficiary).toNat + miningReward.toNat) :
    validateSeries (series ++ [reward beneficiary id]) s =
      .error (.balanceOverflow beneficiary) := by
  have hlast : validateAndRun [reward beneficiary id] s' =
      .error (.balanceOverflow beneficiary) := by
    have hvalid : (reward beneficiary id).validate s' = .ok () := rfl
    rw [validateAndRun, hvalid, ok_bind, run_reward_of_full hfull]
    rfl
  rw [validateSeries, validateAndRun_append, hseries, ok_bind, hlast]
  rfl

end

end Reward

/-! ## Calls -/

/-- A signed transfer of nothing between accounts, its sender holding the gas limit. -/
structure Caller (t : Transaction) (s : State) : Prop where
  data : t.data = .transact
  signed : t.isSigned = true
  value : t.value = 0
  sender : (s.bareAt t.sender).isSome
  recipient : (s.bareAt t.recipient).isSome
  funds : t.gasLimit ≤ s.balanceAt t.sender

/-- Code that ends, within a gas limit, and on an account that can take the gas. -/
structure Callable (s : State) (key : String) (limit gas : UInt64) (left : Trie Word) :
    Prop where
  contract : s.codeAt key ≠ []
  runs : ∃ result, runOnTrie (s.codeAt key) (s.storageAt key) = (.ok ⟨result, gas⟩, left)
  limit : gas ≤ limit
  room : (s.balanceAt key).toNat + gas.toNat < UInt64.size

theorem exists_account?_of_isSome_bareAt (h : (s.bareAt key).isSome) :
    ∃ a, s.account? key = some a := by
  rw [State.bareAt, Option.isSome_map] at h
  exact Option.isSome_iff_exists.mp h

theorem saturatingAdd_zero (n : UInt64) : saturatingAdd 0 n = n := by
  have hlt : (0 : UInt64).toNat + n.toNat < UInt64.size := by
    rw [UInt64.toNat_zero, Nat.zero_add]
    exact n.toNat_lt_size
  rw [saturatingAdd, if_pos hlt, UInt64.zero_add]

theorem Callable.exists_call (h : Callable s t.recipient t.gasLimit gas left) :
    ∃ recipient, t.payee s = .ok recipient ∧ t.call s recipient = .ok (gas, some left) ∧
      recipient.balance = s.balanceAt t.recipient := by
  obtain ⟨recipient, hrecipient⟩ : ∃ a, s.account? t.recipient = some a := by
    refine Option.ne_none_iff_exists'.mp fun hnone => h.contract ?_
    rw [State.codeAt, State.bareAt_eq_none.mpr hnone]
    rfl
  obtain ⟨result, hruns⟩ := h.runs
  have hcode := h.contract
  rw [State.codeAt_of_account? hrecipient] at hruns hcode
  have hcontract : recipient.isContract = true := by simpa [Account.isContract] using hcode
  exact ⟨recipient, payee_eq_ok.mpr hrecipient,
    call_eq_ok.mpr (.inl ⟨hcontract, h.limit, result, left, hruns, rfl⟩),
    (State.balanceAt_of_account? hrecipient).symm⟩

/-- The call validates, and it runs. -/
theorem Caller.exists_run (h : t.Caller s)
    (hcode : Callable s t.recipient t.gasLimit gas left) :
    t.validate s = .ok () ∧ ∃ s', t.run s = .ok s' := by
  obtain ⟨sender, hsender⟩ := exists_account?_of_isSome_bareAt h.sender
  obtain ⟨recipient, hpayee, hcall, hbalance⟩ := hcode.exists_call
  have hfunds := h.funds
  rw [State.balanceAt_of_account? hsender] at hfunds
  have hpayer : t.payer s = .ok sender :=
    payer_eq_ok.mpr ⟨hsender, by rwa [h.value, saturatingAdd_zero]⟩
  constructor
  · exact (validate_transact_eq_ok h.data).mpr
      ⟨h.signed, sender, recipient, gas, some left, hpayer, hpayee, hcall⟩
  · refine exists_run_transact h.data hpayer hpayee hcall fun _ => ?_
    rw [charged, h.value, UInt64.zero_add, hbalance]
    exact hcode.room

theorem Caller.gasUsed (h : t.Caller s) (hcode : Callable s t.recipient t.gasLimit gas left) :
    t.gasUsed s = gas := by
  obtain ⟨result, hruns⟩ := hcode.runs
  have hne : (s.codeAt t.recipient).isEmpty = false := by simpa using hcode.contract
  simp [Transaction.gasUsed, h.data, gasOn, hne, hruns]

theorem Caller.storageAt (h : t.Caller s)
    (hcode : Callable s t.recipient t.gasLimit gas left) (hrun : t.run s = .ok s') :
    s'.storageAt t.recipient = left := by
  obtain ⟨result, hruns⟩ := hcode.runs
  have hne : (s.codeAt t.recipient).isEmpty = false := by simpa using hcode.contract
  rw [storageAt_run hrun]
  simp [calls, h.data, storageAfter, hne, hruns]

theorem Caller.bareAt (h : t.Caller s) (hs : s.WellFormed) (hrun : t.run s = .ok s')
    (key : String) : s'.bareAt key = s.bareAt key := by
  rw [bareAt_run hs.accounts hrun]
  simp [founds, h.data]

theorem Caller.balanceAt (h : t.Caller s) (hs : s.WellFormed)
    (hcode : Callable s t.recipient t.gasLimit gas left) (hrun : t.run s = .ok s')
    (key : String) :
    s'.balanceAt key + (if key = t.sender then gas else 0) =
      s.balanceAt key + (if key = t.recipient then gas else 0) := by
  have hbalance := balanceAt_run hs hrun key
  rw [h.gasUsed hcode] at hbalance
  rw [hbalance]
  simp [change, h.data, h.value]

/-! ## The call that comes second -/

theorem Caller.of_run (hu : u.Caller s) (ht : t.Caller s) (hs : s.WellFormed)
    (hcode : Callable s t.recipient t.gasLimit gas left) (hrun : t.run s = .ok s')
    (hsender : u.sender ≠ t.sender) (hrecipient : u.sender ≠ t.recipient) : u.Caller s' where
  data := hu.data
  signed := hu.signed
  value := hu.value
  sender := by
    rw [ht.bareAt hs hrun]
    exact hu.sender
  recipient := by
    rw [ht.bareAt hs hrun]
    exact hu.recipient
  funds := by
    have hbalance := ht.balanceAt hs hcode hrun u.sender
    rw [if_neg hsender, if_neg hrecipient, UInt64.add_zero, UInt64.add_zero] at hbalance
    rw [hbalance]
    exact hu.funds

theorem Callable.of_run (ht : t.Caller s) (hs : s.WellFormed)
    (hcode : Callable s t.recipient t.gasLimit gas left) (hrun : t.run s = .ok s')
    (hsender : t.recipient ≠ t.sender) {limit gas' : UInt64} {left' : Trie Word}
    (hruns : ∃ result, runOnTrie (s.codeAt t.recipient) left = (.ok ⟨result, gas'⟩, left'))
    (hlimit : gas' ≤ limit)
    (hroom : (s.balanceAt t.recipient).toNat + gas.toNat + gas'.toNat < UInt64.size) :
    Callable s' t.recipient limit gas' left' := by
  have hcodeAt : s'.codeAt t.recipient = s.codeAt t.recipient := by
    unfold State.codeAt
    rw [ht.bareAt hs hrun]
  have hbalance := ht.balanceAt hs hcode hrun t.recipient
  rw [if_neg hsender, if_pos rfl, UInt64.add_zero] at hbalance
  refine ⟨hcodeAt ▸ hcode.contract, ?_, hlimit, ?_⟩
  · rw [hcodeAt, ht.storageAt hcode hrun]
    exact hruns
  · rw [hbalance, UInt64.toNat_add, Nat.mod_eq_of_lt hcode.room]
    exact hroom

/-! ## Both calls in a block -/

/-- Two calls and the reward of their block: the first caller pays for the first call, the second
one for the second. -/
theorem exists_run_callers {beneficiary id : String} {gas' : UInt64} {left' : Trie Word}
    (hs : s.WellFormed) (ht : t.Caller s) (hu : u.Caller s) (hsenders : u.sender ≠ t.sender)
    (hrecipient : u.recipient = t.recipient) (htr : t.recipient ≠ t.sender)
    (hur : t.recipient ≠ u.sender) (hcode : Callable s t.recipient t.gasLimit gas left)
    (hruns : ∃ result, runOnTrie (s.codeAt t.recipient) left = (.ok ⟨result, gas'⟩, left'))
    (hlimit : gas' ≤ u.gasLimit)
    (hroom : (s.balanceAt t.recipient).toNat + gas.toNat + gas'.toNat < UInt64.size)
    (hbeneficiary : beneficiary ∉ [t.sender, u.sender, t.recipient])
    (hreward : (s.balanceAt beneficiary).toNat + miningReward.toNat < UInt64.size) :
    ∃ s', validateAndRun [t, u, .reward beneficiary id] s = .ok s' ∧
      ∀ key, gasPaid key [t, u, .reward beneficiary id] s =
        (if key = t.sender then gas else 0) + (if key = u.sender then gas' else 0) := by
  obtain ⟨hvalid, s₁, hrun⟩ := ht.exists_run hcode
  have hs₁ := run_wellFormed hs hrun
  have hu₁ := hu.of_run ht hs hcode hrun hsenders hur.symm
  have hcode₁ : Callable s₁ u.recipient u.gasLimit gas' left' := by
    rw [hrecipient]
    exact Callable.of_run ht hs hcode hrun htr hruns hlimit hroom
  obtain ⟨hvalid₁, s₂, hrun₁⟩ := hu₁.exists_run hcode₁
  simp only [List.mem_cons, List.not_mem_nil, or_false, not_or] at hbeneficiary
  obtain ⟨hbt, hbu, hbr⟩ := hbeneficiary
  have hbalance : s₂.balanceAt beneficiary = s.balanceAt beneficiary := by
    have h₁ := ht.balanceAt hs hcode hrun beneficiary
    have h₂ := hu₁.balanceAt hs₁ hcode₁ hrun₁ beneficiary
    rw [if_neg hbt, if_neg hbr, UInt64.add_zero, UInt64.add_zero] at h₁
    rw [hrecipient, if_neg hbu, if_neg hbr, UInt64.add_zero, UInt64.add_zero] at h₂
    rw [h₂, h₁]
  obtain ⟨s₃, hrun₂⟩ : ∃ s', (reward beneficiary id).run s₂ = .ok s' :=
    exists_run_reward (hbalance ▸ hreward)
  refine ⟨s₃, ?_, fun key => ?_⟩
  · refine validateAndRun_cons_eq_ok.mpr ⟨hvalid, s₁, hrun, ?_⟩
    refine validateAndRun_cons_eq_ok.mpr ⟨hvalid₁, s₂, hrun₁, ?_⟩
    exact validateAndRun_cons_eq_ok.mpr ⟨rfl, s₃, hrun₂, rfl⟩
  · simp only [gasPaid, hrun, hrun₁, hrun₂, ht.gasUsed hcode, hu₁.gasUsed hcode₁]
    have hfree : gasUsed (.reward beneficiary id) s₂ = 0 := rfl
    rw [hfree, ite_self, UInt64.add_zero, UInt64.add_zero]

end WorkLedger.Transaction
