/-
# Transactions that do not meet

A transaction looks at a few keys and writes under these only: a transfer at its two ends, a reward
at its beneficiary, a publication at the key of the new account.  So on states that agree there
it runs or fails alike, and leaves what agrees; and everywhere else it leaves what was there.

Two transactions with no key in common can therefore change places.  Neither notices whether the
other has run, and the accounts, the storage and with them the root come out the same.
-/
import WorkLedger.Proofs.Transaction.Latch

namespace WorkLedger

namespace Transaction

open State (AgreeAt)

variable {t t' : Transaction} {s s' u u' : State} {key : String}

/-! ## Touched keys -/

/-- The keys that a transaction looks at. -/
def touched (t : Transaction) : List String :=
  match t.data with
  | .transact => [t.sender, t.recipient]
  | .createAccount _ =>
      match t.accountSnapshot with
      | .ok a => [a.storageKey]
      | .error _ => []
  | .miningReward => [t.recipient]

/-! ## What is out of touch -/

/-- What a transaction means to a key that it does not touch. -/
structure Untouched (t : Transaction) (key : String) : Prop where
  founds : t.founds key = none
  change : t.change key = 0
  calls : t.calls key = false
  paid : ∀ s, (if key = t.sender then t.gasUsed s else 0) = 0
  earned : ∀ s, (if key = t.recipient then t.gasUsed s else 0) = 0

theorem untouched_of_not_mem (hkey : key ∉ t.touched) : t.Untouched key := by
  cases hdata : t.data with
  | transact =>
      obtain ⟨hsender, hrecipient⟩ : key ≠ t.sender ∧ key ≠ t.recipient := by
        simpa [touched, hdata] using hkey
      constructor
      case founds => simp only [founds, hdata]
      case change => simp only [change, hdata, if_neg hsender, if_neg hrecipient, UInt64.sub_zero]
      case calls => simp [calls, hrecipient.symm]
      case paid => exact fun s => if_neg hsender
      case earned => exact fun s => if_neg hrecipient
  | createAccount fields =>
      have hfree : ∀ s, t.gasUsed s = 0 := fun s => by simp only [gasUsed, hdata]
      cases hsnapshot : t.accountSnapshot with
      | error e => constructor <;> simp [founds, change, calls, hfree, hdata, hsnapshot]
      | ok a =>
          have hne : key ≠ a.storageKey := by simpa [touched, hdata, hsnapshot] using hkey
          constructor <;> simp [founds, change, calls, hfree, hdata, hsnapshot, hne]
  | miningReward =>
      have hfree : ∀ s, t.gasUsed s = 0 := fun s => by simp only [gasUsed, hdata]
      have hne : key ≠ t.recipient := by simpa [touched, hdata] using hkey
      constructor <;> simp [founds, change, calls, hfree, hdata, hne]

/-- Under any other key a transaction leaves what was there. -/
theorem agreeAt_of_not_touched (hs : s.WellFormed) (h : t.run s = .ok s')
    (hkey : key ∉ t.touched) : AgreeAt key s' s := by
  have huntouched := untouched_of_not_mem hkey
  refine (run_wellFormed hs h).agreeAt hs ?_ ?_ ?_
  · rw [bareAt_run hs.accounts h, huntouched.founds, Option.or_none]
  · have hbalance := balanceAt_run hs h key
    rw [huntouched.paid, huntouched.earned, huntouched.change] at hbalance
    simpa only [UInt64.add_zero] using hbalance
  · rw [storageAt_run h, huntouched.calls]
    rfl

/-! ## What is in touch -/

section

variable (hagree : ∀ key ∈ t.touched, AgreeAt key s u)
include hagree

theorem gasUsed_congr : t.gasUsed s = t.gasUsed u := by
  unfold gasUsed
  cases hdata : t.data with
  | transact =>
      have hrecipient : AgreeAt t.recipient s u := hagree _ (by simp [touched, hdata])
      simp only [hrecipient.codeAt, hrecipient.storageAt]
  | _ => rfl

/-- Where the touched keys agree, a transaction that runs on one state runs on the other. -/
theorem exists_run_congr (h : t.run s = .ok s') : ∃ u', t.run u = .ok u' := by
  cases hdata : t.data with
  | transact =>
      obtain ⟨sender, recipient, gasUsed, storage, -, hpayer, hpayee, hcall, hroom, -⟩ :=
        writes_of_run_transact hdata h
      have hsender : AgreeAt t.sender s u := hagree _ (by simp [touched, hdata])
      have hrecipient : AgreeAt t.recipient s u := hagree _ (by simp [touched, hdata])
      have hpayer' : t.payer u = .ok sender := by
        rw [payer_eq_ok, ← hsender.account?]
        exact payer_eq_ok.mp hpayer
      have hpayee' : t.payee u = .ok recipient := by
        rw [payee_eq_ok, ← hrecipient.account?]
        exact payee_eq_ok.mp hpayee
      have hcall' : t.call u recipient = .ok (gasUsed, storage) := by
        rw [← hcall]
        exact (call_congr rfl hrecipient.storageAt).symm
      exact exists_run_transact hdata hpayer' hpayee' hcall' hroom
  | createAccount fields =>
      obtain ⟨a, hnew, -⟩ := (run_createAccount_eq_ok hdata).mp h
      obtain ⟨hsnapshot, hnone⟩ := newAccount_eq_ok.mp hnew
      have hkey : AgreeAt a.storageKey s u := hagree _ (by simp [touched, hdata, hsnapshot])
      have hnew' : t.newAccount u = .ok a :=
        newAccount_eq_ok.mpr ⟨hsnapshot, hkey.account?.symm.trans hnone⟩
      exact ⟨_, (run_createAccount_eq_ok hdata).mpr ⟨a, hnew', rfl⟩⟩
  | miningReward =>
      obtain ⟨hroom, -⟩ := (run_reward_eq_ok hdata).mp h
      have hrecipient : AgreeAt t.recipient s u := hagree _ (by simp [touched, hdata])
      have hrewarded : t.rewarded s = t.rewarded u := by
        unfold rewarded
        rw [hrecipient.account?]
      exact ⟨_, (run_reward_eq_ok hdata).mpr ⟨hrewarded ▸ hroom, rfl⟩⟩

/-- Where the touched keys agree, a key that agrees still does after the transaction. -/
theorem agreeAt_run (hs : s.WellFormed) (hu : u.WellFormed) (h : t.run s = .ok s')
    (h' : t.run u = .ok u') (hkey : AgreeAt key s u) : AgreeAt key s' u' := by
  refine (run_wellFormed hs h).agreeAt (run_wellFormed hu h') ?_ ?_ ?_
  · rw [bareAt_run hs.accounts h, bareAt_run hu.accounts h', hkey.bareAt]
  · have hbalance := balanceAt_run hs h key
    rw [hkey.balanceAt, gasUsed_congr hagree, ← balanceAt_run hu h'] at hbalance
    exact (UInt64.add_left_inj _).mp hbalance
  · rw [storageAt_run h, storageAt_run h', hkey.codeAt, hkey.storageAt]

end

/-! ## Changing places -/

section

variable (hs : s.WellFormed) (hapart : t.touched.Disjoint t'.touched)
include hs hapart

/-- What is apart does not notice whether a transaction has run. -/
theorem agree_of_apart (h : t.run s = .ok u) : ∀ key ∈ t'.touched, AgreeAt key u s := by
  intro key hkey
  exact agreeAt_of_not_touched hs h fun hmem => hapart hmem hkey

theorem runs_both_of_runs (h : t.run s = .ok u) (h' : t'.run u = .ok s') :
    ∃ v, t'.run s = .ok v ∧ ∃ s'', t.run v = .ok s'' := by
  obtain ⟨v, hv⟩ := exists_run_congr (agree_of_apart hs hapart h) h'
  refine ⟨v, hv, exists_run_congr ?_ h⟩
  intro key hkey
  exact (agree_of_apart hs hapart.symm hv key hkey).symm

variable {v s'' : State} (h : t.run s = .ok u) (h' : t'.run u = .ok s') (hv : t'.run s = .ok v)
  (hv' : t.run v = .ok s'')
include h h' hv hv'

/-- Both orders leave what the one transaction alone does to a key that the other does not touch. -/
theorem agreeAt_either_order_of_not_touched (hkey : key ∉ t'.touched) : AgreeAt key s' s'' := by
  have hsecond : AgreeAt key s' u := agreeAt_of_not_touched (run_wellFormed hs h) h' hkey
  have hfirst : AgreeAt key v s := agreeAt_of_not_touched hs hv hkey
  have hsame : AgreeAt key s'' u :=
    agreeAt_run (agree_of_apart hs hapart.symm hv) (run_wellFormed hs hv) hs hv' h hfirst
  exact hsecond.trans hsame.symm

/-- No key is touched by both, so one of the two leaves it alone. -/
theorem agreeAt_either_order (key : String) : AgreeAt key s' s'' := by
  by_cases hkey : key ∈ t'.touched
  · have hother : key ∉ t.touched := fun hmem => hapart hmem hkey
    exact (agreeAt_either_order_of_not_touched hs hapart.symm hv hv' h h' hother).symm
  · exact agreeAt_either_order_of_not_touched hs hapart h h' hv hv' hkey

end

theorem runSeries_pair_eq_ok :
    runSeries [t, t'] s = .ok s' ↔ ∃ u, t.run s = .ok u ∧ t'.run u = .ok s' := by
  simp only [runSeries_cons_eq_ok]
  constructor
  · rintro ⟨u, h, _, h', ⟨⟩⟩
    exact ⟨u, h, h'⟩
  · rintro ⟨u, h, h'⟩
    exact ⟨u, h, s', h', rfl⟩

/-- Two transactions that touch no key in common run in either order or in none, and both orders
lead to the same accounts, to the same storage under every key and to the same root. -/
theorem runSeries_swap_of_disjoint (hs : s.Reachable) (hapart : t.touched.Disjoint t'.touched) :
    ((∃ s', runSeries [t, t'] s = .ok s') ↔ ∃ s', runSeries [t', t] s = .ok s') ∧
    ∀ s' s'', runSeries [t, t'] s = .ok s' → runSeries [t', t] s = .ok s'' →
      (∀ key, s'.account? key = s''.account? key) ∧
      (∀ key, s'.storage? key = s''.storage? key) ∧ s'.root = s''.root := by
  have hwf : s.WellFormed := hs.wellFormed
  refine ⟨⟨?_, ?_⟩, ?_⟩
  · rintro ⟨s', h⟩
    obtain ⟨u, h, h'⟩ := runSeries_pair_eq_ok.mp h
    obtain ⟨v, hv, s'', hv'⟩ := runs_both_of_runs hwf hapart h h'
    exact ⟨s'', runSeries_pair_eq_ok.mpr ⟨v, hv, hv'⟩⟩
  · rintro ⟨s', h⟩
    obtain ⟨u, h, h'⟩ := runSeries_pair_eq_ok.mp h
    obtain ⟨v, hv, s'', hv'⟩ := runs_both_of_runs hwf hapart.symm h h'
    exact ⟨s'', runSeries_pair_eq_ok.mpr ⟨v, hv, hv'⟩⟩
  · intro s' s'' h h''
    have hs' : s'.WellFormed := runSeries_wellFormed hwf h
    have hs'' : s''.WellFormed := runSeries_wellFormed hwf h''
    obtain ⟨u, h, h'⟩ := runSeries_pair_eq_ok.mp h
    obtain ⟨v, hv, hv'⟩ := runSeries_pair_eq_ok.mp h''
    have hagree : ∀ key, AgreeAt key s' s'' := agreeAt_either_order hwf hapart h h' hv hv'
    exact ⟨fun key => (hagree key).account?, fun key => (hagree key).storage?,
      congrArg Trie.root (hs'.accounts_eq hs'' hagree)⟩

open Latch in
/-- Alice's call and a reward for the miner. -/
theorem runSeries_swap_call_reward : ∃ s s' s'' : State, s.Reachable ∧
    callOfAlice.touched.Disjoint (reward "miner" "reward").touched ∧
    runSeries [callOfAlice, reward "miner" "reward"] s = .ok s' ∧
    runSeries [reward "miner" "reward", callOfAlice] s = .ok s'' ∧
    (∀ key, s'.account? key = s''.account? key) ∧
    (∀ key, s'.storage? key = s''.storage? key) ∧ s'.root = s''.root := by
  obtain ⟨s, hs⟩ := exists_funded
  have hminer := miner_notMem
  simp only [List.mem_cons, not_or] at hminer
  obtain ⟨halice, -, hcontract, -⟩ := hminer
  have hapart : callOfAlice.touched.Disjoint (reward "miner" "reward").touched := by
    show [alice.address, contract.storageKey].Disjoint ["miner"]
    rw [List.disjoint_singleton]
    simp [halice, hcontract]
  obtain ⟨-, u, hcall⟩ := hs.caller_alice.exists_run hs.callable
  have hbalance : u.balanceAt "miner" = s.balanceAt "miner" :=
    (agreeAt_of_not_touched hs.reachable.wellFormed hcall fun hmem =>
      hapart hmem (List.mem_singleton.mpr rfl)).balanceAt
  obtain ⟨s', hreward⟩ : ∃ s', (reward "miner" "reward").run u = .ok s' := by
    refine exists_run_reward ?_
    rw [hbalance, hs.balanceAt_miner]
    decide
  have hboth : runSeries [callOfAlice, reward "miner" "reward"] s = .ok s' :=
    runSeries_pair_eq_ok.mpr ⟨u, hcall, hreward⟩
  obtain ⟨hruns, hsame⟩ := runSeries_swap_of_disjoint hs.reachable hapart
  obtain ⟨s'', hboth'⟩ := hruns.mp ⟨s', hboth⟩
  exact ⟨s, s', s'', hs.reachable, hapart, hboth, hboth', hsame s' s'' hboth hboth'⟩

end Transaction

end WorkLedger
