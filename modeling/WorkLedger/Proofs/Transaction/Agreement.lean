/-
# Validation and execution

The rules of a transfer are written down twice, once where it is validated and once where it is
run.  What validation refuses, running refuses with the same error; what validates runs, unless
the recipient cannot take the charge, which only running looks at.  The signature is the one thing
that only validation looks at.  A publication is checked in one place, which both go through.  A
reward is validated by its value alone, and runs unless the beneficiary cannot take it.

A transaction that fails has written nothing.
-/
import WorkLedger.Proofs.State.Reached
import WorkLedger.Proofs.Transaction.InPlace
import WorkLedger.Proofs.Transaction.Latch

namespace WorkLedger.Transaction

variable {t : Transaction} {s s' : State} {e : TransactionError}

/-! ## Outcomes -/

/-- Running fails, and in place it stops with nothing written. -/
def FailsWith (t : Transaction) (s : State) (e : TransactionError) : Prop :=
  t.run s = .error e ∧ t.inPlace.on s = (.error (.refused e), s)

/-- Running comes to a state, and in place it ends in it. -/
def LeadsTo (t : Transaction) (s s' : State) : Prop :=
  t.run s = .ok s' ∧ t.inPlace.on s = (.ok (), s')

section

variable (hs : s.accounts.Sound) (hcharge : ¬t.Overcharges s)
include hs hcharge

theorem failsWith_iff : t.FailsWith s e ↔ t.run s = .error e := by
  refine ⟨fun h => h.1, fun h => ⟨h, ?_⟩⟩
  have hrealizes := inPlace_realizes hs hcharge
  rw [h] at hrealizes
  exact hrealizes

theorem leadsTo_iff : t.LeadsTo s s' ↔ t.run s = .ok s' := by
  refine ⟨fun h => h.1, fun h => ⟨h, ?_⟩⟩
  have hrealizes := inPlace_realizes hs hcharge
  rw [h] at hrealizes
  exact hrealizes

end

/-! ## Transfers -/

section Transfer

variable (hdata : t.data = .transact)
include hdata

/-- Every rule is applied again, in the same order and to the same accounts. -/
theorem run_eq_error_of_validate (hsigned : t.isSigned = true) (h : t.validate s = .error e) :
    t.run s = .error e := by
  simp only [validate, hdata, validateTransact, hsigned, Bool.not_true, Bool.false_eq_true,
    if_false] at h
  simp only [run, hdata, runTransact]
  rcases bind_eq_error.mp h with hpayer | ⟨sender, hpayer, h⟩
  · exact bind_eq_error.mpr (.inl hpayer)
  rcases bind_eq_error.mp h with hpayee | ⟨recipient, hpayee, h⟩
  · exact bind_eq_error.mpr (.inr ⟨sender, hpayer, bind_eq_error.mpr (.inl hpayee)⟩)
  rcases bind_eq_error.mp h with hcall | ⟨_, -, h⟩
  · refine bind_eq_error.mpr (.inr ⟨sender, hpayer, bind_eq_error.mpr (.inr ?_)⟩)
    exact ⟨recipient, hpayee, bind_eq_error.mpr (.inl hcall)⟩
  · cases h

/-- Only the room on the recipient's side is looked at for the first time. -/
theorem run_of_validate (h : t.validate s = .ok ()) :
    (∃ s', t.run s = .ok s') ∨ t.run s = .error (.balanceOverflow t.recipient) := by
  obtain ⟨-, sender, recipient, gasUsed, storage, hpayer, hpayee, hcall⟩ :=
    (validate_transact_eq_ok hdata).mp h
  by_cases hfull : t.sender ≠ t.recipient ∧
      UInt64.size ≤ recipient.balance.toNat + (t.charged gasUsed).toNat
  · right
    have hfull' : t.sender ≠ t.recipient ∧
      UInt64.size ≤ recipient.balance.toNat + (t.value + gasUsed).toNat := hfull
    simp only [run, hdata, runTransact, hpayer, hpayee, ok_bind, hcall, if_pos hfull']
    rfl
  · left
    refine exists_run_transact hdata hpayer hpayee hcall fun hne => ?_
    exact Nat.not_le.mp fun hle => hfull ⟨hne, hle⟩

theorem validate_of_run (hsigned : t.isSigned = true) (h : t.run s = .ok s') :
    t.validate s = .ok () := by
  obtain ⟨sender, recipient, gasUsed, storage, -, hpayer, hpayee, hcall, -⟩ :=
    writes_of_run_transact hdata h
  exact (validate_transact_eq_ok hdata).mpr
    ⟨hsigned, sender, recipient, gasUsed, storage, hpayer, hpayee, hcall⟩

end Transfer

/-! ## Publications and rewards -/

theorem validate_createAccount_eq_ok {fields : Json.Object}
    (hdata : t.data = .createAccount fields) :
    t.validate s = .ok () ↔ ∃ s', t.run s = .ok s' := by
  simp only [validate, hdata, validateCreateAccount_eq_ok, run_createAccount_eq_ok hdata]
  constructor
  · rintro ⟨a, ha⟩
    exact ⟨s.putAccount a.storageKey a, a, ha, rfl⟩
  · rintro ⟨-, a, ha, -⟩
    exact ⟨a, ha⟩

theorem validate_createAccount_eq_error {fields : Json.Object}
    (hdata : t.data = .createAccount fields) : t.validate s = .error e ↔ t.run s = .error e := by
  simp only [validate, run, hdata, validateCreateAccount, runCreateAccount]
  cases t.newAccount s with
  | error e' =>
      constructor
      · rintro ⟨⟩
        rfl
      · rintro ⟨⟩
        rfl
  | ok a =>
      constructor
      · intro h
        cases h
      · intro h
        cases h

theorem run_reward_eq_error (hdata : t.data = .miningReward) :
    t.run s = .error e ↔ e = .balanceOverflow t.recipient ∧
      UInt64.size ≤ (s.balanceAt t.recipient).toNat + t.value.toNat := by
  rw [← balance_rewarded]
  simp only [run, hdata, runReward, rewarded]
  split
  · rename_i hfull
    constructor
    · rintro ⟨⟩
      exact ⟨rfl, hfull⟩
    · rintro ⟨rfl, -⟩
      rfl
  · rename_i hroom
    constructor
    · intro h
      cases h
    · intro h
      exact absurd h.2 hroom

/-! ## All kinds -/

/-- On one state, and as long as value and gas are a 64-bit number together: a signed transfer that
is refused by validation is refused by running, with the same error; one that validates runs,
unless the recipient's balance would overflow; and one that runs validates.  A publication
validates exactly if it runs, and fails alike.  A reward that validates fails only if the
balance of its account would overflow.  Whatever fails leaves the state as it is. -/
theorem validate_agrees_with_run (hs : s.Built)
    (hfits : t.value.toNat + (t.gasUsed s).toNat < UInt64.size) :
    (t.data = .transact → t.isSigned = true →
      (∀ e, t.validate s = .error e → t.FailsWith s e) ∧
      (t.validate s = .ok () →
        (∃ s', t.LeadsTo s s') ∨ t.FailsWith s (.balanceOverflow t.recipient)) ∧
      (∀ s', t.run s = .ok s' → t.validate s = .ok ())) ∧
    (∀ fields, t.data = .createAccount fields →
      (t.validate s = .ok () ↔ ∃ s', t.LeadsTo s s') ∧
      ∀ e, t.validate s = .error e ↔ t.FailsWith s e) ∧
    (t.data = .miningReward → t.validate s = .ok () →
      (∀ e, t.FailsWith s e ↔ e = .balanceOverflow t.recipient ∧
        UInt64.size ≤ (s.balanceAt t.recipient).toNat + t.value.toNat) ∧
      ((s.balanceAt t.recipient).toNat + t.value.toNat < UInt64.size → ∃ s', t.LeadsTo s s')) := by
  have hcharge : ¬t.Overcharges s := fun h => Nat.not_le.mpr hfits h.size_le
  have hsound := hs.sound_accounts
  simp only [failsWith_iff hsound hcharge, leadsTo_iff hsound hcharge]
  refine ⟨?transfer, ?publication, ?reward⟩
  case transfer =>
    intro hdata hsigned
    refine ⟨?_, run_of_validate hdata, ?_⟩
    · intro e h
      exact run_eq_error_of_validate hdata hsigned h
    · intro s' h
      exact validate_of_run hdata hsigned h
  case publication =>
    intro fields hdata
    refine ⟨validate_createAccount_eq_ok hdata, ?_⟩
    intro e
    exact validate_createAccount_eq_error hdata
  case reward =>
    intro hdata _
    refine ⟨?_, ?_⟩
    · intro e
      exact run_reward_eq_error hdata
    · intro hroom
      refine ⟨_, (run_reward_eq_ok hdata).mpr ⟨?_, rfl⟩⟩
      rw [balance_rewarded]
      exact hroom

open Latch in
/-- Alice's call, the publication of the contract, and a reward, each where it runs. -/
theorem validate_agrees_with_run_each : ∃ s : State, s.Built ∧
    callOfAlice.value.toNat + (callOfAlice.gasUsed s).toNat < UInt64.size ∧
    callOfAlice.data = .transact ∧ callOfAlice.isSigned = true ∧
    callOfAlice.validate s = .ok () ∧
    ((∃ s', callOfAlice.LeadsTo s s') ∨
      callOfAlice.FailsWith s (.balanceOverflow callOfAlice.recipient)) ∧
    (createAccount contract "publish").validate .empty = .ok () ∧
    (∃ s', (createAccount contract "publish").LeadsTo .empty s') ∧
    (reward "miner" "reward").validate .empty = .ok () ∧
    ∃ s', (reward "miner" "reward").LeadsTo .empty s' := by
  obtain ⟨s, hs⟩ := exists_funded
  have hgas : callOfAlice.gasUsed s = 12 := hs.caller_alice.gasUsed hs.callable
  have hfits : callOfAlice.value.toNat + (callOfAlice.gasUsed s).toNat < UInt64.size := by
    rw [hgas]
    decide
  obtain ⟨hvalid, -⟩ := hs.caller_alice.exists_run hs.callable
  obtain ⟨htransfer, -, -⟩ := validate_agrees_with_run hs.reachable.built hfits
  obtain ⟨-, hleads, -⟩ := htransfer rfl isSigned_callOfAlice
  have hnobody : State.empty.bareAt contract.storageKey = none :=
    State.bareAt_eq_none.mpr (State.account?_empty _)
  obtain ⟨hpublishes, -⟩ := exists_run_publication (accountSnapshot_publish "publish") hnobody
  have hpublication : ((createAccount contract "publish").value.toNat +
      ((createAccount contract "publish").gasUsed .empty).toNat < UInt64.size) := by decide
  obtain ⟨-, hpublished, -⟩ := validate_agrees_with_run .empty hpublication
  have hreward : ((reward "miner" "reward").value.toNat +
      ((reward "miner" "reward").gasUsed .empty).toNat < UInt64.size) := by decide
  obtain ⟨-, -, hpaid⟩ := validate_agrees_with_run .empty hreward
  obtain ⟨-, hpays⟩ := hpaid rfl rfl
  have hroom : (State.empty.balanceAt "miner").toNat + miningReward.toNat < UInt64.size := by
    rw [State.balanceAt_of_none (State.account?_empty _)]
    decide
  exact ⟨s, hs.reachable.built, hfits, rfl, isSigned_callOfAlice, hvalid, hleads hvalid,
    hpublishes, (hpublished _ rfl).1.mp hpublishes, rfl, hpays hroom⟩

end WorkLedger.Transaction
