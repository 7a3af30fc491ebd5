/-
# Who can afford a transfer

A sender needs the value and the whole gas limit.  Their sum may be no 64-bit number; then it
counts as the largest one, and so whoever has the largest balance passes, with whatever value and
gas limit.  Everybody else passes exactly if the balance covers the sum.

The largest balance is also what it takes for a charge to leave its range.  No other amount of a
transfer ever does.
-/
import WorkLedger.Proofs.State.Reached
import WorkLedger.Proofs.Transaction.InPlace
import WorkLedger.Proofs.Transaction.Latch

namespace WorkLedger

namespace Transaction

variable {t : Transaction} {s : State}

theorem payer_eq_ok_iff {sender : Account} :
    t.payer s = .ok sender ↔ s.account? t.sender = some sender ∧
      (t.value.toNat + t.gasLimit.toNat ≤ sender.balance.toNat ∨
        sender.balance.toNat = UInt64.size - 1) := by
  rw [payer_eq_ok, saturatingAdd_le_iff]

/-- What validates or runs has a sender that passed. -/
theorem exists_payer_eq_ok (hdata : t.data = .transact)
    (h : t.validate s = .ok () ∨ ∃ s', t.run s = .ok s') : ∃ sender, t.payer s = .ok sender := by
  rcases h with hvalid | ⟨s', hrun⟩
  · obtain ⟨-, sender, -, -, -, hpayer, -⟩ := (validate_transact_eq_ok hdata).mp hvalid
    exact ⟨sender, hpayer⟩
  · obtain ⟨sender, -, -, -, -, hpayer, -⟩ := writes_of_run_transact hdata hrun
    exact ⟨sender, hpayer⟩

/-- A charge that is no number is one of a sender with the largest balance, who cannot afford
it. -/
theorem Overcharges.exists_full (h : t.Overcharges s) :
    ∃ sender, s.account? t.sender = some sender ∧
      sender.balance.toNat = UInt64.size - 1 ∧
      sender.balance.toNat < t.value.toNat + t.gasLimit.toNat := by
  obtain ⟨-, sender, recipient, gasUsed, storage, hpayer, -, hcall, hwraps⟩ := h
  obtain ⟨hsender, hpasses⟩ := payer_eq_ok_iff.mp hpayer
  have hgas := gasUsed_le hcall
  have hlt := sender.balance.toNat_lt_size
  have hover : sender.balance.toNat < t.value.toNat + t.gasLimit.toNat := by omega
  have hfull := hpasses.resolve_left (Nat.not_le.mpr hover)
  exact ⟨sender, hsender, hfull, hover⟩

/-- A transfer that validates or runs is covered by its sender's balance, or that is the largest
there is.  Unless it is, and is overdrawn, every amount that running works out is in range, and
the state becomes what `run` says, write by write. -/
theorem covered_unless_full (hs : s.Built) (hdata : t.data = .transact) :
    ((t.validate s = .ok () ∨ ∃ s', t.run s = .ok s') →
      ∃ sender, s.account? t.sender = some sender ∧
        (t.value.toNat + t.gasLimit.toNat ≤ sender.balance.toNat ∨
          sender.balance.toNat = UInt64.size - 1)) ∧
    (∀ amount s', t.inPlace.on s = (.error (.leavesRange amount), s') ↔
      amount = .charge ∧ s' = s ∧ t.Overcharges s) ∧
    (t.Overcharges s → ∃ sender, s.account? t.sender = some sender ∧
      sender.balance.toNat = UInt64.size - 1 ∧
      sender.balance.toNat < t.value.toNat + t.gasLimit.toNat) ∧
    (¬t.Overcharges s → Steps.Realizes s t.inPlace s (t.run s)) := by
  have hsound := hs.sound_accounts
  refine ⟨?_, ?_, ?_, ?_⟩
  · intro h
    obtain ⟨sender, hpayer⟩ := exists_payer_eq_ok hdata h
    exact ⟨sender, payer_eq_ok_iff.mp hpayer⟩
  · intro amount s'
    exact inPlace_leavesRange_iff hsound
  · exact Overcharges.exists_full
  · exact inPlace_realizes hsound

end Transaction

namespace Latch

open Transaction in
/-- Alice was paid once, and can afford her call. -/
theorem covered_callOfAlice : ∃ (s : State) (sender : Account),
    s.Built ∧ callOfAlice.data = .transact ∧ callOfAlice.validate s = .ok () ∧
    s.account? callOfAlice.sender = some sender ∧
    callOfAlice.value.toNat + callOfAlice.gasLimit.toNat ≤ sender.balance.toNat ∧
    Steps.Realizes s callOfAlice.inPlace s (callOfAlice.run s) := by
  obtain ⟨s, hs⟩ := exists_funded
  obtain ⟨hvalid, -⟩ := hs.caller_alice.exists_run hs.callable
  obtain ⟨hcovered, -, hfull, hrealizes⟩ :=
    covered_unless_full hs.reachable.built hs.caller_alice.data
  obtain ⟨sender, hsender, hafford⟩ := hcovered (.inl hvalid)
  have hbalance : sender.balance = miningReward := by
    rw [← State.balanceAt_of_account? hsender,
      show callOfAlice.sender = alice.address from rfl, hs.balanceAt, if_pos rfl]
  have hnotFull : sender.balance.toNat ≠ UInt64.size - 1 := by
    rw [hbalance]
    decide
  refine ⟨s, sender, hs.reachable.built, rfl, hvalid, hsender, hafford.resolve_right hnotFull, ?_⟩
  refine hrealizes fun hover => ?_
  obtain ⟨sender', hsender', hfull', -⟩ := hfull hover
  rw [hsender] at hsender'
  cases hsender'
  exact hnotFull hfull'

/-! ## A sender with the largest balance -/

/-- An account that publishes itself with the largest balance. -/
def rich : Account := .new alice.address (UInt64.ofNat (UInt64.size - 1)) []

/-- Alice sends all of the largest balance to the contract. -/
def spend : Transaction where
  id := "everything"
  sender := alice.address
  recipient := contract.storageKey
  value := UInt64.ofNat (UInt64.size - 1)
  gasLimit := 20
  data := .transact
  signature := some {
    r := 0xae670b9d8f4a6ac592384761e87a82e904c231381b247703138d0cade84cc017
    s := 0x25d8743cbc82832dd395afc7cd2a57534ea40d56e8f22a1c65f0229e40eb7252
    r_range := by decide
    s_range := by decide }

theorem isSigned_spend : spend.isSigned = true := by
  have hpayload : digestOf spend.signingPayload =
      .ofNumber 0x2fbdaf858da2d8049704c7176d5c6af90c8bf9086627afa34531d9ec2d54f72f := by
    rw [digestOf_eq_digestOfBytes, Transaction.normalize_toJson]
    decide +kernel
  exact isSigned_of_verifies rfl rfl (by decide +kernel) hpayload (by decide +kernel)

/-- The state after the rich account and the contract were published. -/
theorem exists_rich : ∃ s : State, s.Reachable ∧
    s.bareAt alice.address = some rich.bare ∧ s.balanceAt alice.address = rich.balance ∧
    Transaction.Callable s contract.storageKey 20 12 latched := by
  have hempty : State.empty.WellFormed := State.wellFormed_empty
  have hnobody : ∀ key, State.empty.bareAt key = none := fun key =>
    State.bareAt_eq_none.mpr (State.account?_empty key)
  have hzero : ∀ key, State.empty.balanceAt key = 0 := fun key =>
    State.balanceAt_of_none (State.account?_empty key)
  have hac : alice.address ≠ contract.storageKey := distinct.2.1
  have hkey : rich.storageKey = alice.address := rfl
  have hrich : (Transaction.createAccount rich "rich").accountSnapshot = .ok rich :=
    Transaction.accountSnapshot_createAccount "rich" rfl rfl
  obtain ⟨-, s₁, h₁⟩ := Transaction.exists_run_publication hrich (hnobody _)
  have hs₁ := Transaction.run_wellFormed hempty h₁
  have hbare₁ := Transaction.bareAt_run_publication hempty hrich h₁
  have hbalance₁ := Transaction.balanceAt_run_publication hempty hrich h₁
  have hcontract := accountSnapshot_publish "publish"
  have hfree : s₁.bareAt contract.storageKey = none := by
    rw [hbare₁, hnobody, hkey, if_neg hac.symm]
    rfl
  obtain ⟨-, s₂, h₂⟩ := Transaction.exists_run_publication hcontract hfree
  have hbare₂ := Transaction.bareAt_run_publication hs₁ hcontract h₂
  have hbalance₂ := Transaction.balanceAt_run_publication hs₁ hcontract h₂
  have hcode : s₂.codeAt contract.storageKey = code := by
    unfold State.codeAt
    rw [hbare₂, hfree, if_pos rfl]
    rfl
  refine ⟨s₂, .run (.run .empty h₁) h₂, ?_, ?_, ?_⟩
  · rw [hbare₂, hbare₁, hnobody, hkey, if_pos rfl]
    rfl
  · rw [hbalance₂, hbalance₁, hzero, hkey, if_pos rfl, if_neg hac, UInt64.zero_add,
      UInt64.add_zero]
  · refine ⟨?_, ?_, by decide, ?_⟩
    · rw [hcode]
      exact List.cons_ne_nil _ _
    · rw [hcode, Transaction.storageAt_run_publication hcontract h₂,
        Transaction.storageAt_run_publication hrich h₁, State.storageAt_empty]
      exact ⟨none, runOnTrie_empty⟩
    · rw [hbalance₂, hbalance₁, hzero, hkey, if_neg hac.symm, if_pos rfl]
      decide

/-- A transfer that validates and runs although its sender, who has the largest balance, cannot
afford it.  Its charge is no 64-bit number; wrapped around it comes to 11, which is all that the
sender pays. -/
theorem exists_overdraft : ∃ (t : Transaction) (s s' : State) (sender : Account),
    s.Reachable ∧ t.data = .transact ∧ s.account? t.sender = some sender ∧
    sender.balance.toNat < t.value.toNat + t.gasLimit.toNat ∧
    t.validate s = .ok () ∧ t.run s = .ok s' ∧
    s'.balanceAt t.sender = sender.balance - 11 ∧
    t.inPlace.on s = (.error (.leavesRange .charge), s) := by
  obtain ⟨s, hs, hbare, hbalance, hcallable⟩ := exists_rich
  have hsome : (s.bareAt spend.sender).isSome := Option.isSome_of_eq_some hbare
  obtain ⟨sender, hsender⟩ := Transaction.exists_account?_of_isSome_bareAt hsome
  have hrich : sender.balance = rich.balance :=
    (State.balanceAt_of_account? hsender).symm.trans hbalance
  have hfull : sender.balance.toNat = UInt64.size - 1 := by
    rw [hrich]
    rfl
  have hpayer : spend.payer s = .ok sender :=
    Transaction.payer_eq_ok_iff.mpr ⟨hsender, .inr hfull⟩
  obtain ⟨recipient, hpayee, hcall, hbalance'⟩ : ∃ a, spend.payee s = .ok a ∧
      spend.call s a = .ok (12, some latched) ∧ a.balance = s.balanceAt spend.recipient :=
    hcallable.exists_call
  have hvalid : spend.validate s = .ok () := (Transaction.validate_transact_eq_ok rfl).mpr
    ⟨isSigned_spend, sender, recipient, 12, some latched, hpayer, hpayee, hcall⟩
  have hover : spend.Overcharges s :=
    ⟨rfl, sender, recipient, 12, some latched, hpayer, hpayee, hcall, by decide⟩
  have hroom : spend.sender ≠ spend.recipient →
      recipient.balance.toNat + (spend.charged 12).toNat < UInt64.size := by
    intro
    have hroom := hcallable.room
    have hcharged : (spend.charged 12).toNat < (12 : UInt64).toNat := by decide
    rw [hbalance']
    exact Nat.lt_trans (Nat.add_lt_add_left hcharged _) hroom
  obtain ⟨s', hrun⟩ := Transaction.exists_run_transact rfl hpayer hpayee hcall hroom
  have hpays := Transaction.balanceAt_run hs.wellFormed hrun spend.sender
  have hne : spend.sender ≠ spend.recipient := distinct.2.1
  have hchange : spend.change spend.sender = 1 := by
    show (if spend.sender = spend.recipient then spend.value else 0) -
      (if spend.sender = spend.sender then spend.value else 0) = 1
    rw [if_neg hne, if_pos rfl]
    decide
  rw [Transaction.gasUsed_of_call rfl hpayee hcall, hchange, if_pos rfl, if_neg hne,
    State.balanceAt_of_account? hsender] at hpays
  refine ⟨spend, s, s', sender, hs, rfl, hsender, ?_, hvalid, hrun, ?_, hover.inPlace_on⟩
  · rw [hfull]
    decide
  · grind

end Latch

end WorkLedger
