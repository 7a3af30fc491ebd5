/-
# Nobody pays without a signature

An accepted block leaves every account in place, with its address and its code.  It may take
from the balance only what the owner of the key signed for, and it may write to the storage
only if it calls the key.  Publications and rewards, which nobody signs, take nothing from
anyone.
-/
import WorkLedger.Proofs.Block.Commitment
import WorkLedger.Proofs.State.Reached
import WorkLedger.Proofs.Transaction.Debit

namespace WorkLedger

namespace Block

variable {last b : Block} {s s' : State} {key : String}

/-- Whoever is there before a series is there after it. -/
theorem exists_account?_of_runSeries {series : List Transaction} {a : Account}
    (hs : s.accounts.Sound) (h : Transaction.runSeries series s = .ok s')
    (ha : s.account? key = some a) : ∃ a', s'.account? key = some a' ∧ a'.bare = a.bare := by
  have hbare : s'.bareAt key = some a.bare := by
    rw [Transaction.bareAt_runSeries hs h, State.bareAt_of_account? ha]
    rfl
  exact Option.map_eq_some_iff.mp hbare

/-- A key that nobody calls keeps its storage. -/
theorem storageAt_of_not_called {series : List Transaction} (hs : s.accounts.Sound)
    (h : Transaction.runSeries series s = .ok s')
    (hcalls : ∀ t ∈ series, t.data = .transact → t.recipient ≠ key) :
    s'.storageAt key = s.storageAt key := by
  have hcount : series.countP (fun t => t.calls key) = 0 := by
    refine List.countP_eq_zero.mpr fun t ht hcall => ?_
    obtain ⟨hdata, hrecipient⟩ : t.data = .transact ∧ t.recipient = key := by
      simpa [Transaction.calls] using hcall
    exact hcalls t ht hdata hrecipient
  rw [Transaction.storageAt_runSeries hs h, hcount]
  rfl

/-- Every transfer of an accepted block is signed by its sender. -/
theorem isSigned_of_mem (h : Block.validate last b s = .ok ()) {t : Transaction}
    (ht : t ∈ b.transactions) (hdata : t.data = .transact) : t.isSigned = true := by
  obtain ⟨s', hseries⟩ := validateAndRun_of_validate h
  obtain ⟨before, hvalid⟩ := Transaction.validate_of_mem hseries ht
  exact Transaction.isSigned_of_validate hdata hvalid

/-- An accepted block runs, and every account is there afterwards with its address and its code.
Its balance is smaller at most by the values and gas limits of the transfers that its key sends
in the block, all of which are signed for the key; and its storage is untouched if no transfer
goes to its key. -/
theorem debits_are_signed (hs : s.Built) (h : Block.validate last b s = .ok ()) :
    ∃ s', b.run s = .ok s' ∧ ∀ key a, s.account? key = some a →
      (∃ a', s'.account? key = some a' ∧
        a'.address = a.address ∧ a'.code = a.code ∧ a'.codeHash = a.codeHash ∧
        a.balance.toNat ≤
          a'.balance.toNat + (b.transactions.map fun t => t.cost key).sum) ∧
      (∀ t ∈ b.transactions, t.data = .transact → t.sender = key →
        ∃ g, t.signature = some g ∧ verifySignature key t.signingPayload g = true) ∧
      ((∀ t ∈ b.transactions, t.data = .transact → t.recipient ≠ key) →
        ∀ slot, (s'.storageAt key).get? slot = (s.storageAt key).get? slot) := by
  obtain ⟨s', hrun⟩ := run_of_validate h
  have hsound := hs.sound_accounts
  refine ⟨s', hrun, fun key a ha => ⟨?_, ?_, ?_⟩⟩
  · obtain ⟨a', ha', hbare⟩ := exists_account?_of_runSeries hsound hrun ha
    have hbalance := Transaction.balanceAt_le_of_runSeries hsound hrun key
    rw [State.balanceAt_of_account? ha, State.balanceAt_of_account? ha'] at hbalance
    have haddress : a'.bare.address = a.bare.address := by rw [hbare]
    have hcode : a'.bare.code = a.bare.code := by rw [hbare]
    have hhash : a'.bare.codeHash = a.bare.codeHash := by rw [hbare]
    exact ⟨a', ha', haddress, hcode, hhash, hbalance⟩
  · intro t ht hdata hsender
    rw [← hsender]
    exact Transaction.isSigned_iff.mp (isSigned_of_mem h ht hdata)
  · intro hcalls slot
    rw [storageAt_of_not_called hsound hrun hcalls]

end Block

open Latch in
/-- A block of two signed calls: what it takes from the first caller is bounded by the call. -/
theorem Block.exists_debit_of_alice : ∃ (b : Block) (s s' : State) (a a' : Account),
    s.Built ∧ Block.validate genesis b s = .ok () ∧ b.run s = .ok s' ∧
      s.account? alice.address = some a ∧ s'.account? alice.address = some a' ∧
      callOfAlice ∈ b.transactions ∧ callOfAlice.sender = alice.address ∧
      a.balance.toNat ≤ a'.balance.toNat + (b.transactions.map fun t => t.cost alice.address).sum ∧
      ∃ g, callOfAlice.signature = some g ∧
        verifySignature alice.address callOfAlice.signingPayload g = true := by
  obtain ⟨s, hs⟩ := exists_funded
  obtain ⟨hab, hac, hbc⟩ := distinct
  let b := afterGenesis "miner" "reward" aliceFirst s
  obtain ⟨_, hseries, -⟩ : ∃ s', Transaction.validateAndRun b.transactions s = .ok s' ∧ _ :=
    hs.exists_run hs.caller_alice hs.caller_bob hab.symm hac.symm hbc.symm miner_notMem
  have hvalid : Block.validate genesis b s = .ok () :=
    validate_eq_ok.mpr (.inr (accepted_afterGenesis (by decide)
      (show ["first", "second", "reward"].Nodup by decide) hseries))
  obtain ⟨a, ha⟩ := Transaction.exists_account?_of_isSome_bareAt hs.caller_alice.sender
  obtain ⟨s', hrun, hkept⟩ := debits_are_signed hs.reachable.built hvalid
  obtain ⟨⟨a', ha', -, -, -, hbalance⟩, hsigned, -⟩ := hkept alice.address a ha
  have hmem : callOfAlice ∈ b.transactions := List.mem_cons_self
  exact ⟨b, s, s', a, a', hs.reachable.built, hvalid, hrun, ha, ha', hmem, rfl, hbalance,
    hsigned _ hmem rfl rfl⟩

end WorkLedger
