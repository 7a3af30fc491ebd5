/-
# A contract whose first call is the dearest

Code that sets a slot of its storage unless it is set already, so that the first call costs
more gas than the calls after it.  Two owners of keys have been paid and can call it, each with
a signature of their own.
-/
import WorkLedger.Proofs.Digest.Sponge
import WorkLedger.Proofs.Text.Hex
import WorkLedger.Proofs.Transaction.Progress
import WorkLedger.Proofs.Transaction.Published

namespace WorkLedger.Latch

/-! ## The contract -/

/-- A whole number as a slot of code. -/
def number (n : Int) (h : FitsInt64 n) : Word := .number (.ofInt n h)

/-- Code that sets slot 0 if it is not set, so that the first call is the dearest. -/
def code : List Word :=
  [.ofOpcode .push, number 11 (by decide), .ofOpcode .push, .number .zero,
    .ofOpcode .load, .ofOpcode .jumpi, .ofOpcode .push, .number .one,
    .ofOpcode .push, .number .zero, .ofOpcode .store, .ofOpcode .stop]

/-- The contract of that code. -/
def contract : Account where
  address := "owner"
  balance := 0
  code := code
  codeHash := some (.ofNumber 0xa6b3a47c0de6f51edff40fdbeec07ad1fc8fd3591e3a30aa93ddc984012eee7c)
  storageRoot := none

/-- The storage once slot 0 is set. -/
def latched : Trie Word := .ofNode (Trie.Node.empty.put "number:0" (.number .one))

theorem runOnTrie_empty : runOnTrie code .empty = (.ok ⟨none, 12⟩, latched) := rfl

theorem runOnTrie_latched : runOnTrie code latched = (.ok ⟨none, 7⟩, latched) := rfl

theorem codeHash_contract : contract.codeHash = Account.codeHashOf contract.address code := by
  show _ = some (digestOf (Json.arr [.str contract.address, toJson code]))
  rw [digestOf_eq_digestOfBytes]
  decide +kernel

theorem accountSnapshot_publish (id : String) :
    (Transaction.createAccount contract id).accountSnapshot = .ok contract :=
  Transaction.accountSnapshot_createAccount id codeHash_contract rfl

/-! ## Signed calls -/

/-- A call of the contract. -/
def call (key : PublicKey) (id : String) (g : Signature) : Transaction :=
  ⟨id, key.address, contract.storageKey, 0, 20, .transact, some g⟩

/-- The key of the secret 1. -/
def alice : PublicKey := ⟨Curve.generator⟩

/-- The key of the secret 2. -/
def bob : PublicKey where
  point := {
    x := 0xc6047f9441ed7d6d3045406e95c07cd85c778e4b8cef3ca7abac09b95c709ee5
    y := 0x1ae168fea63dc339a3c58419466ceaeef7f632653266d0e1236431a950cfe52a }

/-- Alice's call. -/
def callOfAlice : Transaction :=
  call alice "first" {
    r := 0x56555dd2176f964e2682127a29f5eeeeb36e7ae9d1d571d26e34709ec2c72d0c
    s := 0x258145325b850f5cafec8c9642322004ad96af9157f2621f45b67492ea35640b
    r_range := by decide
    s_range := by decide }

/-- Bob's call. -/
def callOfBob : Transaction :=
  call bob "second" {
    r := 0xd326466b6dbdc8f5047ba95b0602dfa196176963a7d654e335adc98160d65eb2
    s := 0x3f3296f8537162fe6d6ce19d3c76c47ec693fe3b18826564fce224820334f826
    r_range := by decide
    s_range := by decide }

/-- A transaction is signed if its signature is that of the digest of its payload. -/
theorem isSigned_of_verifies {t : Transaction} {key : PublicKey} {g : Signature}
    {payload : Digest} (hsender : t.sender = key.address) (hsignature : t.signature = some g)
    (hkey : Curve.lift? key.point.x = some key.point)
    (hpayload : digestOf t.signingPayload = payload)
    (hverifies : key.verifies payload.bytes g = true) : t.isSigned = true := by
  simp only [Transaction.isSigned, hsignature, hsender, verifySignature,
    PublicKey.ofAddress?_address hkey, hpayload, hverifies]

theorem isSigned_callOfAlice : callOfAlice.isSigned = true := by
  have hpayload : digestOf callOfAlice.signingPayload =
      .ofNumber 0x72e749a913f5cb73a2f2e677c4c0cc7a69fbcdf56645c99cd1ccb6da622f258c := by
    rw [digestOf_eq_digestOfBytes, Transaction.normalize_toJson]
    decide +kernel
  exact isSigned_of_verifies rfl rfl (by decide +kernel) hpayload (by decide +kernel)

theorem isSigned_callOfBob : callOfBob.isSigned = true := by
  have hpayload : digestOf callOfBob.signingPayload =
      .ofNumber 0xe16a5bf3638452011d49c11edb4cbe7e85c625862a42522832ef91d8e03e0bca := by
    rw [digestOf_eq_digestOfBytes, Transaction.normalize_toJson]
    decide +kernel
  exact isSigned_of_verifies rfl rfl (by decide +kernel) hpayload (by decide +kernel)

/-! ## States on which both can call -/

/-- What is under each key when both callers have been paid and the contract is published. -/
structure Funded (s : State) : Prop where
  reachable : s.Reachable
  bareAt : ∀ key, s.bareAt key =
    if key = alice.address then some (.new key 0 [])
    else if key = bob.address then some (.new key 0 [])
    else if key = contract.storageKey then some contract.bare
    else none
  balanceAt : ∀ key, s.balanceAt key =
    if key = alice.address then miningReward else if key = bob.address then miningReward else 0
  storageAt : ∀ key, s.storageAt key = .empty

theorem distinct : alice.address ≠ bob.address ∧ alice.address ≠ contract.storageKey ∧
    bob.address ≠ contract.storageKey := by
  refine ⟨?_, ?_, ?_⟩ <;> decide +kernel

theorem miner_notMem : "miner" ∉ [alice.address, bob.address, contract.storageKey] := by
  decide +kernel

/-- The state after a reward for each caller. -/
theorem exists_paid : ∃ s : State, s.Reachable ∧
    (∀ key, s.bareAt key =
      (if key = alice.address then some (.new key 0 []) else none).or
        (if key = bob.address then some (.new key 0 []) else none)) ∧
    (∀ key, s.balanceAt key =
      if key = alice.address then miningReward else if key = bob.address then miningReward else 0) ∧
    ∀ key, s.storageAt key = .empty := by
  have hempty : State.empty.WellFormed := State.wellFormed_empty
  have hzero : ∀ key, State.empty.balanceAt key = 0 := fun key =>
    State.balanceAt_of_none (State.account?_empty key)
  have hab := distinct.1
  obtain ⟨s₁, h₁⟩ : ∃ s', (Transaction.reward alice.address "pay alice").run .empty = .ok s' :=
    Transaction.exists_run_reward (by rw [hzero]; decide)
  have hs₁ := Transaction.run_wellFormed hempty h₁
  obtain ⟨s₂, h₂⟩ : ∃ s', (Transaction.reward bob.address "pay bob").run s₁ = .ok s' := by
    refine Transaction.exists_run_reward ?_
    rw [Transaction.balanceAt_run_reward hempty h₁, hzero, if_neg hab.symm]
    decide
  refine ⟨s₂, .run (.run .empty h₁) h₂, fun key => ?_, fun key => ?_, fun key => ?_⟩
  · rw [Transaction.bareAt_run_reward hs₁ h₂, Transaction.bareAt_run_reward hempty h₁,
      State.bareAt_eq_none.mpr (State.account?_empty key), Option.none_or]
  · rw [Transaction.balanceAt_run_reward hs₁ h₂, Transaction.balanceAt_run_reward hempty h₁, hzero,
      UInt64.zero_add]
    by_cases ha : key = alice.address
    · rw [if_pos ha, if_pos ha, if_neg (ha ▸ hab), UInt64.add_zero]
    · rw [if_neg ha, if_neg ha, UInt64.zero_add]
  · rw [Transaction.storageAt_run_reward h₂, Transaction.storageAt_run_reward h₁,
      State.storageAt_empty]

theorem exists_funded : ∃ s, Funded s := by
  obtain ⟨s, hreachable, hbare, hbalance, hstorage⟩ := exists_paid
  obtain ⟨-, hac, hbc⟩ := distinct
  have hs := hreachable.wellFormed
  have hnone : s.account? contract.storageKey = none := by
    rw [← State.bareAt_eq_none, hbare, if_neg hac.symm, if_neg hbc.symm]
    rfl
  have hsnapshot := accountSnapshot_publish "publish"
  have hrun : (Transaction.createAccount contract "publish").run s = _ :=
    (Transaction.run_createAccount_eq_ok rfl).mpr
      ⟨contract, Transaction.newAccount_eq_ok.mpr ⟨hsnapshot, hnone⟩, rfl⟩
  refine ⟨_, .run hreachable hrun, fun key => ?_, fun key => ?_, fun key => ?_⟩
  · rw [Transaction.bareAt_run_publication hs hsnapshot hrun, hbare]
    by_cases ha : key = alice.address
    · rw [if_pos ha, if_pos ha]
      rfl
    · rw [if_neg ha, if_neg ha]
      by_cases hb : key = bob.address
      · rw [if_pos hb, if_pos hb]
        rfl
      · rw [if_neg hb, if_neg hb]
        rfl
  · have hfree : contract.balance = 0 := rfl
    rw [Transaction.balanceAt_run_publication hs hsnapshot hrun, hbalance, hfree, ite_self,
      UInt64.add_zero]
  · rw [Transaction.storageAt_run_publication hsnapshot hrun, hstorage]

section

variable {s : State} {k k' : PublicKey} {id id' : String} {g g' : Signature}

theorem Funded.bareAt_contract (hs : Funded s) :
    s.bareAt contract.storageKey = some contract.bare := by
  obtain ⟨-, hac, hbc⟩ := distinct
  rw [hs.bareAt, if_neg hac.symm, if_neg hbc.symm, if_pos rfl]

theorem Funded.codeAt_contract (hs : Funded s) : s.codeAt contract.storageKey = code := by
  unfold State.codeAt
  rw [hs.bareAt_contract]
  rfl

theorem Funded.balanceAt_contract (hs : Funded s) : s.balanceAt contract.storageKey = 0 := by
  obtain ⟨-, hac, hbc⟩ := distinct
  rw [hs.balanceAt, if_neg hac.symm, if_neg hbc.symm]

theorem Funded.caller_alice (hs : Funded s) : callOfAlice.Caller s where
  data := rfl
  signed := isSigned_callOfAlice
  value := rfl
  sender := by
    rw [show callOfAlice.sender = alice.address from rfl, hs.bareAt, if_pos rfl]
    rfl
  recipient := by
    rw [show callOfAlice.recipient = contract.storageKey from rfl, hs.bareAt_contract]
    rfl
  funds := by
    rw [show callOfAlice.sender = alice.address from rfl, hs.balanceAt, if_pos rfl]
    decide

theorem Funded.caller_bob (hs : Funded s) : callOfBob.Caller s where
  data := rfl
  signed := isSigned_callOfBob
  value := rfl
  sender := by
    rw [show callOfBob.sender = bob.address from rfl, hs.bareAt, if_neg distinct.1.symm, if_pos rfl]
    rfl
  recipient := by
    rw [show callOfBob.recipient = contract.storageKey from rfl, hs.bareAt_contract]
    rfl
  funds := by
    rw [show callOfBob.sender = bob.address from rfl, hs.balanceAt, if_neg distinct.1.symm,
      if_pos rfl]
    decide

theorem Funded.callable (hs : Funded s) :
    Transaction.Callable s contract.storageKey 20 12 latched where
  contract := by
    rw [hs.codeAt_contract]
    exact List.cons_ne_nil _ _
  runs := by
    rw [hs.codeAt_contract, hs.storageAt]
    exact ⟨none, runOnTrie_empty⟩
  limit := by decide
  room := by
    rw [hs.balanceAt_contract]
    decide

theorem Funded.balanceAt_miner (hs : Funded s) : s.balanceAt "miner" = 0 := by
  have hminer := miner_notMem
  simp only [List.mem_cons, not_or] at hminer
  rw [hs.balanceAt, if_neg hminer.1, if_neg hminer.2.1]

/-- Whoever calls first pays for setting the slot. -/
theorem Funded.exists_run (hs : Funded s) (ht : (call k id g).Caller s)
    (hu : (call k' id' g').Caller s) (hkeys : k'.address ≠ k.address)
    (hk : contract.storageKey ≠ k.address) (hk' : contract.storageKey ≠ k'.address)
    (hminer : "miner" ∉ [k.address, k'.address, contract.storageKey]) :
    ∃ s', Transaction.validateAndRun
        [call k id g, call k' id' g', .reward "miner" "reward"] s = .ok s' ∧
      ∀ key, Transaction.gasPaid key [call k id g, call k' id' g', .reward "miner" "reward"] s =
        (if key = k.address then 12 else 0) + (if key = k'.address then 7 else 0) := by
  have hruns : ∃ result, runOnTrie (s.codeAt contract.storageKey) latched =
      (.ok ⟨result, 7⟩, latched) := by
    rw [hs.codeAt_contract]
    exact ⟨none, runOnTrie_latched⟩
  have hroom : (s.balanceAt contract.storageKey).toNat + (12 : UInt64).toNat + (7 : UInt64).toNat <
      UInt64.size := by
    rw [hs.balanceAt_contract]
    decide
  have hreward : (s.balanceAt "miner").toNat + miningReward.toNat < UInt64.size := by
    rw [hs.balanceAt_miner]
    decide
  exact Transaction.exists_run_callers hs.reachable.wellFormed ht hu hkeys rfl hk hk'
    hs.callable hruns (show (7 : UInt64) ≤ 20 by decide) hroom hminer hreward

end

end WorkLedger.Latch
