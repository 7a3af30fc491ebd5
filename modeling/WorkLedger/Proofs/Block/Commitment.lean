/-
# What a header commits to

The header of a block commits to which transactions the block carries, but not to their order:
the trie that the transactions root is taken of holds each transaction under its digest.  Two
accepted blocks of one header are two orders of one series.  They run to the same accounts but
for balances, and to the same storage; and to the same state root exactly if every key pays
the same gas in both.
-/
import WorkLedger.Proofs.Block.Mined
import WorkLedger.Proofs.State.Commitment
import WorkLedger.Proofs.Transaction.Latch
import WorkLedger.Proofs.Trie.Items

namespace WorkLedger

namespace Block

variable {last a b : Block} {s : State}

/-! ## Accepted series -/

theorem transactionsRoot_nil : transactionsRoot [] = emptyRoot := by
  unfold transactionsRoot
  rw [Trie.ofItems_nil]
  rfl

theorem transactionsRoot_of_validate (h : Block.validate last b s = .ok ()) :
    b.header.transactionsRoot = transactionsRoot b.transactions := by
  rcases validate_eq_ok.mp h with rfl | h
  · exact transactionsRoot_nil.symm
  · exact h.transactionsRoot

theorem nodup_of_validate (h : Block.validate last b s = .ok ()) : b.transactions.Nodup := by
  rcases validate_eq_ok.mp h with rfl | h
  · exact List.nodup_nil
  · exact List.Pairwise.of_map (·.id) (fun _ _ hne heq => hne (congrArg _ heq)) h.ids

theorem validateAndRun_of_validate (h : Block.validate last b s = .ok ()) :
    ∃ s', Transaction.validateAndRun b.transactions s = .ok s' := by
  rcases validate_eq_ok.mp h with rfl | h
  · exact ⟨s, rfl⟩
  · exact h.series

/-- What is accepted runs. -/
theorem run_of_validate (h : Block.validate last b s = .ok ()) : ∃ s', b.run s = .ok s' := by
  obtain ⟨s', hseries⟩ := validateAndRun_of_validate h
  exact ⟨s', Transaction.runSeries_of_validateAndRun hseries⟩

/-! ## Two blocks of one header -/

/-- The texts whose digests a transactions root is made of. -/
def seriesTexts (b : Block) : List String :=
  textOf (Trie.ofItems b.transactions).node :: b.transactions.map textOf

/-- The transactions root tells the transactions, in some order. -/
theorem perm_of_transactionsRoot_eq {last' : Block} {s' : State}
    (ha : Block.validate last a s = .ok ()) (hb : Block.validate last' b s' = .ok ())
    {texts : List String} (hfree : CollisionFree texts) (htexts : a.seriesTexts ⊆ texts)
    (htexts' : b.seriesTexts ⊆ texts)
    (hroot : a.header.transactionsRoot = b.header.transactionsRoot) :
    a.transactions.Perm b.transactions := by
  rw [transactionsRoot_of_validate ha, transactionsRoot_of_validate hb] at hroot
  obtain ⟨hnode, hseries⟩ := List.cons_subset.mp htexts
  obtain ⟨hnode', hseries'⟩ := List.cons_subset.mp htexts'
  rw [List.perm_ext_iff_of_nodup (nodup_of_validate ha) (nodup_of_validate hb)]
  exact Trie.mem_iff_of_root_eq faithful_transaction hfree
    (fun t ht => hseries (List.mem_map_of_mem ht)) (fun t ht => hseries' (List.mem_map_of_mem ht))
    hnode hnode' hroot

/-- The texts whose digests are compared in the place of transactions and accounts, for two
blocks and the states that they run to. -/
def hashedTexts (a b : Block) (sa sb : State) : List String :=
  (a.transactions ++ b.transactions).map textOf ++
    [textOf (Trie.ofItems a.transactions).node, textOf (Trie.ofItems b.transactions).node,
      textOf sa.accounts.node, textOf sb.accounts.node]

/-- The header tells the transactions, in some order. -/
theorem perm_of_header_eq (hheader : a.header = b.header) {last' : Block} {s' sa sb : State}
    (ha : Block.validate last a s = .ok ()) (hb : Block.validate last' b s' = .ok ())
    (hfree : CollisionFree (hashedTexts a b sa sb)) : a.transactions.Perm b.transactions := by
  have htexts : a.seriesTexts ⊆ hashedTexts a b sa sb := by simp [seriesTexts, hashedTexts]
  have htexts' : b.seriesTexts ⊆ hashedTexts a b sa sb := by simp [seriesTexts, hashedTexts]
  exact perm_of_transactionsRoot_eq ha hb hfree htexts htexts' (by rw [hheader])

/-- Two orders of a series lead to the same root exactly if every key pays the same gas. -/
theorem root_eq_iff_of_perm {sa sb : State} (hs : s.WellFormed)
    (hperm : a.transactions.Perm b.transactions) (ha : a.run s = .ok sa) (hb : b.run s = .ok sb)
    (hfree : CollisionFree (hashedTexts a b sa sb)) :
    (sa.root = sb.root ↔ ∀ key, sa.account? key = sb.account? key) ∧
      (sa.root = sb.root ↔ ∀ key, Transaction.gasPaid key a.transactions s =
        Transaction.gasPaid key b.transactions s) := by
  have hsa : sa.WellFormed := Transaction.runSeries_wellFormed hs ha
  have hsb : sb.WellFormed := Transaction.runSeries_wellFormed hs hb
  have hroot := hsa.root_eq_iff hsb hfree (by simp [hashedTexts]) (by simp [hashedTexts])
  refine ⟨hroot, ?_⟩
  rw [hroot, Transaction.account?_eq_iff hs hperm ha hb]

/-- Two accepted blocks of one header, on one state, run to states with the same storage, and
with the same root exactly if every key pays the same gas in both. -/
theorem root_eq_iff_gasPaid_eq (hs : s.Reachable) (hheader : a.header = b.header)
    (ha : Block.validate last a s = .ok ()) (hb : Block.validate last b s = .ok ()) :
    ∃ sa sb, a.run s = .ok sa ∧ b.run s = .ok sb ∧
      (CollisionFree (hashedTexts a b sa sb) →
        a.transactions.Perm b.transactions ∧
        (∀ key, sa.storage? key = sb.storage? key) ∧
        (sa.root = sb.root ↔ ∀ key, sa.account? key = sb.account? key) ∧
        (sa.root = sb.root ↔ ∀ key, Transaction.gasPaid key a.transactions s =
          Transaction.gasPaid key b.transactions s)) := by
  obtain ⟨sa, hra⟩ := run_of_validate ha
  obtain ⟨sb, hrb⟩ := run_of_validate hb
  refine ⟨sa, sb, hra, hrb, fun hfree => ?_⟩
  have hwf := hs.wellFormed
  have hperm := perm_of_header_eq hheader ha hb hfree
  refine ⟨hperm, fun key => ?_, root_eq_iff_of_perm hwf hperm hra hrb hfree⟩
  have hsa : sa.WellFormed := Transaction.runSeries_wellFormed hwf hra
  have hsb : sb.WellFormed := Transaction.runSeries_wellFormed hwf hrb
  rw [hsa.storage?_eq, hsb.storage?_eq, hsa.account?_eq, hsb.account?_eq,
    Transaction.bareAt_perm hwf hperm hra hrb key, Transaction.storageAt_perm hwf hperm hra hrb,
    Option.map_map, Option.map_map]
  rfl

/-! ## Orders that do not tell -/

/-- The publication of a plain account. -/
def publication (address : String) : Transaction := .createAccount (.new address 0 []) address

theorem accountSnapshot_publication (address : String) :
    (publication address).accountSnapshot = .ok (.new address 0 []) :=
  Transaction.accountSnapshot_createAccount address rfl rfl

/-- Two plain accounts, and the miner with the reward. -/
def afterPublications (x y : String) : State :=
  ((State.empty.putAccount x (.new x 0 [])).putAccount y (.new y 0 [])).putAccount "miner"
    (.new "miner" miningReward [])

theorem run_publication {address : String} (hfree : s.bareAt address = none) :
    (publication address).validate s = .ok () ∧
      (publication address).run s = .ok (s.putAccount address (.new address 0 [])) :=
  Transaction.run_publication_of_free (accountSnapshot_publication address) hfree

theorem run_publications {x y : String} (hxy : y ≠ x) (hx : "miner" ≠ x) (hy : "miner" ≠ y) :
    Transaction.validateAndRun [publication x, publication y, .reward "miner" "reward"] .empty =
      .ok (afterPublications x y) := by
  let s₁ := State.empty.putAccount x (.new x 0 [])
  let s₂ := s₁.putAccount y (.new y 0 [])
  have hnobody : ∀ key, State.empty.bareAt key = none := fun key =>
    State.bareAt_eq_none.mpr (State.account?_empty key)
  have hfirst := State.writes_putAccount .empty x (.new x 0 [])
  have hsecond := s₁.writes_putAccount y (.new y 0 [])
  have hempty : State.empty.accounts.Sound := State.wellFormed_empty.accounts
  have hsound : s₁.accounts.Sound := hfirst.sound_accounts hempty
  have hfree : s₁.bareAt y = none := by rw [hfirst.bareAt hempty, if_neg hxy, hnobody]
  have hminer : s₂.bareAt "miner" = none := by
    rw [hsecond.bareAt hsound, if_neg hy, hfirst.bareAt hempty, if_neg hx, hnobody]
  obtain ⟨hvalid, hrun⟩ := run_publication (hnobody x)
  obtain ⟨hvalid', hrun'⟩ := run_publication hfree
  refine Transaction.validateAndRun_cons_eq_ok.mpr ⟨hvalid, s₁, hrun, ?_⟩
  refine Transaction.validateAndRun_cons_eq_ok.mpr ⟨hvalid', s₂, hrun', ?_⟩
  exact Transaction.validateAndRun_cons_eq_ok.mpr
    ⟨rfl, _, Transaction.run_reward_of_free hminer, rfl⟩

/-- A plain account as it is stored. -/
def storedAccount (address : String) (balance : UInt64) : Account :=
  (Account.new address balance []).stampedWith .empty

theorem accounts_afterPublications (x y : String) : (afterPublications x y).accounts =
    .ofPuts [(x, storedAccount x 0), (y, storedAccount y 0),
      ("miner", storedAccount "miner" miningReward)] := by
  have hx := State.writes_putAccount .empty x (.new x 0 [])
  have hy := State.writes_putAccount (State.empty.putAccount x (.new x 0 [])) y (.new y 0 [])
  have hminer : (afterPublications x y).accounts = _ :=
    (State.writes_putAccount _ "miner" (.new "miner" miningReward [])).accounts
  rw [hminer, hy.storageAt_eq, hx.storageAt_eq, State.storageAt_empty, hy.accounts,
    hx.storageAt_eq, State.storageAt_empty, hx.accounts, State.storageAt_empty]
  rfl

theorem accounts_afterPublications_comm {x y : String} (hxy : x ≠ y) :
    (afterPublications x y).accounts = (afterPublications y x).accounts := by
  rw [accounts_afterPublications, accounts_afterPublications]
  exact congrArg (Trie.put · "miner" _) (Trie.sound_empty.put_comm hxy _ _)

theorem digestOf_reward : digestOf (Transaction.reward "miner" "reward") =
    .ofNumber 0x051ed13cf92ca3f29538f8945218762a351c6051b8b3ee8780ed6d05ff3c5e98 := by
  rw [digestOf_eq_digestOfBytes, Transaction.normalize_toJson]
  decide +kernel

theorem digestOf_publications :
    digestOf (publication "ada") =
        .ofNumber 0xe7c1efb3e1492ec654502fea88d349cfa446dd9db317fa084d480afe3c8bc7c9 ∧
      digestOf (publication "bea") =
        .ofNumber 0xf19a69288ad5b03c8fd70be193980a9a68b4a64ba30d652f279dae4d90300df7 := by
  constructor
  all_goals
    rw [digestOf_eq_digestOfBytes, Transaction.normalize_toJson]
    decide +kernel

theorem head?_digestOf_reward :
    (digestOf (Transaction.reward "miner" "reward")).bytes.head? = some 0x05 := by
  rw [digestOf_reward]
  decide

theorem head?_digestOf_publications :
    (digestOf (publication "ada")).bytes.head? = some 0xe7 ∧
      (digestOf (publication "bea")).bytes.head? = some 0xf1 := by
  rw [digestOf_publications.1, digestOf_publications.2]
  decide

/-- Ada's publication, then Bea's. -/
def adaFirst : Block := afterGenesis "miner" "reward" [publication "ada", publication "bea"] .empty

/-- Bea's publication, then Ada's. -/
def beaFirst : Block := afterGenesis "miner" "reward" [publication "bea", publication "ada"] .empty

theorem transactions_adaFirst : adaFirst.transactions =
    [publication "ada", publication "bea", .reward "miner" "reward"] := rfl

theorem separated_adaFirst : Trie.Separated adaFirst.transactions := by
  refine Trie.separated_of_nodup_head? ?_
  simp [transactions_adaFirst, head?_digestOf_publications, head?_digestOf_reward]

theorem ofItems_adaFirst :
    Trie.ofItems adaFirst.transactions = Trie.ofItems beaFirst.transactions :=
  Trie.ofItems_perm separated_adaFirst (.swap _ _ _)

theorem head?_digestOf_ofItems :
    (digestOf (Trie.ofItems adaFirst.transactions).node).bytes.head? = some 0x62 := by
  rw [Trie.ofItems_eq_ofPuts separated_adaFirst, digestOf_eq_digestOfBytes, transactions_adaFirst]
  simp only [List.map_cons, List.map_nil, digestOf_publications, digestOf_reward]
  decide +kernel

theorem head?_digestOf_accounts :
    (digestOf (afterPublications "ada" "bea").accounts.node).bytes.head? = some 0x1b := by
  rw [accounts_afterPublications, digestOf_eq_digestOfBytes]
  decide +kernel

/-- The texts of the two series and of the accounts that they lead to do not collide. -/
theorem collisionFree_publications : CollisionFree (hashedTexts adaFirst beaFirst
    (afterPublications "ada" "bea") (afterPublications "bea" "ada")) := by
  let distinct := [textOf (publication "ada"), textOf (publication "bea"),
    textOf (Transaction.reward "miner" "reward"), textOf (Trie.ofItems adaFirst.transactions).node,
    textOf (afterPublications "ada" "bea").accounts.node]
  have hseries : (adaFirst.transactions ++ beaFirst.transactions).map textOf =
      [textOf (publication "ada"), textOf (publication "bea"),
        textOf (Transaction.reward "miner" "reward"), textOf (publication "bea"),
        textOf (publication "ada"), textOf (Transaction.reward "miner" "reward")] := rfl
  refine CollisionFree.of_nodup_head? (show _ ⊆ distinct from ?_) ?_
  · rw [hashedTexts, hseries, ← ofItems_adaFirst,
      accounts_afterPublications_comm (show "bea" ≠ "ada" by decide)]
    simp [distinct]
  · show [(digestOf (publication "ada")).bytes.head?, (digestOf (publication "bea")).bytes.head?,
      (digestOf (Transaction.reward "miner" "reward")).bytes.head?,
      (digestOf (Trie.ofItems adaFirst.transactions).node).bytes.head?,
      (digestOf (afterPublications "ada" "bea").accounts.node).bytes.head?].Nodup
    simp only [head?_digestOf_publications, head?_digestOf_reward, head?_digestOf_ofItems,
      head?_digestOf_accounts]
    decide

/-- Publications in either order: two blocks of one header whose texts do not collide, and which
run to one root. -/
theorem root_eq_of_publications : ∃ (a b : Block) (sa sb : State),
    a.transactions ≠ b.transactions ∧ a.header = b.header ∧
      Block.validate genesis a .empty = .ok () ∧ Block.validate genesis b .empty = .ok () ∧
      a.run .empty = .ok sa ∧ b.run .empty = .ok sb ∧
      CollisionFree (hashedTexts a b sa sb) ∧ sa.root = sb.root := by
  have hsa : Transaction.validateAndRun adaFirst.transactions .empty =
      .ok (afterPublications "ada" "bea") := run_publications (by decide) (by decide) (by decide)
  have hsb : Transaction.validateAndRun beaFirst.transactions .empty =
      .ok (afterPublications "bea" "ada") := run_publications (by decide) (by decide) (by decide)
  have hheader : adaFirst.header = beaFirst.header :=
    header_afterGenesis_eq (congrArg Trie.root ofItems_adaFirst)
  have ha : Block.validate genesis adaFirst .empty = .ok () :=
    validate_eq_ok.mpr (.inr (accepted_afterGenesis (by decide) (by decide) hsa))
  have hb : Block.validate genesis beaFirst .empty = .ok () :=
    validate_eq_ok.mpr (.inr (accepted_afterGenesis (by decide) (by decide) hsb))
  obtain ⟨sa, sb, hra, hrb, htells⟩ := root_eq_iff_gasPaid_eq .empty hheader ha hb
  cases (Transaction.runSeries_of_validateAndRun hsa).symm.trans hra
  cases (Transaction.runSeries_of_validateAndRun hsb).symm.trans hrb
  obtain ⟨-, -, -, hroot⟩ := htells collisionFree_publications
  refine ⟨adaFirst, beaFirst, _, _, by decide, hheader, ha, hb, hra, hrb,
    collisionFree_publications, hroot.mpr fun key => ?_⟩
  rw [Transaction.gasPaid_eq_zero (by decide), Transaction.gasPaid_eq_zero (by decide)]

end Block

/-! ## An order that tells -/

namespace Latch

/-- Alice's call, then Bob's. -/
def aliceFirst : List Transaction := [callOfAlice, callOfBob]

/-- Bob's call, then Alice's. -/
def bobFirst : List Transaction := [callOfBob, callOfAlice]

theorem head?_digestOf_calls : (digestOf callOfAlice).bytes.head? = some 0x3b ∧
    (digestOf callOfBob).bytes.head? = some 0xab := by
  constructor
  all_goals
    rw [digestOf_eq_digestOfBytes, Transaction.normalize_toJson]
    simp only [callOfAlice, callOfBob, call, alice, bob, PublicKey.address, contract,
      Account.storageKey, toJson, Signature.toHex, Digest.toHex, List.cons_append,
      List.nil_append, Json.write, Json.writeMembers, Json.writeString, Hex.toList_text]
    decide +kernel

theorem separated : Trie.Separated (aliceFirst ++ [.reward "miner" "reward"]) := by
  refine Trie.separated_of_nodup_head? ?_
  simp [aliceFirst, head?_digestOf_calls, Block.head?_digestOf_reward]

end Latch

open Latch in
/-- Two blocks of one header, both accepted, that run to different states: in each of them the
first caller has the smaller balance in the end. -/
theorem Block.exists_root_ne_of_header_eq : ∃ (a b : Block) (s sa sb : State),
    s.Reachable ∧ a.header = b.header ∧ Block.validate genesis a s = .ok () ∧
      Block.validate genesis b s = .ok () ∧ a.run s = .ok sa ∧ b.run s = .ok sb ∧
      sa.balance? alice.address ≠ sb.balance? alice.address ∧
      (CollisionFree (hashedTexts a b sa sb) → sa.root ≠ sb.root) := by
  obtain ⟨s, hs⟩ := exists_funded
  have hwf := hs.reachable.wellFormed
  obtain ⟨hab, hac, hbc⟩ := distinct
  let a := afterGenesis "miner" "reward" aliceFirst s
  let b := afterGenesis "miner" "reward" bobFirst s
  obtain ⟨sa, hsa, hpaid⟩ : ∃ sa, Transaction.validateAndRun a.transactions s = .ok sa ∧
      ∀ key, Transaction.gasPaid key a.transactions s =
        (if key = alice.address then 12 else 0) + (if key = bob.address then 7 else 0) :=
    hs.exists_run hs.caller_alice hs.caller_bob hab.symm hac.symm hbc.symm miner_notMem
  obtain ⟨sb, hsb, hpaid'⟩ : ∃ sb, Transaction.validateAndRun b.transactions s = .ok sb ∧
      ∀ key, Transaction.gasPaid key b.transactions s =
        (if key = bob.address then 12 else 0) + (if key = alice.address then 7 else 0) :=
    hs.exists_run hs.caller_bob hs.caller_alice hab hbc.symm hac.symm
      (by simpa [and_left_comm] using miner_notMem)
  have hperm : a.transactions.Perm b.transactions := .swap _ _ _
  have hheader : a.header = b.header :=
    header_afterGenesis_eq (congrArg Trie.root (Trie.ofItems_perm separated hperm))
  have hra : a.run s = .ok sa := Transaction.runSeries_of_validateAndRun hsa
  have hrb : b.run s = .ok sb := Transaction.runSeries_of_validateAndRun hsb
  have hne : Transaction.gasPaid alice.address a.transactions s ≠
      Transaction.gasPaid alice.address b.transactions s := by
    rw [hpaid, hpaid', if_pos rfl, if_pos rfl, if_neg hab, if_neg hab]
    decide
  have haccepted : Accepted genesis a s :=
    accepted_afterGenesis (by decide) (show ["first", "second", "reward"].Nodup by decide) hsa
  have haccepted' : Accepted genesis b s :=
    accepted_afterGenesis (by decide) (show ["second", "first", "reward"].Nodup by decide) hsb
  refine ⟨a, b, s, sa, sb, hs.reachable, hheader, Block.validate_eq_ok.mpr (.inr haccepted),
    Block.validate_eq_ok.mpr (.inr haccepted'), hra, hrb, ?_, fun hfree hroot => ?_⟩
  · intro hbalance
    refine hne ((Transaction.balanceAt_eq_iff hwf hperm hra hrb _).mp ?_)
    exact congrArg (·.getD 0) hbalance
  · exact hne ((Block.root_eq_iff_of_perm hwf hperm hra hrb hfree).2.mp hroot _)

end WorkLedger
