/-
# The tip tells the history

A header holds the hash of the header below it, the root of its transactions and the root of
the state that its block starts from.  So as long as texts do not collide, two chains whose
tips have one hash have the same headers all the way down to genesis, blocks at the same height
carry the same transactions, and the tips start from the same state.

The hash does not tell what the tip does to that state: a header leaves the order of the
transactions open.
-/
import WorkLedger.Proofs.Block.Commitment
import WorkLedger.Proofs.Chain.Adoption

namespace WorkLedger

/-! ## Below the tip -/

/-- Whatever the rule, the state of a chain is one that transactions lead to. -/
theorem Grown.reachable {rule : BlockRule} {blocks : List Block} {g : Progress}
    (h : Grown rule blocks g) : g.state.Reachable := by
  induction h with
  | genesis => exact .empty
  | extend _ _ hstep ih =>
      obtain ⟨s, hrun, rfl⟩ := Progress.run_eq_ok.mp hstep.ran
      exact ih.runSeries hrun

/-- Every block of a chain was accepted on some block and some state. -/
theorem Grown.exists_validate {blocks : List Block} {g : Progress}
    (h : Grown Block.validate blocks g) :
    ∀ b ∈ blocks, ∃ last s, Block.validate last b s = .ok () := by
  induction h with
  | genesis =>
      intro b hb
      cases List.mem_singleton.mp hb
      exact ⟨WorkLedger.genesis, .empty, if_pos rfl⟩
  | extend _ _ hstep ih =>
      intro b hb
      rcases List.mem_append.mp hb with hold | hnew
      · exact ih b hold
      · cases List.mem_singleton.mp hnew
        exact ⟨_, _, (Progress.check_eq_ok.mp hstep.checked).1⟩

/-- The blocks below the tip lead to the state that the tip refers to and runs on. -/
theorem Grown.exists_before_tip {blocks : List Block} {g : Progress}
    (h : Grown Block.validate blocks g) {tip : Block} (htip : blocks.getLast? = some tip) :
    ∃ s, runBlocks blocks.dropLast.tail .empty = .ok s ∧ s.Reachable ∧
      tip.header.stateRoot = s.root ∧ tip.run s = .ok g.state := by
  cases h with
  | genesis =>
      cases htip
      exact ⟨.empty, rfl, .empty, State.root_empty.symm, rfl⟩
  | @extend blocks last b g _ hgrown _ hstep =>
      rw [List.getLast?_concat] at htip
      cases htip
      obtain ⟨s, hrun, rfl⟩ := Progress.run_eq_ok.mp hstep.ran
      rw [List.dropLast_concat]
      exact ⟨g.state, hgrown.consistent.state, hgrown.reachable, hstep.accepted.stateRoot, hrun⟩

/-! ## Equal headers -/

/-- The texts that are hashed for a block. -/
def Block.texts (b : Block) : List String := textOf b.header :: b.seriesTexts

theorem Block.textOf_header_mem (b : Block) : textOf b.header ∈ b.texts := List.mem_cons_self

/-- A hash tells the header, unless texts collide. -/
theorem CollisionFree.header_eq {texts : List String} (hfree : CollisionFree texts) {a b : Block}
    (ha : a.texts ⊆ texts) (hb : b.texts ⊆ texts) (h : a.hash = b.hash) : a.header = b.header :=
  faithful_header.inj (hfree.normalize_eq (ha a.textOf_header_mem) (hb b.textOf_header_mem) h)

section

variable {blocks blocks' : List Block} {s s' : State} {texts : List String}

/-- From a height on at which two chains have the same header, they have the same headers at all
heights below: by induction down the parent hashes. -/
theorem Consistent.header_eq_of_le (hc : Consistent blocks s) (hc' : Consistent blocks' s')
    (hfree : CollisionFree texts) (htexts : ∀ b ∈ blocks, b.texts ⊆ texts)
    (htexts' : ∀ b ∈ blocks', b.texts ⊆ texts) {i : Nat} {a b : Block}
    (ha : blocks[i]? = some a) (hb : blocks'[i]? = some b) (hab : a.header = b.header)
    {j : Nat} (hj : j ≤ i) {p q : Block} (hp : blocks[j]? = some p) (hq : blocks'[j]? = some q) :
    p.header = q.header := by
  induction i generalizing a b with
  | zero =>
      cases Nat.le_zero.mp hj
      cases ha.symm.trans hp
      cases hb.symm.trans hq
      exact hab
  | succ i ih =>
      rcases Nat.eq_or_lt_of_le hj with rfl | hlt
      · cases ha.symm.trans hp
        cases hb.symm.trans hq
        exact hab
      · have hi : i < blocks.length := Nat.lt_of_succ_lt (List.getElem?_eq_some_iff.mp ha).1
        have hi' : i < blocks'.length := Nat.lt_of_succ_lt (List.getElem?_eq_some_iff.mp hb).1
        have hparent := (hc.follows i _ a (List.getElem?_eq_getElem hi) ha).parentHash
        have hparent' := (hc'.follows i _ b (List.getElem?_eq_getElem hi') hb).parentHash
        have hbelow : blocks[i].header = blocks'[i].header := by
          have hsub := htexts _ (List.getElem_mem hi)
          have hsub' := htexts' _ (List.getElem_mem hi')
          refine hfree.header_eq hsub hsub' ?_
          rw [← hparent, ← hparent', hab]
        exact ih (List.getElem?_eq_getElem hi) (List.getElem?_eq_getElem hi') hbelow
          (Nat.le_of_lt_succ hlt)

/-- The number in the header of the tip is the height of the chain. -/
theorem Consistent.length_eq (hc : Consistent blocks s) {tip : Block}
    (htip : blocks.getLast? = some tip) : blocks.length = tip.header.number.toNat + 1 := by
  have hne : blocks ≠ [] := by
    rintro rfl
    exact nomatch htip
  have hpos := List.length_pos_iff.mpr hne
  rw [List.getLast?_eq_getElem?] at htip
  have hnumber := hc.number _ _ htip
  omega

end

/-! ## Equal tips -/

namespace Chain

/-- The state that the blocks below the tip lead to. -/
def beforeTip (c : Chain) : Except TransactionError State :=
  runBlocks c.blocks.dropLast.tail .empty

/-- The texts that are hashed for all blocks. -/
def texts (c : Chain) : List String := c.blocks.flatMap Block.texts

theorem texts_subset {c : Chain} {b : Block} (h : b ∈ c.blocks) : b.texts ⊆ c.texts :=
  fun _ htext => List.mem_flatMap.mpr ⟨b, h, htext⟩

/-- Whatever calls two chains arose from: if the tips have one hash and no two of the texts that
are hashed for their blocks and for the states below the tips collide, then the chains are of
one length, blocks at the same height have the same header and the same transactions, and the
states below the tips hold the same accounts and the same storage. -/
theorem history_eq_of_hash_tip_eq (calls calls' : List Call) :
    let c := afterAll Block.validate calls
    let c' := afterAll Block.validate calls'
    ∃ s s', c.beforeTip = .ok s ∧ c'.beforeTip = .ok s' ∧
      c.tip.run s = .ok c.state ∧ c'.tip.run s' = .ok c'.state ∧
      (CollisionFree (c.texts ++ s.nodeTexts ++ c'.texts ++ s'.nodeTexts) →
        c.tip.hash = c'.tip.hash →
        c.length = c'.length ∧
        (∀ (i : Nat) (b b' : Block), c.blocks[i]? = some b → c'.blocks[i]? = some b' →
          b.header = b'.header ∧ b.transactions.Perm b'.transactions) ∧
        ∀ key, s.account? key = s'.account? key ∧ s.storage? key = s'.storage? key) := by
  intro c c'
  have hgrown := grown_afterAll Block.validate calls
  have hgrown' := grown_afterAll Block.validate calls'
  obtain ⟨s, hs, hreachable, hroot, hrun⟩ := hgrown.exists_before_tip c.getLast?_blocks
  obtain ⟨s', hs', hreachable', hroot', hrun'⟩ := hgrown'.exists_before_tip c'.getLast?_blocks
  refine ⟨s, s', hs, hs', hrun, hrun', fun hfree hhash => ?_⟩
  have htexts : ∀ b ∈ c.blocks, b.texts ⊆ c.texts ++ s.nodeTexts ++ c'.texts ++ s'.nodeTexts := by
    intro b hb text htext
    simp [texts_subset hb htext]
  have htexts' : ∀ b ∈ c'.blocks, b.texts ⊆ c.texts ++ s.nodeTexts ++ c'.texts ++ s'.nodeTexts := by
    intro b hb text htext
    simp [texts_subset hb htext]
  have htip : c.tip.header = c'.tip.header :=
    hfree.header_eq (htexts _ (List.getLast_mem c.nonempty))
      (htexts' _ (List.getLast_mem c'.nonempty)) hhash
  have hconsistent : Consistent c.blocks c.state := hgrown.consistent
  have hconsistent' : Consistent c'.blocks c'.state := hgrown'.consistent
  have hlength : c.length = c'.length := by
    show c.blocks.length = c'.blocks.length
    rw [hconsistent.length_eq c.getLast?_blocks, hconsistent'.length_eq c'.getLast?_blocks, htip]
  refine ⟨hlength, fun i b b' hb hb' => ?_, ?_⟩
  · have hmem := List.mem_of_getElem? hb
    have hmem' := List.mem_of_getElem? hb'
    have hheader : b.header = b'.header := by
      have hlast := c.getLast?_blocks
      have hlast' := c'.getLast?_blocks
      rw [List.getLast?_eq_getElem?] at hlast hlast'
      rw [show c'.blocks.length = c.blocks.length from hlength.symm] at hlast'
      have hi : i ≤ c.blocks.length - 1 :=
        Nat.le_sub_one_of_lt (List.getElem?_eq_some_iff.mp hb).1
      exact hconsistent.header_eq_of_le hconsistent' hfree htexts htexts' hlast hlast' htip hi
        hb hb'
    obtain ⟨_, _, hvalid⟩ := hgrown.exists_validate b hmem
    obtain ⟨_, _, hvalid'⟩ := hgrown'.exists_validate b' hmem'
    have hseries := (List.cons_subset.mp (htexts b hmem)).2
    have hseries' := (List.cons_subset.mp (htexts' b' hmem')).2
    exact ⟨hheader,
      Block.perm_of_transactionsRoot_eq hvalid hvalid' hfree hseries hseries' (by rw [hheader])⟩
  · have hroots : s.root = s'.root := by rw [← hroot, ← hroot', htip]
    refine hreachable.wellFormed.agree_of_root_eq hreachable'.wellFormed hfree ?_ ?_ hroots
    · intro text htext
      simp [htext]
    · intro text htext
      simp [htext]

/-! ## Two ways to one chain -/

/-- The block of the reward alone, on top of genesis. -/
def firstBlock : Block := afterGenesis "miner" "reward" [] .empty

/-- The chain of genesis and that block arises by adding the block, and by offering both. -/
theorem exists_two_ways : ∃ calls calls' : List Call, calls ≠ calls' ∧
    (afterAll Block.validate calls).blocks = [genesis, firstBlock] ∧
    afterAll Block.validate calls' = afterAll Block.validate calls := by
  have hblocks := blocks_add_of_accepted (accepted_afterGenesis_nil "miner" "reward")
  refine ⟨_, _, ?_, hblocks, afterAll_replace ?_⟩
  · exact fun h => nomatch h
  · show 1 < (afterAll Block.validate _).blocks.length
    rw [hblocks]
    exact Nat.one_lt_two

theorem emptyRoot_eq : emptyRoot =
    .ofNumber 0x8b3c03459c5fa3fd11edbeb53261624b867afc4e18cd2202ed6bd7b66159dda1 := by
  show digestOf (Trie.Node.empty : Trie.Node Json) = _
  rw [digestOf_eq_digestOfBytes]
  decide +kernel

theorem hash_genesis : genesis.hash =
    .ofNumber 0x03885f5e24ac46f7988f6326a79d15da4114300a89f65343908aeb4c652e08a1 := by
  show digestOf genesis.header = _
  rw [digestOf_eq_digestOfBytes, Header.normalize_toJson, genesis, emptyRoot_eq]
  simp only [toJson, Digest.toHex, Json.write, Json.writeMembers, Json.writeString,
    Hex.toList_text]
  decide +kernel

theorem transactionsRoot_firstBlock : firstBlock.header.transactionsRoot =
    .ofNumber 0x4e38503f2d0c10961f83cb8db67907bd4f2fab9d81cc4026e5b9c6019f150033 := by
  show (Trie.ofItems [Transaction.reward "miner" "reward"]).root = _
  rw [Trie.ofItems_singleton]
  show digestOf _ = _
  rw [digestOf_eq_digestOfBytes, digestOf_eq_digestOfBytes]
  decide +kernel

theorem head?_hash_firstBlock : firstBlock.hash.bytes.head? = some 0xed := by
  have hparent : firstBlock.header.parentHash = genesis.hash := rfl
  have hdifficulty : firstBlock.header.difficulty = 2 := by decide
  have hstate : firstBlock.header.stateRoot = emptyRoot := State.root_empty
  show (digestOf firstBlock.header).bytes.head? = _
  rw [digestOf_eq_digestOfBytes, Header.normalize_toJson, hparent, hdifficulty, hstate,
    transactionsRoot_firstBlock, hash_genesis, emptyRoot_eq]
  simp only [toJson, Digest.toHex, Json.write, Json.writeMembers, Json.writeString,
    Hex.toList_text]
  decide +kernel

theorem digestOf_accounts_empty : digestOf State.empty.accounts.node = emptyRoot :=
  State.wellFormed_empty.accounts.root.symm.trans State.root_empty

/-- The texts behind the two blocks and the empty state do not collide. -/
theorem collisionFree_firstBlock :
    CollisionFree (genesis.texts ++ firstBlock.texts ++ State.empty.nodeTexts) := by
  let reward := Transaction.reward "miner" "reward"
  let distinct := [textOf genesis.header, textOf firstBlock.header,
    textOf (Trie.ofItems [reward]).node, textOf reward, textOf State.empty.accounts.node]
  have hseries : firstBlock.transactions = [reward] := rfl
  have hnone : textOf (Trie.ofItems ([] : List Transaction)).node =
      textOf State.empty.accounts.node := by
    rw [Trie.ofItems_nil]
    rfl
  refine CollisionFree.of_nodup_head? (show _ ⊆ distinct from ?_) ?_
  · intro text htext
    simp only [List.mem_append] at htext
    rcases htext with (hgenesis | hfirst) | hstate
    · have hcases : text = textOf genesis.header ∨
          text = textOf (Trie.ofItems ([] : List Transaction)).node := by
        simpa [Block.texts, Block.seriesTexts, genesis] using hgenesis
      rcases hcases with rfl | rfl
      · simp [distinct]
      · simp [distinct, hnone]
    · have hcases : text = textOf firstBlock.header ∨ text = textOf (Trie.ofItems [reward]).node ∨
          text = textOf reward := by
        simpa [Block.texts, Block.seriesTexts, hseries] using hfirst
      rcases hcases with rfl | rfl | rfl <;> simp [distinct]
    · rcases State.mem_nodeTexts.mp hstate with rfl | ⟨key, storage, hstorage, -⟩
      · simp [distinct]
      · rw [State.storage?_empty] at hstorage
        cases hstorage
  · have hitems : digestOf (Trie.ofItems [reward]).node = firstBlock.header.transactionsRoot :=
      (Trie.sound_ofItems [reward]).root.symm
    show [genesis.hash.bytes.head?, firstBlock.hash.bytes.head?,
      (digestOf (Trie.ofItems [reward]).node).bytes.head?, (digestOf reward).bytes.head?,
      (digestOf State.empty.accounts.node).bytes.head?].Nodup
    rw [hash_genesis, head?_hash_firstBlock, hitems, transactionsRoot_firstBlock,
      Block.head?_digestOf_reward, digestOf_accounts_empty, emptyRoot_eq]
    decide

/-- The block is added to one chain, and offered together with genesis to another. -/
theorem history_eq_two_ways : ∃ (calls calls' : List Call) (s s' : State),
    let c := afterAll Block.validate calls
    let c' := afterAll Block.validate calls'
    calls ≠ calls' ∧ c.blocks = [genesis, firstBlock] ∧ c.tip.hash = c'.tip.hash ∧
      CollisionFree (c.texts ++ s.nodeTexts ++ c'.texts ++ s'.nodeTexts) ∧
      c.length = c'.length ∧
      (∀ (i : Nat) (b b' : Block), c.blocks[i]? = some b → c'.blocks[i]? = some b' →
        b.header = b'.header ∧ b.transactions.Perm b'.transactions) ∧
      ∀ key, s.account? key = s'.account? key ∧ s.storage? key = s'.storage? key := by
  obtain ⟨calls, calls', hne, hblocks, hways⟩ := exists_two_ways
  obtain ⟨s, s', hs, hs', -, -, htells⟩ := history_eq_of_hash_tip_eq calls calls'
  have hbefore : (afterAll Block.validate calls).beforeTip = .ok .empty := by
    unfold beforeTip
    rw [hblocks]
    rfl
  have htexts : (afterAll Block.validate calls).texts = genesis.texts ++ firstBlock.texts := by
    simp [texts, hblocks]
  rw [hways] at hs' htells
  cases hbefore.symm.trans hs
  cases hbefore.symm.trans hs'
  have hfree : CollisionFree ((afterAll Block.validate calls).texts ++ State.empty.nodeTexts ++
      (afterAll Block.validate calls).texts ++ State.empty.nodeTexts) := by
    let blocks := genesis.texts ++ firstBlock.texts
    have hchain := List.subset_append_left blocks State.empty.nodeTexts
    have hstate := List.subset_append_right blocks State.empty.nodeTexts
    rw [htexts]
    exact collisionFree_firstBlock.mono (List.append_subset.mpr
      ⟨List.append_subset.mpr ⟨List.append_subset.mpr ⟨hchain, hstate⟩, hchain⟩, hstate⟩)
  refine ⟨calls, calls', .empty, .empty, hne, hblocks, ?_⟩
  rw [hways]
  exact ⟨rfl, hfree, htells hfree rfl⟩

end Chain

end WorkLedger
