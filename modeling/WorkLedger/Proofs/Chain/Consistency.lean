/-
# Consistent chains

Under the consensus rule every chain is consistent at every moment: it starts with genesis,
each block follows the one before it, starts from the state that the blocks before it lead
to, and the state of the chain is the one that all its blocks lead to.

The genesis block passes the rule anywhere.  What keeps it out of the middle of a chain is its
number: blocks of number zero are refused before the rule is asked, and this also stops the
numbers from wrapping around.
-/
import WorkLedger.Proofs.Block.Accepted
import WorkLedger.Proofs.Chain.Growth

namespace WorkLedger

/-- The state after blocks that run in order. -/
def runBlocks (blocks : List Block) (s : State) : Except TransactionError State :=
  blocks.foldlM (fun s b => b.run s) s

/-- How a block of a chain relates to the one before it, and its header to its series. -/
structure Follows (parent block : Block) : Prop where
  parentHash : block.header.parentHash = parent.hash
  difficulty : distance parent.header.difficulty block.header.difficulty ≤ 1
  work : block.header.proofOfWork ≤ parent.header.target
  transactionsRoot : block.header.transactionsRoot = transactionsRoot block.transactions
  /-- There is one reward, of the right value and for the beneficiary. -/
  reward : ∃ t, block.transactions.filter (·.isReward) = [t] ∧ t.value = miningReward ∧
    t.recipient = block.header.beneficiary

/-- Blocks that form a consistent chain, with the state that they lead to. -/
structure Consistent (blocks : List Block) (s : State) : Prop where
  first : blocks.head? = some genesis
  number : ∀ (i : Nat) (block : Block), blocks[i]? = some block → block.header.number.toNat = i
  follows : ∀ (i : Nat) (parent block : Block), blocks[i]? = some parent →
    blocks[i + 1]? = some block → Follows parent block
  /-- Each block starts from the state that the blocks between genesis and it lead to. -/
  before : ∀ (i : Nat) (block : Block), blocks[i + 1]? = some block →
    ∃ s, runBlocks (blocks.take (i + 1)).tail .empty = .ok s ∧ block.header.stateRoot = s.root
  state : runBlocks blocks.tail .empty = .ok s

/-! ## One block more -/

theorem runBlocks_append_eq_ok {blocks : List Block} {b : Block} {s s' : State} :
    runBlocks (blocks ++ [b]) s = .ok s' ↔
      ∃ next, runBlocks blocks s = .ok next ∧ b.run next = .ok s' := by
  unfold runBlocks
  rw [List.foldlM_append, bind_eq_ok]
  simp only [List.foldlM_cons, List.foldlM_nil, bind_eq_ok, pure_eq_ok, exists_eq_right]

/-- A transaction that the rule took for the reward is worth the mining reward. -/
theorem Accepted.follows {last block : Block} {s : State} (h : Accepted last block s) :
    Follows last block where
  parentHash := h.parentHash
  difficulty := h.difficulty
  work := h.work
  transactionsRoot := h.transactionsRoot
  reward := by
    obtain ⟨t, ht, hrecipient⟩ := h.reward
    obtain ⟨s', hseries⟩ := h.series
    have hmem : t ∈ block.transactions.filter (·.isReward) := by simp [ht]
    obtain ⟨hin, hreward⟩ := List.mem_filter.mp hmem
    obtain ⟨before, hvalid⟩ := Transaction.validate_of_mem hseries hin
    refine ⟨t, ht, ?_, hrecipient⟩
    have hdata : t.data = .miningReward := by simpa [Transaction.isReward] using hreward
    simp only [Transaction.validate, hdata, Transaction.validateReward] at hvalid
    split at hvalid
    · assumption
    · exact nomatch hvalid

/-- The consensus rule lets an accepted block through, and genesis under no other number. -/
theorem Progress.accepted_of_check {last b : Block} {g : Progress} (hnumber : b.header.number ≠ 0)
    (h : g.check Block.validate last b = .ok ()) : Accepted last b g.state := by
  rcases Block.validate_eq_ok.mp (Progress.check_eq_ok.mp h).1 with hgenesis | haccepted
  · exact absurd (by rw [hgenesis]; rfl) hnumber
  · exact haccepted

/-- A step under the consensus rule takes an accepted block, and never genesis. -/
theorem Extends.accepted {last b : Block} {g g' : Progress}
    (h : Extends Block.validate last g b g') : Accepted last b g.state :=
  Progress.accepted_of_check h.number h.checked

/-- A step under the consensus rule ends in the state in which the validation has ended. -/
theorem Extends.validateAndRun {last b : Block} {g g' : Progress}
    (h : Extends Block.validate last g b g') :
    Transaction.validateAndRun b.transactions g.state = .ok g'.state := by
  obtain ⟨s, hrun, rfl⟩ := Progress.run_eq_ok.mp h.ran
  obtain ⟨s', hseries⟩ := h.accepted.series
  have hs : (Except.ok s' : Except TransactionError State) = .ok s :=
    (Transaction.runSeries_of_validateAndRun hseries).symm.trans hrun
  cases hs
  exact hseries

/-- An accepted block is a step, if its number has not wrapped around and its identifiers are
new. -/
theorem Accepted.exists_extends {last b : Block} {g : Progress} (h : Accepted last b g.state)
    (hnumber : b.header.number ≠ 0) (hfresh : ∀ id ∈ b.ids, g.included.contains id = false) :
    ∃ g', Extends Block.validate last g b g' := by
  obtain ⟨s', hseries⟩ := h.series
  refine ⟨⟨s', g.included.insertMany b.ids⟩, hnumber, ?_, ?_⟩
  · exact Progress.check_eq_ok.mpr
      ⟨Block.validate_eq_ok.mpr (.inr h), Progress.rejectReplays_eq_ok.mpr hfresh⟩
  · exact Progress.run_eq_ok.mpr ⟨s', Transaction.runSeries_of_validateAndRun hseries, rfl⟩

/-- What passes the checks of the consensus rule runs. -/
theorem Progress.exists_extends_of_check {last b : Block} {g : Progress}
    (hnumber : b.header.number ≠ 0) (h : g.check Block.validate last b = .ok ()) :
    ∃ g', Extends Block.validate last g b g' :=
  (Progress.accepted_of_check hnumber h).exists_extends hnumber
    (Progress.rejectReplays_eq_ok.mp (Progress.check_eq_ok.mp h).2)

/-- The successor of a number does not wrap around unless it comes out as zero. -/
theorem toNat_succ_of_ne_zero {n : UInt64} (h : n + 1 ≠ 0) : (n + 1).toNat = n.toNat + 1 := by
  have hne : (n + 1).toNat ≠ 0 := fun h0 => h (UInt64.toNat.inj h0)
  rw [UInt64.toNat_add] at hne ⊢
  have hlt := n.toNat_lt
  have hone : (1 : UInt64).toNat = 1 := rfl
  omega

theorem Consistent.extend {blocks : List Block} {last b : Block} {g g' : Progress}
    (h : Consistent blocks g.state) (hlast : blocks.getLast? = some last)
    (hstep : Extends Block.validate last g b g') : Consistent (blocks ++ [b]) g'.state := by
  have haccepted := hstep.accepted
  obtain ⟨s', hrun, hg'⟩ := Progress.run_eq_ok.mp hstep.ran
  have hne : blocks ≠ [] := by
    rintro rfl
    exact nomatch hlast
  have hpos : 0 < blocks.length := List.length_pos_iff.mpr hne
  rw [List.getLast?_eq_getElem?] at hlast
  -- A place in the longer list is one in the shorter, or the new block's.
  have hplace : ∀ i block, (blocks ++ [b])[i]? = some block →
      blocks[i]? = some block ∨ (i = blocks.length ∧ block = b) := by
    intro i block hi
    rcases Nat.lt_or_ge i blocks.length with hlt | hge
    · rw [List.getElem?_append_left hlt] at hi
      exact .inl hi
    · rw [List.getElem?_append_right hge, List.getElem?_singleton] at hi
      split at hi
      · cases hi
        exact .inr ⟨by omega, rfl⟩
      · exact nomatch hi
  constructor
  case first =>
    rw [List.head?_append, h.first]
    rfl
  case number =>
    intro i block hi
    rcases hplace i block hi with hold | ⟨rfl, rfl⟩
    · exact h.number i block hold
    · have hnumber := haccepted.number
      have hnext := toNat_succ_of_ne_zero (hnumber ▸ hstep.number)
      rw [hnumber, hnext, h.number _ _ hlast]
      omega
  case follows =>
    intro i parent block hi hi'
    rcases hplace (i + 1) block hi' with hold | ⟨hlen, rfl⟩
    · have hlt : i + 1 < blocks.length := (List.getElem?_eq_some_iff.mp hold).1
      rw [List.getElem?_append_left (by omega)] at hi
      exact h.follows i parent block hi hold
    · rw [List.getElem?_append_left (by omega)] at hi
      rw [show blocks.length - 1 = i by omega, hi] at hlast
      cases hlast
      exact haccepted.follows
  case before =>
    intro i block hi
    rcases hplace (i + 1) block hi with hold | ⟨hlen, rfl⟩
    · have hlt : i + 1 < blocks.length := (List.getElem?_eq_some_iff.mp hold).1
      rw [List.take_append_of_le_length (by omega)]
      exact h.before i block hold
    · rw [hlen, List.take_left]
      exact ⟨g.state, h.state, haccepted.stateRoot⟩
  case state =>
    rw [List.tail_append_of_ne_nil hne, runBlocks_append_eq_ok, hg']
    exact ⟨g.state, h.state, hrun⟩

/-! ## Every chain -/

theorem Grown.consistent {blocks : List Block} {g : Progress} (h : Grown Block.validate blocks g) :
    Consistent blocks g.state := by
  induction h with
  | genesis =>
      refine ⟨rfl, ?_, ?_, ?_, rfl⟩
      · rintro (_ | i) block hi
        · cases hi
          rfl
        · exact nomatch hi
      · exact fun i parent block _ hi => nomatch hi
      · exact fun i block hi => nomatch hi
  | extend _ hlast hstep ih => exact ih.extend hlast hstep

/-- After any calls, granted or refused, the chain is consistent. -/
theorem Chain.consistent_afterAll (calls : List Call) :
    Consistent (afterAll Block.validate calls).blocks (afterAll Block.validate calls).state :=
  (grown_afterAll Block.validate calls).consistent

end WorkLedger
