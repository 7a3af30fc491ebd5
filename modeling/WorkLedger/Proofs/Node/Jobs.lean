/-
# Calls during a job

While a node searches for a block other calls come in.  What they do does not depend on the
job, except that a second job is refused.  So a job with calls in between leads to no other
nodes than calls one after another: a job that ends without a block has only dropped stale
transactions, and the block of one that ends with it might have come as a message.
-/
import WorkLedger.Proofs.Node.Calls

namespace WorkLedger.Node

variable {n : Node} {call : Call}

/-- Mines a block while other calls come in, after the job was opened and before it closes. -/
def mineDuring (during : List Call) (link : Link) (n : Node) (rewardId : String)
    (draws : Nat → Draw) (attempts : Nat) : Effect Block :=
  match n.openJob rewardId with
  | .error e => ⟨n.afterAll during, [], .error e⟩
  | .ok (ticket, n) =>
      let n := n.afterAll during
      n.closeJob link ticket (n.search ticket draws attempts)

theorem mineDuring_nil (link : Link) (n : Node) (rewardId : String) (draws : Nat → Draw)
    (attempts : Nat) :
    n.mineDuring [] link rewardId draws attempts = n.mine link rewardId draws attempts := by
  unfold mineDuring mine
  cases n.openJob rewardId with
  | error e => rfl
  | ok r => rfl

/-! ## Calls without the job -/

/-- The node without its job. -/
def idle (n : Node) : Node := { n with mining := false }

theorem idle_chain (n : Node) : n.idle.chain = n.chain := rfl

theorem idle_pool (n : Node) : n.idle.pool = n.pool := rfl

theorem poolTransaction_idle (n : Node) (t : Transaction) :
    n.idle.poolTransaction t = (n.poolTransaction t).map idle := by
  unfold poolTransaction
  by_cases hreward : t.isReward = true
  · rw [if_pos hreward, if_pos hreward]
    rfl
  · rw [if_neg hreward, if_neg hreward]
    by_cases hchain : n.chain.contains t.id = true
    · rw [if_pos hchain]
      exact if_pos hchain
    · rw [if_neg hchain]
      refine (if_neg hchain).trans ?_
      rw [idle_pool]
      rcases n.pool.add t with ⟨added, pool⟩
      cases added <;> rfl

theorem addBlock_idle (n : Node) (b : Block) : n.idle.addBlock b = (n.addBlock b).map idle := by
  unfold addBlock
  rw [idle_chain, idle_pool]
  cases n.chain.addBlock Block.validate b n.pool with
  | error e => rfl
  | ok r => rfl

theorem sync_idle (n : Node) (candidate : List Block) :
    n.idle.sync candidate = (n.sync candidate).map idle := by
  unfold sync
  rw [idle_chain, idle_pool]
  cases n.chain.replace Block.validate candidate with
  | error e => rfl
  | ok c => rfl

/-- Whether a call mines. -/
def Call.mines : Call → Bool
  | .mine _ _ _ _ => true
  | _ => false

/-- Only mining takes notice of an open job. -/
theorem after_idle (n : Node) {call : Call} (h : call.mines = false) :
    n.idle.after call = (n.after call).idle := by
  cases call with
  | submit link t =>
      simp only [after, submit, poolTransaction_idle]
      cases n.poolTransaction t with
      | error e => rfl
      | ok n' => cases link <;> rfl
  | handle m =>
      have hhandle : n.idle.handle m = (n.handle m).map idle := by
        cases m with
        | block b => exact addBlock_idle n b
        | transaction t => exact poolTransaction_idle n t
      simp only [after, hhandle]
      cases n.handle m <;> rfl
  | sync candidate =>
      simp only [after, sync_idle]
      cases n.sync candidate <;> rfl
  | mine link rewardId draws attempts => cases h

theorem after_mine_of_mining (hmining : n.mining = true) (h : call.mines = true) :
    n.after call = n := by
  cases call with
  | mine link rewardId draws attempts =>
      simp only [after, mine, openJob_of_mining hmining]
  | submit link t => cases h
  | handle m => cases h
  | sync candidate => cases h

/-- Calls during a job do what they do without it, and mining is refused. -/
theorem afterAll_idle (hmining : n.mining = true) (calls : List Call) :
    n.idle.afterAll (calls.filter (!·.mines)) = (n.afterAll calls).idle := by
  induction calls generalizing n with
  | nil => rfl
  | cons call rest ih =>
      have hnext : (n.after call).mining = true :=
        (step_after n call).mining_eq.trans hmining
      show _ = ((n.after call).afterAll rest).idle
      rw [← ih hnext]
      cases hmines : call.mines with
      | true =>
          rw [List.filter_cons_of_neg (by simp [hmines]), after_mine_of_mining hmining hmines]
      | false =>
          rw [List.filter_cons_of_pos (by simp [hmines]), ← after_idle n hmines]
          rfl

/-! ## The job itself -/

/-- A job with calls in between leads where some calls lead one after another. -/
theorem exists_calls_of_mineDuring (during : List Call) (link : Link) (n : Node)
    (rewardId : String) (draws : Nat → Draw) (attempts : Nat) :
    ∃ calls, (n.mineDuring during link rewardId draws attempts).node = n.afterAll calls := by
  unfold mineDuring
  cases hmining : n.mining with
  | true =>
      rw [openJob_of_mining hmining]
      exact ⟨during, rfl⟩
  | false =>
      rw [openJob_of_idle hmining]
      -- Opening a job and giving it up.
      have hopened : n.after (.mine link rewardId draws 0) = n.opened.idle := by
        simp only [after, mine, openJob_of_idle hmining]
        rfl
      have hbusy : n.afterAll (.mine link rewardId draws 0 :: during.filter (!·.mines)) =
          (n.opened.afterAll during).idle := by
        rw [← afterAll_idle rfl during, ← hopened]
        rfl
      rcases closeJob_cases link (n.opened.afterAll during) (n.ticket rewardId)
        ((n.opened.afterAll during).search (n.ticket rewardId) draws attempts) with
        hnode | ⟨b, hadd⟩
      · exact ⟨_, hnode.trans hbusy.symm⟩
      · refine ⟨(.mine link rewardId draws 0 :: during.filter (!·.mines)) ++ [.handle (.block b)],
          ?_⟩
        have hblock : (n.opened.afterAll during).idle.after (.handle (.block b)) = _ :=
          congrArg (Option.getD · _) (congrArg Except.toOption hadd)
        rw [afterAll_append, hbusy]
        exact hblock.symm

end WorkLedger.Node
