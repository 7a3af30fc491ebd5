/-
# When a node mines

A job takes the transactions that apply on top of the tip, with a reward for the node behind
them.  While the tip stays, the block that the search finds is what the rule asks for in all
but one respect: the reward was not tried on the state that the transactions lead to.  If the
account of the node can take it the block is added, and of what was pooled nothing stays.  If
it cannot the block is refused, and the transactions stay for the next job.

Whoever publishes the account of a node, with the largest balance there is, stops it that way.
-/
import WorkLedger.Proofs.Block.Mined
import WorkLedger.Proofs.Node.Jobs
import WorkLedger.Proofs.Transaction.Progress
import WorkLedger.Proofs.Transaction.Published

namespace WorkLedger.Node

variable {n : Node}

/-! ## The job -/

/-- Whether there is room for one block more, and for its reward on top of a state. -/
def HasRoom (n : Node) (s : State) : Prop :=
  n.chain.length < UInt64.size ∧
    (s.balanceAt n.wallet.address).toNat + miningReward.toNat < UInt64.size

/-- Why the chain refuses a block of the node if there is no room for it: the number has come
round to zero, or the balance would. -/
def overflow (n : Node) : ChainError :=
  if n.chain.length < UInt64.size then .block (.transaction (.balanceOverflow n.wallet.address))
  else .genesisResubmitted

theorem Regular.opened (hn : n.Regular) :
    n.opened.Regular ∧ n.opened.pool.toList = n.applicable.1 := by
  refine ⟨⟨hn.grown, hn.pool.clear n.stale, ?_⟩, toList_clear_stale hn.pool⟩
  exact fun t ht => hn.rewards t (hn.pool.mem_toList_clear.mp ht).1

theorem sublist_applicable (n : Node) : n.applicable.1.Sublist n.pool.toList :=
  (sublist_sift n.chain n.pool.toList n.chain.state).1

/-! ## The block on the chain -/

section

variable {b : Block} {draw : Draw} {rewardId : String}
  (hmined : (n.ticket rewardId).job.attempt draw = some b)
include hmined

theorem transactions_of_attempt :
    b.transactions = n.applicable.1 ++ [.reward n.wallet.address rewardId] := by
  obtain ⟨-, rfl⟩ := MiningJob.attempt_eq_some.mp hmined
  rfl

theorem number_of_attempt : b.header.number = n.chain.tip.header.number + 1 := by
  obtain ⟨-, rfl⟩ := MiningJob.attempt_eq_some.mp hmined
  rfl

theorem ids_of_attempt : b.ids = n.applicable.1.map (·.id) ++ [rewardId] := by
  rw [Block.ids, transactions_of_attempt hmined, List.map_append]
  rfl

variable (hn : n.Regular)
include hn

/-- The number of the block comes round to zero when there is no number left. -/
theorem Regular.number_eq_zero : b.header.number = 0 ↔ ¬ n.chain.length < UInt64.size := by
  have hlength := Chain.length_eq_of_grown hn.grown
  have hlt := n.chain.tip.header.number.toNat_lt
  have hone : (1 : UInt64).toNat = 1 := rfl
  have hzero : (0 : UInt64).toNat = 0 := rfl
  have hsize : UInt64.size = 2 ^ 64 := rfl
  rw [number_of_attempt hmined, ← UInt64.toNat_inj, UInt64.toNat_add, hone, hzero]
  omega

variable (hout : rewardId ∉ n.applicable.1.map (·.id))
include hout

theorem Regular.nodup_ids : b.ids.Nodup := by
  have hseries : (n.applicable.1.map (·.id)).Nodup :=
    hn.pool.nodup_ids.sublist ((sublist_applicable n).map _)
  rw [ids_of_attempt hmined]
  refine List.nodup_append.mpr ⟨hseries, List.pairwise_singleton _ _, ?_⟩
  rintro id hid _ hmem rfl
  rw [List.mem_singleton.mp hmem] at hid
  exact hout hid

theorem Regular.validate_of_attempt : Block.validate n.chain.tip b n.chain.state =
    (Transaction.validateSeries b.transactions n.chain.state).mapError .transaction :=
  MiningJob.validate_of_attempt hmined
    (fun t ht => hn.rewards t ((sublist_applicable n).subset ht)) (hn.nodup_ids hmined hout)

variable {s : State} (hseries : Transaction.validateAndRun n.applicable.1 n.chain.state = .ok s)
include hseries

/-- With room the chain takes the block. -/
theorem Regular.extend_of_room (hnew : n.chain.contains rewardId = false) (hroom : n.HasRoom s) :
    ∃ c, n.chain.extend Block.validate b = .ok c := by
  obtain ⟨s', hrun⟩ : ∃ s', Transaction.validateAndRun b.transactions n.chain.state = .ok s' := by
    rw [transactions_of_attempt hmined]
    exact Transaction.validateAndRun_append_reward hseries hroom.2
  have haccepted : Accepted n.chain.tip b n.chain.state :=
    MiningJob.accepted_of_attempt hmined
      (fun t ht => hn.rewards t ((sublist_applicable n).subset ht)) (hn.nodup_ids hmined hout) hrun
  have hnumber : b.header.number ≠ 0 := fun hzero =>
    (hn.number_eq_zero hmined).mp hzero hroom.1
  have hfresh : ∀ id ∈ b.ids, n.chain.contains id = false := by
    intro id hid
    rw [ids_of_attempt hmined] at hid
    rcases List.mem_append.mp hid with hid | hid
    · obtain ⟨t, ht, rfl⟩ := List.mem_map.mp hid
      exact contains_of_mem_sift ht
    · rw [List.mem_singleton.mp hid]
      exact hnew
  obtain ⟨g, hstep⟩ := haccepted.exists_extends hnumber hfresh
  exact ⟨⟨n.chain.blocks ++ [b], g, by simp⟩, Chain.extend_eq_ok.mpr ⟨hstep, rfl⟩⟩

/-- Without room the chain refuses it. -/
theorem Regular.extend_of_not_room (hroom : ¬ n.HasRoom s) :
    n.chain.extend Block.validate b = .error n.overflow := by
  unfold Chain.extend overflow
  by_cases hlength : n.chain.length < UInt64.size
  · have hnumber : b.header.number ≠ 0 := fun hzero =>
      (hn.number_eq_zero hmined).mp hzero hlength
    have hfull : UInt64.size ≤ (s.balanceAt n.wallet.address).toNat + miningReward.toNat :=
      Nat.not_lt.mp fun h => hroom ⟨hlength, h⟩
    have hvalid : Block.validate n.chain.tip b n.chain.state =
        .error (.transaction (.balanceOverflow n.wallet.address)) := by
      rw [hn.validate_of_attempt hmined hout, transactions_of_attempt hmined,
        Transaction.validateSeries_append_reward_of_full hseries hfull]
      rfl
    have hcheck : n.chain.progress.check Block.validate n.chain.tip b =
        .error (.transaction (.balanceOverflow n.wallet.address)) := by
      rw [Progress.check, show n.chain.progress.state = n.chain.state from rfl, hvalid]
      rfl
    rw [if_neg hnumber, if_pos hlength, hcheck]
    rfl
  · rw [if_pos ((hn.number_eq_zero hmined).mpr hlength), if_neg hlength]
    rfl

end

/-- On top of genesis every draw is a block. -/
theorem isSome_attempt_of_tip_eq (htip : n.chain.tip = genesis) (rewardId : String)
    (draw : Draw) : ((n.ticket rewardId).job.attempt draw).isSome = true := by
  have htarget : (n.ticket rewardId).job.target = .max := by
    show n.chain.tip.header.target = .max
    rw [htip]
    exact target_genesis
  rw [MiningJob.attempt_of_target_eq_max htarget]
  rfl

/-! ## Closing the job -/

/-- The block of a job is on the chain that the node had, and goes out if the link is up. -/
structure Committed (n : Node) (link : Link) (b : Block) (effect : Effect Block) : Prop where
  /-- The state and the identifiers are those after the block, too. -/
  chain : n.chain.extend Block.validate b = .ok effect.node.chain
  blocks : effect.node.chain.blocks = n.chain.blocks ++ [b]
  epoch : effect.node.epoch = n.epoch + 1
  pool : effect.node.pool = n.pool.clear b.transactions
  idle : effect.node.mining = false
  sent : effect.sent = (link.send (.block b)).toOption.getD []
  /-- An error can only come from the link. -/
  result : effect.result = ((link.send (.block b)).map fun _ => b).mapError .gossip

section

variable {ticket : Ticket} {b : Block} (hepoch : n.epoch = ticket.epoch)
include hepoch

theorem closeJob_of_extend {c : Chain} (link : Link)
    (h : n.chain.extend Block.validate b = .ok c) :
    n.closeJob link ticket (some b) =
      { node := { n with
          chain := c
          pool := n.pool.clear b.transactions
          epoch := n.epoch + 1
          mining := false }
        sent := (link.send (.block b)).toOption.getD []
        result := ((link.send (.block b)).map fun _ => b).mapError .gossip } := by
  have hadd : { n with mining := false }.addBlock b =
      .ok { n with
        chain := c, pool := n.pool.clear b.transactions, epoch := n.epoch + 1, mining := false } :=
    addBlock_eq_ok.mpr ⟨c, h, rfl⟩
  simp only [closeJob, if_neg (not_not_intro hepoch), hadd]
  cases link with
  | up => rfl
  | down reason => rfl

theorem committed_of_extend {c : Chain} (link : Link)
    (h : n.chain.extend Block.validate b = .ok c) :
    Committed n link b (n.closeJob link ticket (some b)) := by
  rw [closeJob_of_extend hepoch link h]
  exact ⟨h, (Chain.extend_eq_ok.mp h).2, rfl, rfl, rfl, rfl, rfl⟩

theorem closeJob_of_extend_error {e : ChainError} (link : Link)
    (h : n.chain.extend Block.validate b = .error e) :
    n.closeJob link ticket (some b) = ⟨{ n with mining := false }, [], .error (.chain e)⟩ := by
  have hadd : { n with mining := false }.addBlock b = .error (.chain e) := by
    simp only [addBlock, Chain.addBlock, h]
    rfl
  simp only [closeJob, if_neg (not_not_intro hepoch), hadd]

end

/-! ## Mining on a tip that stays -/

/-- The block is on the chain, and what is pooled came in while it was mined. -/
structure Appended (n : Node) (during : List Call) (link : Link) (b : Block)
    (effect : Effect Block) : Prop where
  blocks : effect.node.chain.blocks = n.chain.blocks ++ [b]
  /-- An error can only come from the link. -/
  result : effect.result = ((link.send (.block b)).map fun _ => b).mapError .gossip
  pool : effect.node.pool.toList.Sublist (during.filterMap Call.offers)
  cleared : ∀ t ∈ b.transactions, effect.node.pool.contains t.id = false

/-- The chain is as it was, and the transactions of the block are still pooled. -/
structure Stuck (n : Node) (effect : Effect Block) : Prop where
  chain : effect.node.chain = n.chain
  result : effect.result = .error (.chain n.overflow)
  pool : n.applicable.1.Sublist effect.node.pool.toList

section

variable {during : List Call} {rewardId : String}
  (hn : n.Regular) (htip : (n.opened.afterAll during).chain.tip = n.chain.tip)
include hn htip

/-- While the tip stays, chain and epoch stay, and the pool keeps what applies. -/
theorem Regular.busy_of_tip_eq :
    let busy := n.opened.afterAll during
    busy.chain = n.chain ∧ busy.epoch = n.epoch ∧ busy.pool.Indexed ∧
      n.applicable.1.Sublist busy.pool.toList ∧
      busy.pool.toList.Sublist (n.applicable.1 ++ during.filterMap Call.offers) := by
  intro busy
  obtain ⟨hopened, hlist⟩ := hn.opened
  obtain ⟨hbusy, hsince⟩ := hopened.afterAll during
  have hlength : busy.chain.length = n.chain.length := by
    rw [Chain.length_eq_of_grown hbusy.grown, htip, Chain.length_eq_of_grown hn.grown]
  obtain ⟨hchain, hepoch⟩ := hsince.chain (Nat.le_of_eq hlength)
  rw [← hlist]
  exact ⟨hchain, hepoch, hbusy.pool, hsince.kept rfl (Nat.le_of_eq hlength), hsince.pool⟩

variable (link : Link) {draws : Nat → Draw} {attempts : Nat} (hidle : n.mining = false)
  (hfound : ∃ i < attempts, ((n.ticket rewardId).job.attempt (draws i)).isSome = true)
include hidle hfound

/-- The search of a job ends with a block, and with this the job closes. -/
theorem Regular.exists_closeJob : ∃ b draw,
    (n.ticket rewardId).job.attempt draw = some b ∧
      n.mineDuring during link rewardId draws attempts =
        (n.opened.afterAll during).closeJob link (n.ticket rewardId) (some b) := by
  obtain ⟨-, hepoch, -⟩ := hn.busy_of_tip_eq htip
  obtain ⟨i, hi, hattempt⟩ := hfound
  rw [← Nat.zero_add i] at hattempt
  have hcancelled : ∀ _ : Nat,
      decide ((n.opened.afterAll during).epoch ≠ (n.ticket rewardId).epoch) = false := by
    intro _
    rw [hepoch]
    exact decide_eq_false (not_not_intro rfl)
  obtain ⟨b, draw, hsearch, hmined⟩ := MiningJob.search_eq_some hcancelled hi hattempt
  refine ⟨b, draw, hmined, ?_⟩
  unfold mineDuring
  rw [openJob_of_idle hidle]
  simp only
  rw [search, hsearch]

/-- A job on a tip that stays ends with its block on the chain if there is room, and otherwise
with its transactions in the pool. -/
theorem Regular.mineDuring (hnew : n.chain.contains rewardId = false)
    (hout : rewardId ∉ n.applicable.1.map (·.id)) :
    let effect := n.mineDuring during link rewardId draws attempts
    ∃ b s, b.transactions = n.applicable.1 ++ [.reward n.wallet.address rewardId] ∧
      Transaction.validateAndRun n.applicable.1 n.chain.state = .ok s ∧
      (n.HasRoom s → Appended n during link b effect) ∧
      (¬ n.HasRoom s → Stuck n effect) := by
  intro effect
  obtain ⟨hchain, hepoch, hindexed, hkept, hpool⟩ := hn.busy_of_tip_eq htip
  obtain ⟨b, draw, hmined, hclose⟩ := hn.exists_closeJob htip link hidle hfound
  obtain ⟨s, hseries⟩ := validateAndRun_sift n.chain n.pool.toList n.chain.state
  have htransactions := transactions_of_attempt hmined
  refine ⟨b, s, htransactions, hseries, fun hroom => ?_, fun hroom => ?_⟩
  · obtain ⟨c, hextend⟩ := hn.extend_of_room hmined hout hseries hnew hroom
    rw [← hchain] at hextend
    have hcommitted : Committed _ link b effect := hclose ▸ committed_of_extend hepoch link hextend
    have hincluded : ∀ t ∈ n.applicable.1, t ∈ b.transactions := by
      intro t ht
      rw [htransactions]
      exact List.mem_append_left _ ht
    constructor
    case blocks =>
      rw [hcommitted.blocks, hchain]
    case result => exact hcommitted.result
    case pool =>
      rw [hcommitted.pool]
      exact hindexed.sublist_clear hpool hincluded
    case cleared =>
      intro t ht
      rw [hcommitted.pool]
      exact Pool.contains_clear_of_mem _ ht
  · have hextend := hn.extend_of_not_room hmined hout hseries hroom
    have heffect : effect = _ := hclose.trans
      (closeJob_of_extend_error hepoch link (by rw [hchain]; exact hextend))
    rw [heffect]
    exact ⟨hchain, rfl, hkept⟩

end

/-- After any calls on a new node the transactions that apply are in the order in which calls
brought them, and a job with other calls in between leads where some calls lead one after
another.  If the tip stays the job ends with its block on the chain, those transactions and the
reward in it and nothing of them left in the pool, exactly if there is room for number and reward.

A charge, the value together with the gas, wraps around here.  Where such sums are checked, as in
`siftInPlace`, choosing what to mine stops at a charge that is no 64-bit number. -/
theorem mineDuring_of_tip_eq (name : String) (wallet : Wallet) (calls during : List Call)
    (link : Link) (rewardId : String) (draws : Nat → Draw) (attempts : Nat) :
    let n := (new name wallet).afterAll calls
    let effect := n.mineDuring during link rewardId draws attempts
    n.applicable.1.Sublist (calls.filterMap Call.offers) ∧
    (∃ more, effect.node = (new name wallet).afterAll (calls ++ more)) ∧
    ((n.opened.afterAll during).chain.tip = n.chain.tip →
      n.chain.contains rewardId = false → rewardId ∉ n.applicable.1.map (·.id) →
      (∃ i < attempts, ((n.ticket rewardId).job.attempt (draws i)).isSome = true) →
      ∃ b s, b.transactions = n.applicable.1 ++ [.reward wallet.address rewardId] ∧
        Transaction.validateAndRun n.applicable.1 n.chain.state = .ok s ∧
        (n.HasRoom s → Appended n during link b effect) ∧
        (¬ n.HasRoom s → Stuck n effect)) := by
  intro n effect
  obtain ⟨hn, hsince⟩ := (regular_new name wallet).afterAll calls
  refine ⟨(sublist_applicable n).trans hsince.pool, ?_, fun htip hnew hout hfound => ?_⟩
  · obtain ⟨more, hmore⟩ := exists_calls_of_mineDuring during link n rewardId draws attempts
    exact ⟨more, hmore.trans (afterAll_append _ calls more).symm⟩
  · have hwallet : n.wallet = wallet := hsince.wallet
    rw [← hwallet]
    exact hn.mineDuring htip link hsince.mining hfound hnew hout

/-! ## A published account of the node -/

/-- The publication of an account without code. -/
def publication (address : String) (balance : UInt64) : Transaction :=
  .createAccount (.new address balance []) "publication"

/-- A new node to which the account of its own wallet was submitted, with any balance. -/
def published (wallet : Wallet) (balance : UInt64) : Node :=
  (new "node" wallet).afterAll [.submit .up (publication wallet.address balance)]

section

variable (wallet : Wallet) (balance : UInt64)

theorem accountSnapshot_publication (address : String) :
    (publication address balance).accountSnapshot = .ok (.new address balance []) :=
  Transaction.accountSnapshot_createAccount "publication" rfl rfl

theorem published_eq : published wallet balance = { new "node" wallet with
    pool := (Pool.empty.add (publication wallet.address balance)).2 } := by
  have hpool : (new "node" wallet).poolTransaction (publication wallet.address balance) = .ok _ :=
    poolTransaction_eq_ok.mpr
      ⟨rfl, Std.HashSet.contains_empty, Std.HashMap.contains_empty, rfl⟩
  show ((new "node" wallet).submit .up (publication wallet.address balance)).node = _
  simp only [submit, hpool]
  rfl

theorem toList_published :
    (published wallet balance).pool.toList = [publication wallet.address balance] := by
  rw [published_eq]
  exact Pool.indexed_empty.toList_add Std.HashMap.contains_empty

theorem contains_published (id : String) :
    (published wallet balance).chain.contains id = false := by
  rw [published_eq]
  exact Std.HashSet.contains_empty

/-- The publication applies. -/
theorem applicable_published :
    (published wallet balance).applicable.1 = [publication wallet.address balance] := by
  obtain ⟨hvalid, s, hrun⟩ := Transaction.exists_run_publication
    (accountSnapshot_publication balance wallet.address)
    (State.bareAt_eq_none.mpr (State.account?_empty _))
  have happlies : Applies .new (publication wallet.address balance) .empty s :=
    ⟨Std.HashSet.contains_empty, hvalid, hrun⟩
  rw [applicable_eq, toList_published, published_eq]
  show (sift .new [_] .empty).1 = _
  rw [sift_cons_of_applies happlies]
  rfl

/-- There is room for the reward if the published balance leaves it. -/
theorem hasRoom_published {s : State}
    (h : Transaction.validateAndRun (published wallet balance).applicable.1
      (published wallet balance).chain.state = .ok s) :
    (published wallet balance).HasRoom s ↔
      balance.toNat + miningReward.toNat < UInt64.size := by
  rw [applicable_published, published_eq] at h
  obtain ⟨-, s', hrun, hlast⟩ := Transaction.validateAndRun_cons_eq_ok.mp h
  cases hlast
  have hbalance := Transaction.balanceAt_run_publication State.wellFormed_empty
    (accountSnapshot_publication balance wallet.address) hrun wallet.address
  rw [State.balanceAt_of_none (State.account?_empty _), UInt64.zero_add] at hbalance
  have hheld : s.balanceAt wallet.address = balance := hbalance.trans (if_pos rfl)
  unfold HasRoom
  rw [published_eq]
  show (1 < UInt64.size ∧ (s.balanceAt wallet.address).toNat + _ < _) ↔ _
  rw [hheld]
  exact and_iff_right (by decide)

theorem isSome_attempt_published (rewardId : String) (draw : Draw) :
    (((published wallet balance).ticket rewardId).job.attempt draw).isSome = true := by
  refine isSome_attempt_of_tip_eq ?_ rewardId draw
  rw [published_eq]
  rfl

theorem notMem_published : "reward" ∉ (published wallet balance).applicable.1.map (·.id) := by
  have hne : "reward" ≠ "publication" := by decide
  rw [applicable_published]
  exact List.not_mem_cons_of_ne_of_not_mem hne List.not_mem_nil

/-- A published balance that leaves no room stops the node, whatever it draws. -/
theorem stuck_published (hfull : UInt64.size ≤ balance.toNat + miningReward.toNat)
    (draws : Nat → Draw) (attempts : Nat) :
    Stuck (published wallet balance)
      ((published wallet balance).mine .up "reward" draws (attempts + 1)) := by
  obtain ⟨hn, hsince⟩ := (regular_new "node" wallet).afterAll
    [.submit .up (publication wallet.address balance)]
  have htip : ((published wallet balance).opened.afterAll []).chain.tip =
      (published wallet balance).chain.tip := rfl
  have hfound := isSome_attempt_published wallet balance "reward" (draws 0)
  obtain ⟨b, s, -, hseries, -, hstuck⟩ := hn.mineDuring htip .up hsince.mining
    ⟨0, Nat.succ_pos attempts, hfound⟩ (contains_published wallet balance _)
    (notMem_published wallet balance)
  rw [mineDuring_nil] at hstuck
  exact hstuck fun hroom =>
    absurd ((hasRoom_published wallet balance hseries).mp hroom) (Nat.not_lt.mpr hfull)

theorem overflow_published : (published wallet balance).overflow =
    .block (.transaction (.balanceOverflow wallet.address)) := by
  rw [published_eq]
  exact if_pos (show 1 < UInt64.size by decide)

end

/-- The wallet of the secret 1. -/
def miner : Wallet := .ofKey ⟨1, by decide⟩ []

/-- A node mines the publication of its own account, with the starting balance. -/
theorem published_appends : ∃ b,
    b.transactions = [publication miner.address startingBalance, .reward miner.address "reward"] ∧
      Appended (published miner startingBalance) [] .up b
        ((published miner startingBalance).mineDuring [] .up "reward" (fun _ => ⟨0, 0⟩) 1) := by
  obtain ⟨-, -, hmines⟩ :=
    mineDuring_of_tip_eq "node" miner [.submit .up (publication miner.address startingBalance)]
      [] .up "reward" (fun _ => ⟨0, 0⟩) 1
  obtain ⟨b, s, htransactions, hseries, happended, -⟩ :=
    hmines rfl (contains_published miner startingBalance _)
      (notMem_published miner startingBalance)
      ⟨0, Nat.zero_lt_one, isSome_attempt_published miner startingBalance _ _⟩
  have hroom := (hasRoom_published miner startingBalance hseries).mpr (by decide)
  refine ⟨b, ?_, happended hroom⟩
  exact htransactions.trans
    (congrArg (· ++ [_]) (applicable_published miner startingBalance))

/-- Whoever submits the account of a node with the largest balance stops it: the transaction
applies, the block is refused, and the transaction stays. -/
theorem exists_stuck :
    let n := published miner (.ofNat (UInt64.size - 1))
    let effect := n.mine .up "reward" (fun _ => ⟨0, 0⟩) 1
    n.chain.contains "reward" = false ∧ "reward" ∉ n.pool.toList.map (·.id) ∧
      ((n.ticket "reward").job.attempt ⟨0, 0⟩).isSome = true ∧
      effect.result = .error (.chain (.block (.transaction (.balanceOverflow miner.address)))) ∧
      effect.node.chain = n.chain ∧
      n.pool.toList ≠ [] ∧ ∀ t ∈ n.pool.toList, t ∈ effect.node.pool.toList := by
  intro n effect
  obtain ⟨hchain, hresult, hpool⟩ :=
    stuck_published miner (.ofNat (UInt64.size - 1)) (by decide) (fun _ => ⟨0, 0⟩) 0
  rw [overflow_published] at hresult
  rw [applicable_published, ← toList_published] at hpool
  have hfresh := notMem_published miner (.ofNat (UInt64.size - 1))
  rw [applicable_published, ← toList_published] at hfresh
  have hpooled : n.pool.toList ≠ [] := by
    rw [toList_published]
    exact List.cons_ne_nil _ _
  exact ⟨contains_published _ _ _, hfresh, isSome_attempt_published _ _ _ _, hresult, hchain,
    hpooled, fun t ht => hpool.subset ht⟩

end WorkLedger.Node
