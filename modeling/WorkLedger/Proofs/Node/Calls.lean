/-
# What calls do to a node

A call submits a transaction, takes in a message, offers a chain or mines.  Whatever it is, it
comes down to one of four steps: nothing changes, one transaction goes into the pool,
transactions leave the pool, or the chain moves on to a longer one and the epoch counts it.
From the steps follows what a run of calls preserves, and what it leaves of the node before it.
-/
import WorkLedger.Proofs.Chain.Consistency
import WorkLedger.Proofs.Node.Sifting

namespace WorkLedger

/-! ## Chains that move on -/

namespace Chain

variable {rule : BlockRule} {c c' : Chain}

theorem after_add_of_extend {b : Block} (h : c.extend rule b = .ok c') (pool : Pool) :
    c.after rule (.add b pool) = c' := by
  have hadd : c.addBlock rule b pool = .ok (c', pool.clear b.transactions) :=
    addBlock_eq_ok.mpr ⟨h, rfl⟩
  simp only [after, hadd]

theorem after_replace_of_replace {candidate : List Block}
    (h : c.replace rule candidate = .ok c') : c.after rule (.replace candidate) = c' := by
  simp only [after, h]

/-- The number of the tip tells the length. -/
theorem length_eq_of_grown (h : Grown Block.validate c.blocks c.progress) :
    c.length = c.tip.header.number.toNat + 1 := by
  have hpos : 0 < c.length := List.length_pos_iff.mpr c.nonempty
  have htip := c.getLast?_blocks
  rw [List.getLast?_eq_getElem?] at htip
  rw [h.consistent.number _ _ htip]
  exact (Nat.sub_add_cancel hpos).symm

end Chain

namespace Node

variable {n n' : Node} {t : Transaction}

/-! ## Single operations -/

theorem poolTransaction_eq (n : Node) (t : Transaction) : n.poolTransaction t =
    if t.isReward then .error (.rewardNotAccepted t.id)
    else if n.chain.contains t.id then .error (.duplicateTransaction t.id)
    else if n.pool.contains t.id then .error (.duplicateTransaction t.id)
    else .ok { n with pool := ⟨n.pool.transactions.insert t.id t, n.pool.order ++ [t.id]⟩ } := by
  unfold poolTransaction Pool.add
  cases n.pool.contains t.id <;> rfl

theorem poolTransaction_eq_ok : n.poolTransaction t = .ok n' ↔
    t.isReward = false ∧ n.chain.contains t.id = false ∧ n.pool.contains t.id = false ∧
      n' = { n with pool := (n.pool.add t).2 } := by
  unfold poolTransaction
  cases hreward : t.isReward with
  | true => exact ⟨nofun, nofun⟩
  | false =>
      cases hchain : n.chain.contains t.id with
      | true => exact ⟨nofun, nofun⟩
      | false =>
          cases hpool : n.pool.contains t.id with
          | true =>
              rw [Pool.add_of_contains hpool]
              exact ⟨nofun, nofun⟩
          | false =>
              rw [Pool.add_of_not_contains hpool]
              constructor
              · rintro ⟨⟩
                exact ⟨rfl, rfl, rfl, rfl⟩
              · rintro ⟨-, -, -, rfl⟩
                rfl

theorem addBlock_eq (n : Node) (b : Block) : n.addBlock b =
    ((n.chain.addBlock Block.validate b n.pool).mapError .chain >>= fun r =>
      .ok { n with chain := r.1, pool := r.2, epoch := n.epoch + 1 }) := by
  unfold addBlock
  cases n.chain.addBlock Block.validate b n.pool <;> rfl

theorem addBlock_eq_ok {b : Block} : n.addBlock b = .ok n' ↔
    ∃ c, n.chain.extend Block.validate b = .ok c ∧
      n' = { n with chain := c, pool := n.pool.clear b.transactions, epoch := n.epoch + 1 } := by
  rw [addBlock_eq, bind_eq_ok]
  constructor
  · rintro ⟨⟨c, pool⟩, hadd, ⟨⟩⟩
    obtain ⟨hextend, rfl⟩ := Chain.addBlock_eq_ok.mp (mapError_eq_ok.mp hadd)
    exact ⟨c, hextend, rfl⟩
  · rintro ⟨c, hextend, rfl⟩
    exact ⟨(c, _), mapError_eq_ok.mpr (Chain.addBlock_eq_ok.mpr ⟨hextend, rfl⟩), rfl⟩

/-- The series of blocks cleared one after another are cleared all at once. -/
theorem foldl_clear (p : Pool) (series : List Transaction) (blocks : List Block) :
    blocks.foldl (fun p b => p.clear b.transactions) (p.clear series) =
      p.clear (series ++ blocks.flatMap (·.transactions)) := by
  induction blocks generalizing series with
  | nil => rw [List.flatMap_nil, List.append_nil, List.foldl_nil]
  | cons b rest ih =>
      rw [List.foldl_cons, Pool.clear_clear, ih, List.flatMap_cons, List.append_assoc]

theorem sync_eq (n : Node) (candidate : List Block) : n.sync candidate =
    ((n.chain.replace Block.validate candidate).mapError .chain >>= fun c =>
      .ok { n with
        chain := c
        pool := c.blocks.foldl (fun pool b => pool.clear b.transactions) n.pool
        epoch := n.epoch + 1 }) := by
  unfold sync
  cases n.chain.replace Block.validate candidate <;> rfl

theorem sync_eq_ok {candidate : List Block} : n.sync candidate = .ok n' ↔
    ∃ c, n.chain.replace Block.validate candidate = .ok c ∧
      n' = { n with
        chain := c
        pool := n.pool.clear (c.blocks.flatMap (·.transactions))
        epoch := n.epoch + 1 } := by
  have hpool : ∀ c : Chain, c.blocks.foldl (fun p b => p.clear b.transactions) n.pool =
      n.pool.clear (c.blocks.flatMap (·.transactions)) := by
    intro c
    obtain ⟨b, rest, hblocks⟩ := List.exists_cons_of_ne_nil c.nonempty
    rw [hblocks, List.foldl_cons, foldl_clear, List.flatMap_cons]
  rw [sync_eq, bind_eq_ok]
  constructor
  · rintro ⟨c, hreplace, ⟨⟩⟩
    refine ⟨c, mapError_eq_ok.mp hreplace, ?_⟩
    rw [hpool]
  · rintro ⟨c, hreplace, rfl⟩
    refine ⟨c, mapError_eq_ok.mpr hreplace, ?_⟩
    rw [hpool]

/-- The job that a node opens. -/
def ticket (n : Node) (rewardId : String) : Ticket :=
  ⟨.new n.chain.tip n.wallet.address n.applicable.1 n.chain.state.root rewardId, n.epoch⟩

/-- A node that has opened a job. -/
def opened (n : Node) : Node := { n with pool := n.pool.clear n.stale, mining := true }

theorem openJob_of_idle (h : n.mining = false) (rewardId : String) :
    n.openJob rewardId = .ok (n.ticket rewardId, n.opened) := by
  unfold openJob
  rw [h]
  rfl

theorem openJob_of_mining (h : n.mining = true) (rewardId : String) :
    n.openJob rewardId = .error .miningInProgress := if_pos h

/-! ## Calls -/

/-- A call that may change a node. -/
inductive Call where
  /-- Submits a transaction. -/
  | submit (link : Link) (t : Transaction)
  /-- Takes in a message. -/
  | handle (m : Message)
  /-- Offers another chain. -/
  | sync (candidate : List Block)
  /-- Mines a block. -/
  | mine (link : Link) (rewardId : String) (draws : Nat → Draw) (attempts : Nat)

/-- The transaction that a call brings. -/
def Call.offers : Call → Option Transaction
  | .submit _ t => some t
  | .handle (.transaction t) => some t
  | _ => none

/-- The node after a call. -/
def after (n : Node) : Call → Node
  | .submit link t => (n.submit link t).node
  | .handle m => (n.handle m).toOption.getD n
  | .sync candidate => (n.sync candidate).toOption.getD n
  | .mine link rewardId draws attempts => (n.mine link rewardId draws attempts).node

/-- The node after a sequence of calls. -/
def afterAll (n : Node) (calls : List Call) : Node := calls.foldl after n

theorem afterAll_append (n : Node) (calls calls' : List Call) :
    n.afterAll (calls ++ calls') = (n.afterAll calls).afterAll calls' :=
  List.foldl_append

/-- What a call can do. -/
inductive Step (n : Node) (call : Call) : Node → Prop
  | refused : Step n call n
  | pooled {t : Transaction} : call.offers = some t → t.isReward = false →
      n.chain.contains t.id = false → n.pool.contains t.id = false →
      Step n call { n with pool := (n.pool.add t).2 }
  /-- Only a node that was not mining drops transactions. -/
  | dropped (gone : List Transaction) : n.mining = false →
      Step n call { n with pool := n.pool.clear gone }
  | moved {c : Chain} (change : Chain.Call) (gone : List Transaction) :
      n.chain.after Block.validate change = c → n.chain.length < c.length →
      Step n call { n with chain := c, pool := n.pool.clear gone, epoch := n.epoch + 1 }

variable {call : Call}

theorem step_of_poolTransaction (hoffers : call.offers = some t)
    (h : n.poolTransaction t = .ok n') : Step n call n' := by
  obtain ⟨hreward, hchain, hpool, rfl⟩ := poolTransaction_eq_ok.mp h
  exact .pooled hoffers hreward hchain hpool

theorem step_of_addBlock {b : Block} (h : n.addBlock b = .ok n') : Step n call n' := by
  obtain ⟨c, hextend, rfl⟩ := addBlock_eq_ok.mp h
  have hlength := Chain.length_of_extend hextend
  exact .moved (.add b n.pool) b.transactions (Chain.after_add_of_extend hextend n.pool) (by omega)

theorem step_of_sync {candidate : List Block} (h : n.sync candidate = .ok n') :
    Step n call n' := by
  obtain ⟨c, hreplace, rfl⟩ := sync_eq_ok.mp h
  exact .moved (.replace candidate) _ (Chain.after_replace_of_replace hreplace)
    (Chain.length_lt_of_replace hreplace)

/-- A job closes without a change, or with a block on the chain. -/
theorem closeJob_cases (link : Link) (n : Node) (ticket : Ticket) (found : Option Block) :
    (n.closeJob link ticket found).node = { n with mining := false } ∨
      ∃ b, { n with mining := false }.addBlock b = .ok (n.closeJob link ticket found).node := by
  unfold closeJob
  cases found with
  | none => exact .inl rfl
  | some b =>
      by_cases hepoch : n.epoch = ticket.epoch
      · simp only [if_neg (not_not_intro hepoch)]
        cases hadd : { n with mining := false }.addBlock b with
        | error e => exact .inl rfl
        | ok n' =>
            refine .inr ⟨b, ?_⟩
            rw [hadd]
            cases link <;> rfl
      · refine .inl ?_
        simp only [if_pos hepoch]

theorem step_mine (link : Link) (rewardId : String) (draws : Nat → Draw) (attempts : Nat) :
    Step n call (n.mine link rewardId draws attempts).node := by
  unfold mine
  cases hmining : n.mining with
  | true =>
      rw [openJob_of_mining hmining]
      exact .refused
  | false =>
      rw [openJob_of_idle hmining]
      have hidle : { n.opened with mining := false } =
          { n with pool := n.pool.clear n.stale } := by
        rw [opened, ← hmining]
      have hcases := closeJob_cases link n.opened (n.ticket rewardId)
        (n.opened.search (n.ticket rewardId) draws attempts)
      rw [hidle] at hcases
      rcases hcases with hnode | ⟨b, hadd⟩
      · simp only [hnode]
        exact .dropped n.stale hmining
      · obtain ⟨c, hextend, hnode⟩ := addBlock_eq_ok.mp hadd
        have hlength : c.length = n.chain.length + 1 := Chain.length_of_extend hextend
        simp only [hnode, Pool.clear_clear]
        exact .moved (.add b n.pool) _ (Chain.after_add_of_extend hextend n.pool) (by omega)

/-- Every call is a step. -/
theorem step_after (n : Node) (call : Call) : Step n call (n.after call) := by
  cases call with
  | submit link t =>
      simp only [after, submit]
      cases hpool : n.poolTransaction t with
      | error e => exact .refused
      | ok n' =>
          have hstep : Step n (.submit link t) n' := step_of_poolTransaction rfl hpool
          cases link with
          | up => exact hstep
          | down reason => exact hstep
  | handle m =>
      simp only [after]
      cases hhandle : n.handle m with
      | error e => exact .refused
      | ok n' =>
          cases m with
          | block b => exact step_of_addBlock hhandle
          | transaction t => exact step_of_poolTransaction rfl hhandle
  | sync candidate =>
      simp only [after]
      cases hsync : n.sync candidate with
      | error e => exact .refused
      | ok n' => exact step_of_sync hsync
  | mine link rewardId draws attempts => exact step_mine link rewardId draws attempts

/-! ## What calls preserve -/

theorem Step.mining_eq (h : Step n call n') : n'.mining = n.mining := by
  cases h <;> rfl

/-- The chain has grown, and the pool is in order and without rewards. -/
structure Regular (n : Node) : Prop where
  grown : Grown Block.validate n.chain.blocks n.chain.progress
  pool : n.pool.Indexed
  rewards : ∀ t ∈ n.pool.toList, t.isReward = false

theorem regular_new (name : String) (wallet : Wallet) : (new name wallet).Regular where
  grown := .genesis
  pool := Pool.indexed_empty
  rewards := fun _ ht => nomatch ht

theorem Regular.step (hn : n.Regular) (h : Step n call n') : n'.Regular := by
  cases h with
  | refused => exact hn
  | @pooled t _ hreward _ hnew =>
      refine ⟨hn.grown, hn.pool.add t, ?_⟩
      intro u hu
      rw [hn.pool.toList_add hnew] at hu
      rcases List.mem_append.mp hu with hu | hu
      · exact hn.rewards u hu
      · rw [List.mem_singleton.mp hu]
        exact hreward
  | dropped gone _ =>
      exact ⟨hn.grown, hn.pool.clear gone,
        fun t ht => hn.rewards t (hn.pool.mem_toList_clear.mp ht).1⟩
  | moved change gone hchange _ =>
      refine ⟨?_, hn.pool.clear gone,
        fun t ht => hn.rewards t (hn.pool.mem_toList_clear.mp ht).1⟩
      rw [← hchange]
      exact Chain.grown_after hn.grown change

/-! ## What calls leave -/

/-- What calls leave of a node. -/
structure Since (n : Node) (calls : List Call) (n' : Node) : Prop where
  wallet : n'.wallet = n.wallet
  mining : n'.mining = n.mining
  length : n.chain.length ≤ n'.chain.length
  /-- A chain that is not longer is the same, and the epoch has not counted. -/
  chain : n'.chain.length ≤ n.chain.length → n'.chain = n.chain ∧ n'.epoch = n.epoch
  /-- What is pooled stood in the pool or was brought, and in this order. -/
  pool : n'.pool.toList.Sublist (n.pool.toList ++ calls.filterMap Call.offers)
  /-- During a job only a new chain takes something out of the pool. -/
  kept : n.mining = true → n'.chain.length ≤ n.chain.length →
    n.pool.toList.Sublist n'.pool.toList

theorem since_refl (n : Node) : Since n [] n where
  wallet := rfl
  mining := rfl
  length := Nat.le_refl _
  chain := fun _ => ⟨rfl, rfl⟩
  pool := by
    rw [List.filterMap_nil, List.append_nil]
  kept := fun _ _ => .refl _

theorem Since.trans {n'' : Node} {calls calls' : List Call} (h : Since n calls n')
    (h' : Since n' calls' n'') : Since n (calls ++ calls') n'' where
  wallet := h'.wallet.trans h.wallet
  mining := h'.mining.trans h.mining
  length := Nat.le_trans h.length h'.length
  chain := by
    intro hlength
    have hfirst := h.length
    have hsecond := h'.length
    obtain ⟨hchain', hepoch'⟩ := h'.chain (by omega)
    obtain ⟨hchain, hepoch⟩ := h.chain (by omega)
    exact ⟨hchain'.trans hchain, hepoch'.trans hepoch⟩
  pool := by
    rw [List.filterMap_append, ← List.append_assoc]
    exact h'.pool.trans (h.pool.append_right _)
  kept := by
    intro hmining hlength
    have hfirst := h.length
    have hsecond := h'.length
    exact (h.kept hmining (by omega)).trans (h'.kept (h.mining.trans hmining) (by omega))

theorem Step.since (hn : n.Regular) (h : Step n call n') : Since n [call] n' := by
  have hclear (gone : List Transaction) :
      (n.pool.clear gone).toList.Sublist (n.pool.toList ++ [call].filterMap Call.offers) := by
    rw [hn.pool.toList_clear]
    exact List.filter_sublist.trans (List.sublist_append_left _ _)
  cases h with
  | refused =>
      exact ⟨rfl, rfl, Nat.le_refl _, fun _ => ⟨rfl, rfl⟩, List.sublist_append_left _ _,
        fun _ _ => .refl _⟩
  | @pooled t hoffers _ _ hnew =>
      have hpool := hn.pool.toList_add hnew
      refine ⟨rfl, rfl, Nat.le_refl _, fun _ => ⟨rfl, rfl⟩, ?_, fun _ _ => ?_⟩
      · rw [hpool, List.filterMap_cons, hoffers]
        exact .refl _
      · rw [hpool]
        exact List.sublist_append_left _ _
  | dropped gone hmining =>
      refine ⟨rfl, rfl, Nat.le_refl _, fun _ => ⟨rfl, rfl⟩, hclear gone, fun hbusy _ => ?_⟩
      rw [hmining] at hbusy
      exact nomatch hbusy
  | moved change gone _ hlength =>
      exact ⟨rfl, rfl, Nat.le_of_lt hlength, fun h => absurd hlength (Nat.not_lt.mpr h),
        hclear gone, fun _ h => absurd hlength (Nat.not_lt.mpr h)⟩

/-- A run of calls keeps a node regular, and leaves of it what its steps leave. -/
theorem Regular.afterAll (hn : n.Regular) (calls : List Call) :
    (n.afterAll calls).Regular ∧ Since n calls (n.afterAll calls) := by
  induction calls generalizing n with
  | nil => exact ⟨hn, since_refl n⟩
  | cons call rest ih =>
      have hstep := step_after n call
      obtain ⟨hregular, hsince⟩ := ih (hn.step hstep)
      exact ⟨hregular, (hstep.since hn).trans hsince⟩

end Node

end WorkLedger
