/-
# Jobs and their snapshots

A job is opened on a snapshot of the node and closed some time later.  In between the node takes
in transactions, blocks and whole chains, in any order.  Whether the chain is still that of the
snapshot, the epoch alone has to tell.

It can, because it counts: every step that changes the chain adds one, no other step adds
anything, and a chain that has changed is longer and so never the old one again.  Hence a block
found is added to the very chain, state and identifiers that it was made for, or the job is
cancelled.  What is left to fail is the reward: its number or its balance may overflow.

The epoch is a number here.  A counter of 64 bits tells the same as long as the chain has changed
less than 2 ^ 64 times.
-/
import WorkLedger.Proofs.Chain.Adoption
import WorkLedger.Proofs.Node.Mining
import WorkLedger.Proofs.Node.Pending

namespace WorkLedger

namespace Node

variable {n n' n'' : Node} {call : Call}

/-! ## The epoch counts -/

/-- One step: the chain stays and so does the epoch, or the epoch counts a longer chain. -/
def Ticks (n n' : Node) : Prop :=
  (n'.epoch = n.epoch ∧ n'.chain = n.chain) ∨
    (n'.epoch = n.epoch + 1 ∧ n.chain.length < n'.chain.length)

/-- Any number of steps. -/
def Counted (n n' : Node) : Prop :=
  (n'.epoch = n.epoch ∧ n'.chain = n.chain) ∨
    (n.epoch < n'.epoch ∧ n.chain.length < n'.chain.length)

theorem Ticks.counted (h : Ticks n n') : Counted n n' := by
  rcases h with hsame | ⟨hepoch, hlength⟩
  · exact .inl hsame
  · exact .inr ⟨by omega, hlength⟩

theorem Counted.trans (h : Counted n n') (h' : Counted n' n'') : Counted n n'' := by
  rcases h with ⟨hepoch, hchain⟩ | ⟨hepoch, hlength⟩
  · rcases h' with ⟨hepoch', hchain'⟩ | ⟨hepoch', hlength'⟩
    · exact .inl ⟨hepoch'.trans hepoch, hchain'.trans hchain⟩
    · rw [hchain] at hlength'
      exact .inr ⟨by omega, hlength'⟩
  · rcases h' with ⟨hepoch', hchain'⟩ | ⟨hepoch', hlength'⟩
    · rw [← hchain'] at hlength
      exact .inr ⟨by omega, hlength⟩
    · exact .inr ⟨by omega, by omega⟩

/-- The epoch tells whether the chain is the same. -/
theorem Counted.epoch_eq_iff (h : Counted n n') : n'.epoch = n.epoch ↔ n'.chain = n.chain := by
  rcases h with ⟨hepoch, hchain⟩ | ⟨hepoch, hlength⟩
  · exact ⟨fun _ => hchain, fun _ => hepoch⟩
  · constructor
    · intro heq
      omega
    · intro heq
      rw [heq] at hlength
      exact absurd hlength (Nat.lt_irrefl _)

theorem Step.ticks (h : Step n call n') : Ticks n n' := by
  cases h with
  | refused => exact .inl ⟨rfl, rfl⟩
  | pooled _ _ _ _ => exact .inl ⟨rfl, rfl⟩
  | dropped _ _ => exact .inl ⟨rfl, rfl⟩
  | moved _ _ _ hlength => exact .inr ⟨rfl, hlength⟩

theorem ticks_closeJob (link : Link) (n : Node) (ticket : Ticket) (found : Option Block) :
    Ticks n (n.closeJob link ticket found).node := by
  rcases closeJob_cases link n ticket found with hnode | ⟨b, hadd⟩
  · rw [hnode]
    exact .inl ⟨rfl, rfl⟩
  · have hstep : Step n.idle (.handle (.block b)) _ := step_of_addBlock hadd
    exact hstep.ticks

/-- The epoch as a counter of 64 bits holds it. -/
def counter (n : Node) : UInt64 := .ofNat n.epoch

/-- Two counters that have not come round agree only if the epochs do. -/
theorem counter_eq_iff (hfew : n'.epoch < UInt64.size) (hle : n.epoch ≤ n'.epoch) :
    n'.counter = n.counter ↔ n'.epoch = n.epoch := by
  constructor
  · intro h
    have hnat := congrArg UInt64.toNat h
    unfold counter at hnat
    rwa [UInt64.toNat_ofNat_of_lt' hfew, UInt64.toNat_ofNat_of_lt' (by omega)] at hnat
  · intro h
    unfold counter
    rw [h]

end Node

/-! ## Sessions -/

/-- A job that is open, with the node as it was when the job was opened. -/
structure OpenJob where
  ticket : Ticket
  rewardId : String
  origin : Node

/-- A node with the job that it has open. -/
structure Session where
  node : Node
  job : Option OpenJob

/-- What happens in a session. -/
inductive Turn where
  /-- A call comes in. -/
  | call (call : Node.Call)
  /-- The node opens a job. -/
  | opening (rewardId : String)
  /-- The node closes its job with what the search has come to, which may have been cancelled at
  any attempt. -/
  | closing (link : Link) (cancelled : Nat → Bool) (draws : Nat → Draw) (attempts : Nat)

namespace Session

/-- A new node without a job. -/
def new (name : String) (wallet : Wallet) : Session := ⟨.new name wallet, none⟩

/-- The session after a turn. -/
def after (s : Session) : Turn → Session
  | .call call => { s with node := s.node.after call }
  | .opening rewardId =>
      match s.node.openJob rewardId with
      | .error _ => s
      | .ok (ticket, node) => ⟨node, some ⟨ticket, rewardId, s.node⟩⟩
  | .closing link cancelled draws attempts =>
      match s.job with
      | none => s
      | some job =>
          let found := job.ticket.job.search cancelled draws attempts 0
          ⟨(s.node.closeJob link job.ticket found).node, none⟩

/-- The session after turns. -/
def afterAll (s : Session) (turns : List Turn) : Session := turns.foldl after s

/-- What holds of a session at any time. -/
structure Sound (s : Session) : Prop where
  regular : s.node.Regular
  /-- The node knows whether it has a job open. -/
  mining : s.node.mining = s.job.isSome
  origin : ∀ job, s.job = some job → job.origin.Regular
  /-- The job was made of what the node held when it was opened. -/
  ticket : ∀ job, s.job = some job → job.ticket = job.origin.ticket job.rewardId
  counted : ∀ job, s.job = some job → job.origin.Counted s.node

variable {s : Session}

/-- Without a job there is less to say. -/
theorem sound_of_idle (hregular : s.node.Regular) (hmining : s.node.mining = false)
    (hnone : s.job = none) : s.Sound := by
  have hjob : ∀ job, s.job ≠ some job := by
    intro job h
    rw [hnone] at h
    exact nomatch h
  refine ⟨hregular, ?_, fun job h => absurd h (hjob job), fun job h => absurd h (hjob job),
    fun job h => absurd h (hjob job)⟩
  rw [hmining, hnone]
  rfl

theorem sound_new (name : String) (wallet : Wallet) : (new name wallet).Sound :=
  sound_of_idle (Node.regular_new name wallet) rfl rfl

theorem ticks_after (s : Session) (turn : Turn) : s.node.Ticks (s.after turn).node := by
  cases turn with
  | call call => exact (Node.step_after s.node call).ticks
  | opening rewardId =>
      simp only [after]
      cases hmining : s.node.mining with
      | true =>
          rw [Node.openJob_of_mining hmining]
          exact .inl ⟨rfl, rfl⟩
      | false =>
          rw [Node.openJob_of_idle hmining]
          exact .inl ⟨rfl, rfl⟩
  | closing link cancelled draws attempts =>
      simp only [after]
      cases s.job with
      | none => exact .inl ⟨rfl, rfl⟩
      | some job => exact Node.ticks_closeJob link s.node job.ticket _

theorem Sound.after (h : s.Sound) (turn : Turn) : (s.after turn).Sound := by
  cases turn with
  | call call =>
      have hstep := Node.step_after s.node call
      refine ⟨h.regular.step hstep, hstep.mining_eq.trans h.mining, h.origin, h.ticket, ?_⟩
      intro job hjob
      exact (h.counted job hjob).trans hstep.ticks.counted
  | opening rewardId =>
      simp only [Session.after]
      cases hmining : s.node.mining with
      | true =>
          rw [Node.openJob_of_mining hmining]
          exact h
      | false =>
          rw [Node.openJob_of_idle hmining]
          refine ⟨h.regular.opened.1, rfl, ?_, ?_, ?_⟩
          · rintro job ⟨⟩
            exact h.regular
          · rintro job ⟨⟩
            rfl
          · rintro job ⟨⟩
            exact .inl ⟨rfl, rfl⟩
  | closing link cancelled draws attempts =>
      simp only [Session.after]
      cases hjob : s.job with
      | none => exact h
      | some job =>
          have hidle : s.node.idle.Regular := ⟨h.regular.grown, h.regular.pool, h.regular.rewards⟩
          rcases Node.closeJob_cases link s.node job.ticket
            (job.ticket.job.search cancelled draws attempts 0) with hnode | ⟨b, hadd⟩
          · simp only [hnode]
            exact sound_of_idle hidle rfl rfl
          · have hstep : Node.Step s.node.idle (.handle (.block b)) _ := Node.step_of_addBlock hadd
            exact sound_of_idle (hidle.step hstep) hstep.mining_eq rfl

theorem Sound.afterAll (h : s.Sound) (turns : List Turn) : (s.afterAll turns).Sound := by
  induction turns generalizing s with
  | nil => exact h
  | cons turn rest ih => exact ih (h.after turn)

/-! ## Closing a job -/

section

variable {job : OpenJob} (h : s.Sound) (hjob : s.job = some job)
include h hjob

theorem Sound.epoch_eq_iff :
    s.node.epoch = job.ticket.epoch ↔ s.node.chain = job.origin.chain := by
  rw [h.ticket job hjob]
  exact (h.counted job hjob).epoch_eq_iff

theorem Sound.counter_eq_iff (hfew : s.node.epoch < UInt64.size) :
    s.node.counter = .ofNat job.ticket.epoch ↔ s.node.chain = job.origin.chain := by
  have hcounted := h.counted job hjob
  have hle : job.origin.epoch ≤ s.node.epoch := by
    rcases hcounted with ⟨hepoch, -⟩ | ⟨hepoch, -⟩
    · exact Nat.le_of_eq hepoch.symm
    · exact Nat.le_of_lt hepoch
  rw [h.ticket job hjob]
  exact (Node.counter_eq_iff hfew hle).trans hcounted.epoch_eq_iff

/-- On another chain than that of its snapshot a job is cancelled. -/
theorem Sound.closeJob_of_chain_ne (hchain : s.node.chain ≠ job.origin.chain) (link : Link)
    (found : Option Block) :
    s.node.closeJob link job.ticket found = ⟨s.node.idle, [], .error .miningCancelled⟩ := by
  have hepoch : s.node.epoch ≠ job.ticket.epoch := fun heq =>
    hchain ((h.epoch_eq_iff hjob).mp heq)
  cases found with
  | none => rfl
  | some b => exact if_pos hepoch

variable (hchain : s.node.chain = job.origin.chain)
  (hnew : job.origin.chain.contains job.rewardId = false)
  (hout : job.rewardId ∉ job.origin.applicable.1.map (·.id)) (link : Link)
  {cancelled : Nat → Bool} {draws : Nat → Draw} {attempts : Nat}
include hchain hnew hout

/-- On the chain of its snapshot, and if its reward is new, a job adds the block that its search
has found if there is room for it, and is refused for want of room otherwise. -/
theorem Sound.closeJob_of_chain_eq {next : State}
    (hseries : Transaction.validateAndRun job.origin.applicable.1 job.origin.chain.state =
      .ok next) {b : Block}
    (hfound : job.ticket.job.search cancelled draws attempts 0 = some b) :
    let effect := s.node.closeJob link job.ticket (some b)
    (job.origin.HasRoom next → s.node.Committed link b effect) ∧
      (¬ job.origin.HasRoom next →
        effect = ⟨s.node.idle, [], .error (.chain job.origin.overflow)⟩) := by
  intro effect
  have hepoch := (h.epoch_eq_iff hjob).mpr hchain
  have horigin := h.origin job hjob
  obtain ⟨k, hmined⟩ := MiningJob.exists_attempt_of_search hfound
  rw [h.ticket job hjob] at hmined
  constructor
  · intro hroom
    obtain ⟨c, hextend⟩ := horigin.extend_of_room hmined hout hseries hnew hroom
    rw [← hchain] at hextend
    exact Node.committed_of_extend hepoch link hextend
  · intro hroom
    have hextend := horigin.extend_of_not_room hmined hout hseries hroom
    rw [← hchain] at hextend
    exact Node.closeJob_of_extend_error hepoch link hextend

/-- So it fails only for want of room. -/
theorem Sound.error_of_chain_eq {e : ChainError}
    (he : (s.node.closeJob link job.ticket
      (job.ticket.job.search cancelled draws attempts 0)).result = .error (.chain e)) :
    e = job.origin.overflow := by
  cases hfound : job.ticket.job.search cancelled draws attempts 0 with
  | none =>
      rw [hfound] at he
      exact nomatch he
  | some b =>
      rw [hfound] at he
      obtain ⟨next, hseries⟩ := Node.validateAndRun_sift job.origin.chain job.origin.pool.toList
        job.origin.chain.state
      obtain ⟨hadds, hrefuses⟩ := h.closeJob_of_chain_eq hjob hchain hnew hout link hseries hfound
      by_cases hroom : job.origin.HasRoom next
      · rw [(hadds hroom).result] at he
        cases link with
        | up => exact nomatch he
        | down reason => exact nomatch he
      · rw [hrefuses hroom] at he
        injection he with he
        injection he with he
        exact he.symm

end

/-- Why the chain refuses a block for want of room: the account of the node, or the number. -/
theorem overflow_eq (n : Node) :
    n.overflow = .block (.transaction (.balanceOverflow n.wallet.address)) ∨
      (UInt64.size ≤ n.chain.length ∧ n.overflow = .genesisResubmitted) := by
  unfold Node.overflow
  by_cases hlength : n.chain.length < UInt64.size
  · exact .inl (if_pos hlength)
  · exact .inr ⟨Nat.not_lt.mp hlength, if_neg hlength⟩

/-- In any session the epoch adds one on the turns that change the chain, and on no others.  A
job that is open was made of the node at its opening, no other can be opened, and the counter is
that of the job exactly if the chain, with its state and its identifiers, still is.  If it is
not, closing the job cancels it and changes nothing.  If it is, and the reward is new, the block
that the search has found is added to that chain, unless the reward overflows the node's account
or there is no number left: for no other reason does the chain refuse it. -/
theorem closing_on_snapshot (name : String) (wallet : Wallet) (turns : List Turn)
    (hfew : ((new name wallet).afterAll turns).node.epoch < UInt64.size) :
    let s := (new name wallet).afterAll turns
    (∀ turn, ((s.after turn).node.epoch = s.node.epoch ∧
        (s.after turn).node.chain = s.node.chain) ∨
      ((s.after turn).node.epoch = s.node.epoch + 1 ∧
        (s.after turn).node.chain ≠ s.node.chain)) ∧
    ∀ job, s.job = some job →
      job.ticket = job.origin.ticket job.rewardId ∧
      (∀ rewardId, s.node.openJob rewardId = .error .miningInProgress) ∧
      (s.node.counter = .ofNat job.ticket.epoch ↔ s.node.chain = job.origin.chain) ∧
      ∀ link cancelled draws attempts,
        let effect := s.node.closeJob link job.ticket
          (job.ticket.job.search cancelled draws attempts 0)
        (s.node.chain ≠ job.origin.chain →
          effect = ⟨{ s.node with mining := false }, [], .error .miningCancelled⟩) ∧
        (s.node.chain = job.origin.chain → job.origin.chain.contains job.rewardId = false →
          job.rewardId ∉ job.origin.applicable.1.map (·.id) →
          (∃ next, Transaction.validateAndRun job.origin.applicable.1 job.origin.chain.state =
              .ok next ∧
            ∀ b, job.ticket.job.search cancelled draws attempts 0 = some b →
              (job.origin.HasRoom next → s.node.Committed link b effect) ∧
              (¬ job.origin.HasRoom next →
                effect = ⟨{ s.node with mining := false }, [],
                  .error (.chain job.origin.overflow)⟩)) ∧
          ∀ e, effect.result = .error (.chain e) →
            e = .block (.transaction (.balanceOverflow job.origin.wallet.address)) ∨
              (UInt64.size ≤ job.origin.chain.length ∧ e = .genesisResubmitted)) := by
  intro s
  have hs : s.Sound := (sound_new name wallet).afterAll turns
  constructor
  · intro turn
    rcases ticks_after s turn with hsame | ⟨hepoch, hlength⟩
    · exact .inl hsame
    · refine .inr ⟨hepoch, fun heq => ?_⟩
      rw [heq] at hlength
      exact absurd hlength (Nat.lt_irrefl _)
  · intro job hjob
    have hmining : s.node.mining = true := by
      rw [hs.mining, hjob]
      rfl
    refine ⟨hs.ticket job hjob, Node.openJob_of_mining hmining, hs.counter_eq_iff hjob hfew, ?_⟩
    intro link cancelled draws attempts effect
    constructor
    · intro hchain
      exact hs.closeJob_of_chain_ne hjob hchain link _
    · intro hchain hnew hout
      constructor
      · obtain ⟨next, hseries⟩ := Node.validateAndRun_sift job.origin.chain job.origin.pool.toList
          job.origin.chain.state
        refine ⟨next, hseries, fun b hfound => ?_⟩
        simp only [effect, hfound]
        exact hs.closeJob_of_chain_eq hjob hchain hnew hout link hseries hfound
      · intro e he
        rw [hs.error_of_chain_eq hjob hchain hnew hout link he]
        exact overflow_eq job.origin

/-! ## Two sessions -/

/-- The epoch is no larger than the number of turns. -/
theorem epoch_le_length (s : Session) (turns : List Turn) :
    (s.afterAll turns).node.epoch ≤ s.node.epoch + turns.length := by
  induction turns generalizing s with
  | nil => exact Nat.le_refl _
  | cons turn rest ih =>
      have hrest := ih (s.after turn)
      have hturn : (s.after turn).node.epoch ≤ s.node.epoch + 1 := by
        rcases ticks_after s turn with ⟨hepoch, -⟩ | ⟨hepoch, -⟩ <;> omega
      rw [List.length_cons]
      exact Nat.le_trans hrest (by omega)

theorem after_opening (hidle : s.node.mining = false) (rewardId : String) :
    s.after (.opening rewardId) =
      ⟨s.node.opened, some ⟨s.node.ticket rewardId, rewardId, s.node⟩⟩ := by
  simp only [after, Node.openJob_of_idle hidle]

/-- A block that may follow genesis comes in while a new node has its first job open. -/
theorem exists_job_of_accepted (wallet : Wallet) {b : Block} (h : Accepted genesis b .empty) :
    let s := (new "node" wallet).afterAll [.opening "reward", .call (.handle (.block b))]
    ∃ job, s.job = some job ∧ s.node.chain ≠ job.origin.chain := by
  intro s
  obtain ⟨c, hextend⟩ := Chain.exists_extend_new h
  have hblock : (Node.new "node" wallet).opened.handle (.block b) = .ok _ :=
    Node.addBlock_eq_ok.mpr ⟨c, hextend, rfl⟩
  have hs : s = ((new "node" wallet).after (.opening "reward")).after (.call (.handle (.block b))) :=
    rfl
  rw [after_opening rfl] at hs
  simp only [after, Node.after, new, hblock] at hs
  refine ⟨_, congrArg Session.job hs, fun heq => ?_⟩
  have hlength := Chain.length_of_extend hextend
  rw [hs] at heq
  rw [show c = Chain.new from heq] at hlength
  exact Nat.succ_ne_self _ hlength.symm

/-- The first attempt of a new node finds a block. -/
theorem exists_search_new (name : String) (wallet : Wallet) (rewardId : String) (draw : Draw) :
    ∃ b, ((Node.new name wallet).ticket rewardId).job.search (fun _ => false) (fun _ => draw) 1 0 =
      some b := by
  let draws : Nat → Draw := fun _ => draw
  have hattempt : (((Node.new name wallet).ticket rewardId).job.attempt (draws (0 + 0))).isSome =
      true := Node.isSome_attempt_of_tip_eq rfl rewardId draw
  obtain ⟨b, -, hfound, -⟩ := MiningJob.search_eq_some (fun _ => rfl) Nat.zero_lt_one hattempt
  exact ⟨b, hfound⟩

theorem hasRoom_new (name : String) (wallet : Wallet) : (Node.new name wallet).HasRoom .empty := by
  have hzero : State.empty.balanceAt wallet.address = 0 :=
    State.balanceAt_of_none (State.account?_empty _)
  unfold Node.HasRoom
  rw [show State.empty.balanceAt (Node.new name wallet).wallet.address = 0 from hzero]
  exact ⟨show 1 < UInt64.size by decide, by decide⟩

/-- A job meets another block on its chain and is cancelled; one that meets none finds a block and
adds it to its own chain, where it could have failed for want of room only. -/
theorem closing_late_and_in_time :
    let wallet : Wallet := .ofKey ⟨1, by decide⟩ []
    let block := afterGenesis "rival" "rival reward" [] .empty
    let late := (new "node" wallet).afterAll [.opening "reward", .call (.handle (.block block))]
    let inTime := (new "node" wallet).afterAll [.opening "reward"]
    (∃ job, late.job = some job ∧ late.node.chain ≠ job.origin.chain ∧
      late.node.closeJob .up job.ticket (job.ticket.job.search (fun _ => false) (fun _ => ⟨0, 0⟩)
        1 0) = ⟨{ late.node with mining := false }, [], .error .miningCancelled⟩) ∧
    ∃ job b, inTime.job = some job ∧ inTime.node.counter = .ofNat job.ticket.epoch ∧
      job.ticket.job.search (fun _ => false) (fun _ => ⟨0, 0⟩) 1 0 = some b ∧
      inTime.node.Committed .up b (inTime.node.closeJob .up job.ticket
        (job.ticket.job.search (fun _ => false) (fun _ => ⟨0, 0⟩) 1 0)) ∧
      ∀ e, (inTime.node.closeJob .up job.ticket (job.ticket.job.search (fun _ => false)
          (fun _ => ⟨0, 0⟩) 1 0)).result = .error (.chain e) →
        e = .block (.transaction (.balanceOverflow job.origin.wallet.address)) ∨
          (UInt64.size ≤ job.origin.chain.length ∧ e = .genesisResubmitted) := by
  intro wallet block late inTime
  have hfew : ∀ turns : List Turn, turns.length ≤ 2 →
      ((new "node" wallet).afterAll turns).node.epoch < UInt64.size := by
    intro turns hlength
    have hepoch := epoch_le_length (new "node" wallet) turns
    have hzero : (new "node" wallet).node.epoch = 0 := rfl
    have htwo : 2 < UInt64.size := by decide
    omega
  constructor
  · obtain ⟨job, hjob, hchain⟩ := exists_job_of_accepted wallet
      (accepted_afterGenesis_nil "rival" "rival reward")
    obtain ⟨-, hjobs⟩ := closing_on_snapshot "node" wallet
      [.opening "reward", .call (.handle (.block block))] (hfew _ (Nat.le_refl 2))
    obtain ⟨-, -, -, hclosing⟩ := hjobs job hjob
    exact ⟨job, hjob, hchain, (hclosing .up (fun _ => false) (fun _ => ⟨0, 0⟩) 1).1 hchain⟩
  · have hs : inTime = _ := after_opening (s := new "node" wallet) rfl "reward"
    have hjob := congrArg Session.job hs
    have hchain : inTime.node.chain = Chain.new := by
      rw [hs]
      rfl
    obtain ⟨-, hjobs⟩ := closing_on_snapshot "node" wallet [.opening "reward"]
      (hfew _ (Nat.le_succ 1))
    obtain ⟨-, -, hcounter, hclosing⟩ := hjobs _ hjob
    have hnew : Chain.new.contains "reward" = false := Std.HashSet.contains_empty
    have hout : "reward" ∉ (Node.new "node" wallet).applicable.1.map (·.id) := List.not_mem_nil
    obtain ⟨⟨next, hseries, hfinds⟩, herror⟩ :=
      (hclosing .up (fun _ => false) (fun _ => ⟨0, 0⟩) 1).2 hchain hnew hout
    -- Nothing is pooled, so the series of the job is empty.
    have hnothing : Transaction.validateAndRun [] .empty = .ok next := hseries
    cases hnothing
    obtain ⟨b, hfound⟩ := exists_search_new "node" wallet "reward" ⟨0, 0⟩
    exact ⟨_, b, hjob, hcounter.mpr hchain, hfound,
      (hfinds b hfound).1 (hasRoom_new "node" wallet), herror⟩

end Session

end WorkLedger
