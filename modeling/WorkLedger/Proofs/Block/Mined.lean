/-
# Mined blocks

What a mining attempt returns, the consensus rule accepts on top of the parent, as long as the
series with the reward at its end validates and repeats no identifier.  An attempt may fail,
but not where the target is the largest digest, and that is the target of every child of
genesis.
-/
import WorkLedger.Block.Mining
import WorkLedger.Proofs.Block.Accepted
import WorkLedger.Proofs.Digest.Order
import WorkLedger.Proofs.State.WellFormed

namespace WorkLedger

/-! ## The difficulty of a child -/

/-- Numbers that are equal or neighbours. -/
def Near (a b : UInt64) : Prop :=
  a.toNat = b.toNat ∨ a.toNat = b.toNat + 1 ∨ b.toNat = a.toNat + 1

theorem Near.distance_le_one {a b : UInt64} (h : Near a b) : distance a b ≤ 1 := by
  unfold Near at h
  unfold distance
  omega

/-- Lifting zero to one goes no further away. -/
theorem Near.floor {a b : UInt64} (h : Near a b) : Near a (if b = 0 then 1 else b) := by
  split
  · rename_i hb
    have hzero : b.toNat = 0 := by rw [hb]; rfl
    have hone : (1 : UInt64).toNat = 1 := rfl
    unfold Near at h ⊢
    omega
  · exact h

theorem near_sub_one (a : UInt64) : Near a (if a = 0 then 0 else a - 1) := by
  split
  · rename_i ha
    exact .inl (by rw [ha])
  · rename_i ha
    have hpos : a.toNat ≠ 0 := fun h => ha (UInt64.toNat.inj h)
    have hone : (1 : UInt64).toNat = 1 := rfl
    have hsub : (a - 1).toNat = a.toNat - 1 := by
      rw [UInt64.toNat_sub_of_le _ _ (UInt64.le_iff_toNat_le.mpr (by omega)), hone]
    unfold Near
    omega

theorem near_add_one (a : UInt64) : Near a (if a.toNat + 1 < UInt64.size then a + 1 else a) := by
  split
  · rename_i ha
    have hadd : (a + 1).toNat = a.toNat + 1 := by
      rw [UInt64.toNat_add]
      exact Nat.mod_eq_of_lt ha
    exact .inr (.inr hadd)
  · exact .inl rfl

theorem Header.distance_nextDifficulty (h : Header) (timestamp : UInt64) :
    distance h.difficulty (h.nextDifficulty timestamp) ≤ 1 := by
  refine Near.distance_le_one (Near.floor ?_)
  split
  · exact near_sub_one h.difficulty
  · exact near_add_one h.difficulty

theorem one_le_floor (a : UInt64) : 1 ≤ (if a = 0 then 1 else a).toNat := by
  split
  · exact Nat.le_refl 1
  · rename_i hne
    exact Nat.one_le_iff_ne_zero.mpr fun hzero => hne (UInt64.toNat.inj hzero)

theorem Header.one_le_nextDifficulty (h : Header) (timestamp : UInt64) :
    1 ≤ (h.nextDifficulty timestamp).toNat :=
  one_le_floor _

/-! ## Attempts -/

namespace MiningJob

theorem attempt_eq_some {job : MiningJob} {draw : Draw} {b : Block} :
    job.attempt draw = some b ↔
      (job.core draw.timestamp).workHash draw.nonce ≤ job.target ∧
        b = ⟨{ job.core draw.timestamp with nonce := draw.nonce }, job.transactions⟩ := by
  unfold attempt
  simp only
  split
  · rename_i hwork
    simp only [Option.some.injEq, hwork, true_and, eq_comm]
  · rename_i hwork
    exact ⟨nofun, fun h => absurd h.1 hwork⟩

section

variable {parent b : Block} {beneficiary rewardId : String} {series : List Transaction}
  {s s' : State} {draw : Draw}

/-- A series without rewards, and one at its end. -/
theorem paysBeneficiary_of_attempt {stateRoot : Digest}
    (hmined : (MiningJob.new parent beneficiary series stateRoot rewardId).attempt draw = some b)
    (hrewards : ∀ t ∈ series, t.isReward = false) : b.paysBeneficiary = true := by
  obtain ⟨-, rfl⟩ := attempt_eq_some.mp hmined
  refine Block.paysBeneficiary_iff.mpr ⟨.reward beneficiary rewardId, ?_, rfl⟩
  have hnone : series.filter (·.isReward) = [] :=
    List.filter_eq_nil_iff.mpr (by simpa using hrewards)
  show (series ++ [Transaction.reward beneficiary rewardId]).filter (·.isReward) = _
  rw [List.filter_append, hnone]
  rfl

theorem ne_genesis_of_attempt {stateRoot : Digest}
    (hmined : (MiningJob.new parent beneficiary series stateRoot rewardId).attempt draw = some b) :
    b ≠ genesis := by
  obtain ⟨-, rfl⟩ := attempt_eq_some.mp hmined
  intro h
  have hnil : series ++ [Transaction.reward beneficiary rewardId] = [] :=
    congrArg Block.transactions h
  exact List.cons_ne_nil _ _ (List.append_eq_nil_iff.mp hnil).2

/-- A block that an attempt returns can only fail in its transactions. -/
theorem validate_of_attempt
    (hmined : (MiningJob.new parent beneficiary series s.root rewardId).attempt draw = some b)
    (hrewards : ∀ t ∈ series, t.isReward = false) (hids : b.ids.Nodup) :
    Block.validate parent b s =
      (Transaction.validateSeries b.transactions s).mapError .transaction := by
  have hgenesis := ne_genesis_of_attempt hmined
  have hreward := paysBeneficiary_of_attempt hmined hrewards
  obtain ⟨hwork, rfl⟩ := attempt_eq_some.mp hmined
  exact Block.validate_of_checks hgenesis rfl rfl
    (parent.header.distance_nextDifficulty draw.timestamp) hwork rfl hids rfl hreward

/-- A block that an attempt returns follows its parent, if the series is in order. -/
theorem accepted_of_attempt
    (hmined : (MiningJob.new parent beneficiary series s.root rewardId).attempt draw = some b)
    (hrewards : ∀ t ∈ series, t.isReward = false) (hids : b.ids.Nodup)
    (hseries : Transaction.validateAndRun b.transactions s = .ok s') : Accepted parent b s := by
  have hvalid := Transaction.validateSeries_eq_ok.mpr ⟨s', hseries⟩
  have hok := (validate_of_attempt hmined hrewards hids).trans (mapError_eq_ok.mpr hvalid)
  exact (Block.validate_eq_ok.mp hok).resolve_left (ne_genesis_of_attempt hmined)

/-- A block that an attempt returns is accepted exactly if its series is in order: no reward but
the last transaction, no identifier twice, and all transactions valid one after another. -/
theorem validate_eq_ok_iff_of_attempt
    (hmined : (MiningJob.new parent beneficiary series s.root rewardId).attempt draw = some b) :
    Block.validate parent b s = .ok () ↔ (∀ t ∈ series, t.isReward = false) ∧ b.ids.Nodup ∧
      Transaction.validateSeries b.transactions s = .ok () := by
  constructor
  · intro h
    have haccepted := (Block.validate_eq_ok.mp h).resolve_left (ne_genesis_of_attempt hmined)
    refine ⟨?_, haccepted.ids, Transaction.validateSeries_eq_ok.mpr haccepted.series⟩
    obtain ⟨t, ht, -⟩ := haccepted.reward
    obtain ⟨-, rfl⟩ := attempt_eq_some.mp hmined
    have hone : (series.filter (·.isReward) ++ [Transaction.reward beneficiary rewardId]).length =
        1 := by
      rw [show series.filter (·.isReward) ++ [Transaction.reward beneficiary rewardId] = [t] from
        (List.filter_append ..).symm.trans ht]
      rfl
    rw [List.length_append, List.length_singleton, Nat.add_eq_right, List.length_eq_zero_iff,
      List.filter_eq_nil_iff] at hone
    simpa using hone
  · rintro ⟨hrewards, hids, hseries⟩
    exact (validate_of_attempt hmined hrewards hids).trans (mapError_eq_ok.mpr hseries)

end

theorem attempt_of_target_eq_max {job : MiningJob} (h : job.target = .max) (draw : Draw) :
    job.attempt draw =
      some ⟨{ job.core draw.timestamp with nonce := draw.nonce }, job.transactions⟩ :=
  attempt_eq_some.mpr ⟨h ▸ Digest.le_max _, rfl⟩

/-! ## The search -/

/-- What a search returns, one of its attempts returned. -/
theorem exists_attempt_of_search {job : MiningJob} {cancelled : Nat → Bool} {draws : Nat → Draw}
    {attempts i : Nat} {b : Block} (h : job.search cancelled draws attempts i = some b) :
    ∃ k, job.attempt (draws k) = some b := by
  induction attempts generalizing i with
  | zero => exact nomatch h
  | succ attempts ih =>
      rw [search] at h
      split at h
      · exact nomatch h
      · split at h
        · rename_i hfound
          exact ⟨i, hfound.trans h⟩
        · exact ih h

/-- A search that nobody cancels returns what an attempt returns, if one does. -/
theorem search_eq_some {job : MiningJob} {draws : Nat → Draw} {cancelled : Nat → Bool}
    (hcancelled : ∀ i, cancelled i = false) {attempts i k : Nat} (hk : k < attempts)
    (hfound : (job.attempt (draws (i + k))).isSome = true) :
    ∃ b draw, job.search cancelled draws attempts i = some b ∧ job.attempt draw = some b := by
  induction attempts generalizing i k with
  | zero => exact absurd hk (Nat.not_lt_zero k)
  | succ attempts ih =>
      rw [search, hcancelled i]
      cases hfirst : job.attempt (draws i) with
      | some b => exact ⟨b, draws i, rfl, hfirst⟩
      | none =>
          cases k with
          | zero =>
              rw [Nat.add_zero, hfirst] at hfound
              exact nomatch hfound
          | succ k =>
              rw [Nat.add_comm k 1, ← Nat.add_assoc] at hfound
              exact ih (Nat.lt_of_succ_lt_succ hk) hfound

end MiningJob

/-! ## On top of genesis -/

theorem target_genesis : genesis.header.target = .max := by decide

/-- A reward is in order on the state before any block. -/
theorem Transaction.validateAndRun_reward_empty (beneficiary id : String) :
    ∃ s, validateAndRun [.reward beneficiary id] .empty = .ok s := by
  have hrun : ∃ s, (Transaction.reward beneficiary id).runReward .empty = .ok s := by
    unfold runReward
    rw [State.account?_empty]
    exact ⟨_, if_neg (show ¬ UInt64.size ≤ (0 : UInt64).toNat + miningReward.toNat by decide)⟩
  obtain ⟨s, hrun⟩ := hrun
  exact ⟨s, validateAndRun_cons_eq_ok.mpr ⟨rfl, s, hrun, rfl⟩⟩

/-- The child of genesis that a series and a reward make, at time zero. -/
def afterGenesis (beneficiary rewardId : String) (series : List Transaction) (s : State) : Block :=
  let job := MiningJob.new genesis beneficiary series s.root rewardId
  ⟨{ job.core 0 with nonce := 0 }, job.transactions⟩

theorem accepted_afterGenesis {beneficiary rewardId : String} {series : List Transaction}
    {s s' : State} (hrewards : ∀ t ∈ series, t.isReward = false)
    (hids : (afterGenesis beneficiary rewardId series s).ids.Nodup)
    (hseries : Transaction.validateAndRun
      (series ++ [.reward beneficiary rewardId]) s = .ok s') :
    Accepted genesis (afterGenesis beneficiary rewardId series s) s := by
  let job := MiningJob.new genesis beneficiary series s.root rewardId
  have hmined : job.attempt ⟨0, 0⟩ = some (afterGenesis beneficiary rewardId series s) :=
    MiningJob.attempt_of_target_eq_max target_genesis ⟨0, 0⟩
  exact MiningJob.accepted_of_attempt hmined hrewards hids hseries

/-- The header sees the series through its root only. -/
theorem header_afterGenesis_eq {beneficiary rewardId : String} {xs ys : List Transaction}
    {s : State} (h : transactionsRoot (xs ++ [.reward beneficiary rewardId]) =
      transactionsRoot (ys ++ [.reward beneficiary rewardId])) :
    (afterGenesis beneficiary rewardId xs s).header =
      (afterGenesis beneficiary rewardId ys s).header := by
  simp only [afterGenesis, MiningJob.core, MiningJob.new, h]

/-- The reward alone makes a block that follows genesis. -/
theorem accepted_afterGenesis_nil (beneficiary id : String) :
    Accepted genesis (afterGenesis beneficiary id [] .empty) .empty := by
  obtain ⟨s, hseries⟩ := Transaction.validateAndRun_reward_empty beneficiary id
  have hids : (afterGenesis beneficiary id [] .empty).ids.Nodup := List.pairwise_singleton _ id
  exact accepted_afterGenesis (List.forall_mem_nil _) hids hseries

/-! ## Miner and rule -/

/-- What the miner returns, cancelled on the way or not, is a block of difficulty at least one,
no more than one from its parent's, and of the next number; and the rule accepts it on top of
the parent exactly if the series with the reward is in order. -/
theorem Block.validate_mine_iff (parent : Block)
    (hnumber : parent.header.number.toNat < 2 ^ 64 - 1) (s : State) (beneficiary rewardId : String)
    (series : List Transaction) (draws : Nat → Draw) (attempts : Nat) (b : Block)
    (hmined : mine parent beneficiary series s.root rewardId draws attempts = some b ∨
      ∃ cancelled, mineUnless cancelled parent beneficiary series s.root rewardId draws attempts =
        some b) :
    (Block.validate parent b s = .ok () ↔
      (∀ t ∈ series, t.isReward = false) ∧
        ((series ++ [Transaction.reward beneficiary rewardId]).map (·.id)).Nodup ∧
        Transaction.validateSeries (series ++ [Transaction.reward beneficiary rewardId]) s =
          .ok ()) ∧
    1 ≤ b.header.difficulty.toNat ∧
    distance parent.header.difficulty b.header.difficulty ≤ 1 ∧
    b.header.number.toNat = parent.header.number.toNat + 1 := by
  obtain ⟨cancelled, hsearch⟩ : ∃ cancelled, (MiningJob.new parent beneficiary series s.root
      rewardId).search cancelled draws attempts 0 = some b :=
    hmined.elim (fun h => ⟨_, h⟩) id
  obtain ⟨k, hattempt⟩ := MiningJob.exists_attempt_of_search hsearch
  have hvalidate := MiningJob.validate_eq_ok_iff_of_attempt hattempt
  obtain ⟨-, rfl⟩ := MiningJob.attempt_eq_some.mp hattempt
  refine ⟨hvalidate, parent.header.one_le_nextDifficulty _,
    parent.header.distance_nextDifficulty _, ?_⟩
  show (parent.header.number + 1).toNat = _
  rw [UInt64.toNat_add]
  exact Nat.mod_eq_of_lt (Nat.add_lt_of_lt_sub hnumber)

/-- The parent has difficulty zero, and the timestamp is before its own. -/
theorem Block.validate_mine_zero_difficulty :
    let parent : Block := ⟨{ genesis.header with difficulty := 0, timestamp := 100000 }, []⟩
    ∃ b, mine parent "miner" [] State.empty.root "reward" (fun _ => ⟨3, 7⟩) 1 = some b ∧
      Block.validate parent b .empty = .ok () ∧ 1 ≤ b.header.difficulty.toNat ∧
      distance 0 b.header.difficulty ≤ 1 := by
  intro parent
  let job := MiningJob.new parent "miner" [] State.empty.root "reward"
  have htarget : job.target = .max := by
    show Digest.max.divide 0 = .max
    exact if_pos rfl
  have hattempt := MiningJob.attempt_of_target_eq_max htarget ⟨3, 7⟩
  let draws : Nat → Draw := fun _ => ⟨3, 7⟩
  let never : Nat → Bool := fun _ => false
  have hnever : ∀ i, never i = false := fun _ => rfl
  have hfound : (job.attempt (draws (0 + 0))).isSome = true := by
    show (job.attempt ⟨3, 7⟩).isSome = true
    rw [hattempt]
    rfl
  obtain ⟨b, draw, hsearch, -⟩ := MiningJob.search_eq_some hnever Nat.zero_lt_one hfound
  have hmined : mine parent "miner" [] State.empty.root "reward" draws 1 = some b := hsearch
  obtain ⟨hvalidate, hone, hdistance, -⟩ := validate_mine_iff parent (by decide) .empty "miner"
    "reward" [] _ 1 b (.inl hmined)
  have hseries := Transaction.validateAndRun_reward_empty "miner" "reward"
  refine ⟨b, hmined, hvalidate.mpr ⟨nofun, List.pairwise_singleton _ _, ?_⟩, hone, hdistance⟩
  exact Transaction.validateSeries_eq_ok.mpr hseries

end WorkLedger
