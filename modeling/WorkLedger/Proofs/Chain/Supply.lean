/-
# The supply law

Value comes into being in two ways only: an account is published with a balance, or a block
pays its reward.  Transfers move value, and gas is paid to the contract that used it.  As an
accepted block pays one reward of a fixed value, the supply of a chain is what its rewards and
its published accounts add up to.
-/
import WorkLedger.Proofs.Account.Fields
import WorkLedger.Proofs.Chain.Consistency
import WorkLedger.Proofs.State.Supply
import WorkLedger.Proofs.Transaction.Effect

namespace WorkLedger

namespace Transaction

variable {t : Transaction} {s s' : State}

/-! ## What a transaction issues -/

/-- The balance that a published account comes with. -/
def published (t : Transaction) : Nat :=
  match t.data with
  | .createAccount fields =>
      match fields.get? "balance" with
      | some (.num (.int n)) => n.toNat
      | _ => 0
  | _ => 0

/-- What a reward pays. -/
def rewards (t : Transaction) : Nat := if t.isReward then t.value.toNat else 0

theorem published_of_snapshot {a : Account} (h : t.accountSnapshot = .ok a) :
    t.published = a.balance.toNat := by
  obtain ⟨fields, hdata, -, hfields, -⟩ := accountSnapshot_eq_ok.mp h
  have hget := Json.readU64_eq_ok.mp (Account.ofFields_eq_ok.mp hfields).2.1
  unfold published
  rw [hdata]
  cases hfield : fields.get? "balance" with
  | none =>
      rw [hfield] at hget
      exact nomatch hget
  | some j =>
      rw [hfield, Option.getD_some] at hget
      simp only [hfield, hget, Int.toNat_natCast]

/-! ## Transfers -/

theorem supply_run_transact (hs : s.WellFormed) (hdata : t.data = .transact)
    (h : t.run s = .ok s') : s'.supply = s.supply := by
  obtain ⟨sender, recipient, gasUsed, storage, debited, hpayer, hpayee, hcall, hfits, hdebit,
    hcredit⟩ := writes_of_run_transact hdata h
  obtain ⟨hsender, hfunds⟩ := payer_eq_ok.mp hpayer
  have hrecipient := payee_eq_ok.mp hpayee
  have hdebited := hdebit.sound_accounts hs.accounts
  have hout := hdebit.supply_add hs.accounts
  have hin := hcredit.supply_add hdebited
  rw [State.holding_of_account? hsender] at hout
  have hle := charged_le hfunds hcall
  have hsub : (sender.balance - t.charged gasUsed).toNat =
      sender.balance.toNat - (t.charged gasUsed).toNat :=
    UInt64.toNat_sub_of_le _ _ (UInt64.le_iff_toNat_le.mpr hle)
  by_cases hself : t.recipient = t.sender
  · -- The sender gets back what was debited.
    have hreread := hdebit.account? hs.accounts t.recipient
    rw [if_pos hself] at hreread
    rw [State.holding_of_account? hreread, hreread] at hin
    simp only [Option.getD_some, Account.stampedWith, UInt64.sub_add_cancel] at hin hout
    omega
  · have hreread := hdebit.account? hs.accounts t.recipient
    rw [if_neg hself, hrecipient] at hreread
    rw [State.holding_of_account? hreread, hreread] at hin
    have hfits' := hfits fun h => hself h.symm
    have hadd : (recipient.balance + t.charged gasUsed).toNat =
        recipient.balance.toNat + (t.charged gasUsed).toNat := by
      rw [UInt64.toNat_add, Nat.mod_eq_of_lt hfits']
    simp only [Option.getD_some] at hin hout
    omega

/-! ## All kinds -/

theorem supply_run (hs : s.WellFormed) (h : t.run s = .ok s') :
    s'.supply = s.supply + (t.published + t.rewards) := by
  cases hdata : t.data with
  | transact =>
      rw [supply_run_transact hs hdata h]
      simp [published, rewards, isReward, hdata]
  | createAccount fields =>
      obtain ⟨a, hnew, rfl⟩ := (run_createAccount_eq_ok hdata).mp h
      obtain ⟨hsnapshot, hnone⟩ := newAccount_eq_ok.mp hnew
      have hwrite := (s.writes_putAccount a.storageKey a).supply_add hs.accounts
      rw [State.holding_of_none hnone, ← published_of_snapshot hsnapshot] at hwrite
      simp only [rewards, isReward, hdata]
      exact hwrite
  | miningReward =>
      obtain ⟨hfits, rfl⟩ := (run_reward_eq_ok hdata).mp h
      have hwrite := (s.writes_putAccount t.recipient
        { t.rewarded s with balance := (t.rewarded s).balance + t.value }).supply_add hs.accounts
      have hbefore : s.holding t.recipient = (t.rewarded s).balance.toNat := by
        cases ha : s.account? t.recipient with
        | none =>
            rw [rewarded_of_none ha]
            exact State.holding_of_none ha
        | some a =>
            rw [rewarded_of_account? ha]
            exact State.holding_of_account? ha
      have hadd : ((t.rewarded s).balance + t.value).toNat =
          (t.rewarded s).balance.toNat + t.value.toNat := by
        rw [UInt64.toNat_add, Nat.mod_eq_of_lt hfits]
      simp only [published, rewards, isReward, hdata, decide_true, if_true]
      simp only [hadd, hbefore] at hwrite
      omega

theorem supply_runSeries {series : List Transaction} (hs : s.WellFormed)
    (h : runSeries series s = .ok s') :
    s'.supply = s.supply + ((series.map published).sum + (series.map rewards).sum) := by
  induction series generalizing s with
  | nil =>
      cases h
      simp
  | cons t rest ih =>
      obtain ⟨next, hrun, h⟩ := runSeries_cons_eq_ok.mp h
      rw [ih (run_wellFormed hs hrun) h, supply_run hs hrun]
      simp only [List.map_cons, List.sum_cons]
      omega

/-- Only rewards pay rewards. -/
theorem sum_rewards (series : List Transaction) :
    (series.map rewards).sum = ((series.filter (·.isReward)).map (·.value.toNat)).sum := by
  induction series with
  | nil => rfl
  | cons t rest ih =>
      rw [List.map_cons, List.sum_cons, ih, List.filter_cons]
      unfold rewards
      split
      · rw [List.map_cons, List.sum_cons]
      · rw [Nat.zero_add]

end Transaction

/-! ## Blocks and chains -/

/-- What the accounts that blocks publish come with. -/
def publishedIn (blocks : List Block) : Nat :=
  ((blocks.flatMap (·.transactions)).map Transaction.published).sum

theorem Follows.sum_rewards {parent block : Block} (h : Follows parent block) :
    (block.transactions.map Transaction.rewards).sum = miningReward.toNat := by
  obtain ⟨t, ht, hvalue, -⟩ := h.reward
  rw [Transaction.sum_rewards, ht, List.map_singleton, List.sum_singleton, hvalue]

theorem Grown.supply {blocks : List Block} {g : Progress} (h : Grown Block.validate blocks g) :
    g.state.WellFormed ∧
      g.state.supply = miningReward.toNat * (blocks.length - 1) + publishedIn blocks := by
  induction h with
  | genesis => exact ⟨State.wellFormed_empty, State.supply_empty⟩
  | @extend blocks last b g g' hgrown hlast hstep ih =>
      obtain ⟨hs, hsupply⟩ := ih
      obtain ⟨s', hrun, rfl⟩ := Progress.run_eq_ok.mp hstep.ran
      have hpos : 0 < blocks.length := by
        rcases blocks with _ | ⟨b, rest⟩
        · exact nomatch hlast
        · exact Nat.succ_pos _
      refine ⟨Transaction.runSeries_wellFormed hs hrun, ?_⟩
      show s'.supply = _
      rw [Transaction.supply_runSeries hs hrun, hstep.accepted.follows.sum_rewards, hsupply]
      have hpublished : publishedIn (blocks ++ [b]) =
          publishedIn blocks + (b.transactions.map Transaction.published).sum := by
        simp [publishedIn]
      have hmul : miningReward.toNat * (blocks.length + 1 - 1) =
          miningReward.toNat * (blocks.length - 1) + miningReward.toNat := by
        rw [← Nat.mul_succ]
        congr 1
        omega
      rw [hpublished, List.length_append, List.length_singleton, hmul]
      omega

/-- After any calls finitely many accounts exist, and their balances add up to the rewards of
all blocks but genesis and to what was published; transfers do not change the sum. -/
theorem Chain.supply_afterAll (calls : List Call) :
    let c := afterAll Block.validate calls
    {key | (c.state.account? key).isSome}.Finite ∧
    c.state.supply = miningReward.toNat * (c.length - 1) + publishedIn c.blocks ∧
    ∀ (t : Transaction) (s' : State), t.data = .transact → t.run c.state = .ok s' →
      s'.supply = c.state.supply := by
  intro c
  obtain ⟨hs, hsupply⟩ := (grown_afterAll Block.validate calls).supply
  exact ⟨c.state.finite_keys, hsupply, fun t s' hdata h =>
    Transaction.supply_run_transact hs hdata h⟩

end WorkLedger
