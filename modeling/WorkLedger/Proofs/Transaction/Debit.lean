/-
# Who pays

A transaction takes from a key only if the key is its sender, and then its value and its gas
limit at most; to every other key it gives or does nothing.  This holds on every state that
can be built, whatever lies under its keys, and it adds up along a series.  The sender of a
transfer that validates has signed it.
-/
import WorkLedger.Proofs.Transaction.PerKey

namespace WorkLedger.Transaction

variable {t : Transaction} {s s' : State} {key : String}

/-- What a transaction may cost a key: value and gas limit of what the key sends. -/
def cost (t : Transaction) (key : String) : Nat :=
  if t.data = .transact ∧ t.sender = key then t.value.toNat + t.gasLimit.toNat else 0

/-! ## Transfers -/

/-- The charge is no more than value and gas limit, also if it wraps around. -/
theorem charged_le_cost {recipient : Account} {gasUsed : UInt64} {storage : Option (Trie Word)}
    (hdata : t.data = .transact) (hcall : t.call s recipient = .ok (gasUsed, storage)) :
    (t.charged gasUsed).toNat ≤ t.cost t.sender := by
  rw [cost, if_pos ⟨hdata, rfl⟩]
  exact Nat.le_trans (t.charged_le_add gasUsed) (Nat.add_le_add_left (gasUsed_le hcall) _)

theorem balanceAt_le_of_run_transact (hs : s.accounts.Sound) (hdata : t.data = .transact)
    (h : t.run s = .ok s') : (s.balanceAt key).toNat ≤ (s'.balanceAt key).toNat + t.cost key := by
  obtain ⟨sender, recipient, gasUsed, _, debited, hpayer, hpayee, hcall, hfits, hdebit, hcredit⟩ :=
    writes_of_run_transact hdata h
  obtain ⟨hsender, hfunds⟩ := payer_eq_ok.mp hpayer
  have hrecipient := payee_eq_ok.mp hpayee
  obtain ⟨reread, hreread, -, hbalance⟩ := exists_reread hs hsender hrecipient hdebit
  rw [hreread, Option.getD_some] at hcredit
  rw [hcredit.balanceAt (hdebit.sound_accounts hs), hdebit.balanceAt hs]
  by_cases hkr : key = t.recipient
  · subst hkr
    rw [if_pos rfl, hbalance, State.balanceAt_of_account? hrecipient]
    by_cases hself : t.recipient = t.sender
    · -- What was debited is credited again.
      rw [if_pos hself, UInt64.sub_add_cancel]
      exact Nat.le_add_right _ _
    · rw [if_neg hself, UInt64.sub_zero, UInt64.toNat_add,
        Nat.mod_eq_of_lt (hfits fun h => hself h.symm)]
      omega
  · rw [if_neg hkr]
    by_cases hks : key = t.sender
    · subst hks
      have hcharged := charged_le_cost hdata hcall
      have hcovered := charged_le hfunds hcall
      rw [if_pos rfl, State.balanceAt_of_account? hsender,
        UInt64.toNat_sub_of_le _ _ (UInt64.le_iff_toNat_le.mpr hcovered)]
      omega
    · rw [if_neg hks]
      exact Nat.le_add_right _ _

/-! ## All kinds -/

/-- A transaction takes from a key no more than it may cost it. -/
theorem balanceAt_le_of_run (hs : s.accounts.Sound) (h : t.run s = .ok s') (key : String) :
    (s.balanceAt key).toNat ≤ (s'.balanceAt key).toNat + t.cost key := by
  cases hdata : t.data with
  | transact => exact balanceAt_le_of_run_transact hs hdata h
  | createAccount fields =>
      obtain ⟨a, hnew, rfl⟩ := (run_createAccount_eq_ok hdata).mp h
      rw [(s.writes_putAccount _ a).balanceAt hs]
      split
      · rename_i hkey
        rw [hkey, State.balanceAt_of_none (newAccount_eq_ok.mp hnew).2]
        exact Nat.zero_le _
      · exact Nat.le_add_right _ _
  | miningReward =>
      obtain ⟨hfits, rfl⟩ := (run_reward_eq_ok hdata).mp h
      rw [(s.writes_putAccount _ _).balanceAt hs]
      split
      · rename_i hkey
        rw [hkey, UInt64.toNat_add, Nat.mod_eq_of_lt hfits, balance_rewarded]
        omega
      · exact Nat.le_add_right _ _

theorem balanceAt_le_of_runSeries {series : List Transaction} (hs : s.accounts.Sound)
    (h : runSeries series s = .ok s') (key : String) :
    (s.balanceAt key).toNat ≤
      (s'.balanceAt key).toNat + (series.map fun t => t.cost key).sum := by
  induction series generalizing s with
  | nil =>
      cases h
      exact Nat.le_add_right _ _
  | cons t rest ih =>
      obtain ⟨next, hrun, h⟩ := runSeries_cons_eq_ok.mp h
      have hfirst := balanceAt_le_of_run hs hrun key
      have hrest := ih (sound_accounts_of_run hs hrun) h
      rw [List.map_cons, List.sum_cons]
      omega

/-! ## Signatures -/

theorem isSigned_iff : t.isSigned = true ↔
    ∃ g, t.signature = some g ∧ verifySignature t.sender t.signingPayload g = true := by
  unfold isSigned
  cases t.signature with
  | none => exact ⟨nofun, fun ⟨_, h, _⟩ => nomatch h⟩
  | some g => simp

/-- A transfer that validates is signed. -/
theorem isSigned_of_validate (hdata : t.data = .transact) (h : t.validate s = .ok ()) :
    t.isSigned = true :=
  ((validate_transact_eq_ok hdata).mp h).1

end WorkLedger.Transaction
