/-
# The supply

The supply of a state is the sum of the balances of all its accounts, as natural numbers.  It
changes with a write by the balance that is stored, less the balance that was there.
-/
import Mathlib.Algebra.BigOperators.Finprod
import WorkLedger.Proofs.State.WellFormed

namespace WorkLedger

/-! ## A tree holds finitely many entries -/

namespace Trie

theorem Forest.finite_keys {α : Type} (f : Forest α) :
    {key : Char × List Char | (f.get? key.1 key.2).isSome}.Finite := by
  induction f with
  | nil => exact Set.finite_empty.subset fun key h => nomatch h
  | cons c w children rest ihc ihr =>
      refine (((ihc.image fun key => (c, key.1 :: key.2)).union ihr).insert (c, [])).subset ?_
      rintro ⟨b, bs⟩ h
      by_cases hbc : b = c
      · subst hbc
        cases bs with
        | nil => exact .inl rfl
        | cons d ds =>
            refine .inr (.inl ⟨(d, ds), ?_, rfl⟩)
            simpa only [Set.mem_ofPred_eq, get?_cons_self_cons] using h
      · refine .inr (.inr ?_)
        simpa only [Set.mem_ofPred_eq, get?_cons_of_ne hbc] using h

theorem Node.finite_keys {α : Type} (n : Node α) : {key | (n.get? key).isSome}.Finite := by
  have hkeys := n.children.finite_keys.image fun key => String.ofList (key.1 :: key.2)
  refine (hkeys.insert "").subset ?_
  intro key h
  rcases hkey : key.toList with _ | ⟨c, cs⟩
  · exact .inl (String.toList_eq_nil_iff.mp hkey)
  · refine .inr ⟨(c, cs), ?_, ?_⟩
    · simpa only [Set.mem_ofPred_eq, get?, hkey] using h
    · simp only [← hkey, String.ofList_toList]

end Trie

/-! ## The sum of all balances -/

namespace State

/-- The balance under a key as a natural number, zero if there is no account. -/
def holding (s : State) (key : String) : Nat := ((s.balance? key).map (·.toNat)).getD 0

/-- The sum of all balances. -/
noncomputable def supply (s : State) : Nat := ∑ᶠ key, s.holding key

/-- The keys with an account. -/
def keys (s : State) : Set String := {key | (s.account? key).isSome}

variable {s s' : State} {key : String} {a : Account} {storage : Trie Word}

theorem holding_of_account? (h : s.account? key = some a) : s.holding key = a.balance.toNat := by
  simp [holding, balance?, h]

theorem holding_of_none (h : s.account? key = none) : s.holding key = 0 := by
  simp [holding, balance?, h]

theorem finite_keys (s : State) : s.keys.Finite := s.accounts.node.finite_keys

theorem finite_support_holding (s : State) : s.holding.support.Finite := by
  refine s.finite_keys.subset fun k hk => ?_
  by_contra hnone
  exact hk (holding_of_none (Option.not_isSome_iff_eq_none.mp hnone))

theorem supply_empty : State.empty.supply = 0 := by
  have h : ∀ k, State.empty.holding k = 0 := fun k => holding_of_none (account?_empty k)
  simp only [supply, h, finsum_zero]

/-! ## Writes -/

/-- Sums of functions that differ at one place only. -/
theorem finsum_add_eq_of_eq_off {f g : String → Nat} (k : String) (hf : f.support.Finite)
    (h : ∀ k', k' ≠ k → g k' = f k') : ∑ᶠ k', g k' + f k = ∑ᶠ k', f k' + g k := by
  have hfsub : f.support ⊆ ↑(insert k hf.toFinset) := by
    intro k' hk'
    simpa using Or.inr hk'
  have hgsub : g.support ⊆ ↑(insert k hf.toFinset) := by
    intro k' hk'
    by_cases heq : k' = k
    · simp [heq]
    · rw [Function.mem_support, h k' heq] at hk'
      simpa using Or.inr hk'
  have hmem : k ∈ insert k hf.toFinset := Finset.mem_insert_self k _
  have hrest : ∑ k' ∈ (insert k hf.toFinset).erase k, g k' =
      ∑ k' ∈ (insert k hf.toFinset).erase k, f k' :=
    Finset.sum_congr rfl fun k' hk' => h k' (Finset.ne_of_mem_erase hk')
  rw [finsum_eq_sum_of_support_subset f hfsub, finsum_eq_sum_of_support_subset g hgsub,
    ← Finset.add_sum_erase _ f hmem, ← Finset.add_sum_erase _ g hmem, hrest]
  omega

theorem Writes.holding (h : s.Writes key a storage s') (hs : s.accounts.Sound) (k : String) :
    s'.holding k = if k = key then a.balance.toNat else s.holding k := by
  unfold State.holding State.balance?
  rw [h.account? hs]
  split <;> rfl

/-- What a write does to the supply. -/
theorem Writes.supply_add (h : s.Writes key a storage s') (hs : s.accounts.Sound) :
    s'.supply + s.holding key = s.supply + a.balance.toNat := by
  have hk : s'.holding key = a.balance.toNat := by rw [h.holding hs, if_pos rfl]
  rw [← hk]
  refine finsum_add_eq_of_eq_off key s.finite_support_holding fun k hne => ?_
  rw [h.holding hs, if_neg hne]

end State

end WorkLedger
