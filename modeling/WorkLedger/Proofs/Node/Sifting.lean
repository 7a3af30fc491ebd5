/-
# Sifting the pool

Before a node mines it divides its pending transactions.  A transaction that was included
already, or that fails on what those kept before it lead to, is stale; the others are kept in
the order of arrival and form a series that validates.  Clearing the stale ones leaves exactly
the kept ones in the pool.
-/
import WorkLedger.Node
import WorkLedger.Proofs.Pool.Listing
import WorkLedger.Proofs.Transaction.Series

namespace WorkLedger.Node

variable {c : Chain} {t : Transaction} {rest : List Transaction} {s : State}

/-! ## One transaction -/

/-- A transaction applies to a state and leads to another. -/
def Applies (c : Chain) (t : Transaction) (s s' : State) : Prop :=
  c.contains t.id = false ∧ t.validate s = .ok () ∧ t.run s = .ok s'

/-- A transaction does not apply if it was included, if a rule refuses it or if it fails. -/
theorem not_applies_iff : (∀ s', ¬ Applies c t s s') ↔
    c.contains t.id = true ∨ (∃ e, t.validate s = .error e) ∨ ∃ e, t.run s = .error e := by
  constructor
  · intro h
    cases hcontains : c.contains t.id with
    | true => exact .inl rfl
    | false =>
        cases hvalid : t.validate s with
        | error e => exact .inr (.inl ⟨e, rfl⟩)
        | ok u =>
            cases hrun : t.run s with
            | error e => exact .inr (.inr ⟨e, rfl⟩)
            | ok s' => exact absurd ⟨hcontains, hvalid, hrun⟩ (h s')
  · rintro h s' ⟨hnew, hvalid, hrun⟩
    rcases h with hincluded | ⟨e, hrefused⟩ | ⟨e, hfails⟩
    · exact nomatch hnew.symm.trans hincluded
    · exact nomatch hvalid.symm.trans hrefused
    · exact nomatch hrun.symm.trans hfails

theorem sift_cons_of_applies {s' : State} (h : Applies c t s s') :
    sift c (t :: rest) s = (t :: (sift c rest s').1, (sift c rest s').2) := by
  obtain ⟨hnew, hvalid, hrun⟩ := h
  simp only [sift, hnew, Bool.false_eq_true, if_false, hvalid, ok_bind, hrun]

theorem sift_cons_of_not_applies (h : ∀ s', ¬ Applies c t s s') :
    sift c (t :: rest) s = ((sift c rest s).1, t :: (sift c rest s).2) := by
  cases hcontains : c.contains t.id with
  | true => simp only [sift, hcontains, if_true]
  | false =>
      simp only [sift, hcontains, Bool.false_eq_true, if_false]
      split
      · rename_i s' happlies
        obtain ⟨_, hvalid, hrun⟩ := bind_eq_ok.mp happlies
        exact absurd ⟨hcontains, hvalid, hrun⟩ (h s')
      · rfl

/-! ## All transactions -/

variable {l : List Transaction}

theorem sublist_sift (c : Chain) (l : List Transaction) (s : State) :
    (sift c l s).1.Sublist l ∧ (sift c l s).2.Sublist l := by
  induction l generalizing s with
  | nil => exact ⟨.slnil, .slnil⟩
  | cons t rest ih =>
      by_cases happlies : ∃ s', Applies c t s s'
      · obtain ⟨s', happlies⟩ := happlies
        rw [sift_cons_of_applies happlies]
        exact ⟨(ih s').1.cons_cons t, (ih s').2.cons t⟩
      · rw [sift_cons_of_not_applies (not_exists.mp happlies)]
        exact ⟨(ih s).1.cons t, (ih s).2.cons_cons t⟩

/-- What is kept validates and runs in its order. -/
theorem validateAndRun_sift (c : Chain) (l : List Transaction) (s : State) :
    ∃ s', Transaction.validateAndRun (sift c l s).1 s = .ok s' := by
  induction l generalizing s with
  | nil => exact ⟨s, rfl⟩
  | cons t rest ih =>
      by_cases happlies : ∃ s', Applies c t s s'
      · obtain ⟨next, happlies⟩ := happlies
        rw [sift_cons_of_applies happlies]
        obtain ⟨s', h⟩ := ih next
        exact ⟨s', Transaction.validateAndRun_cons_eq_ok.mpr
          ⟨happlies.2.1, next, happlies.2.2, h⟩⟩
      · rw [sift_cons_of_not_applies (not_exists.mp happlies)]
        exact ih s

/-- What comes behind is divided on the state that those kept of the first part lead to. -/
theorem sift_append (c : Chain) (before behind : List Transaction) (s : State) :
    ∃ s', Transaction.validateAndRun (sift c before s).1 s = .ok s' ∧
      sift c (before ++ behind) s =
        ((sift c before s).1 ++ (sift c behind s').1,
          (sift c before s).2 ++ (sift c behind s').2) := by
  induction before generalizing s with
  | nil => exact ⟨s, rfl, rfl⟩
  | cons t rest ih =>
      by_cases happlies : ∃ s', Applies c t s s'
      · obtain ⟨next, happlies⟩ := happlies
        obtain ⟨s', hrest, hbehind⟩ := ih next
        refine ⟨s', ?_, ?_⟩
        · rw [sift_cons_of_applies happlies]
          exact Transaction.validateAndRun_cons_eq_ok.mpr
            ⟨happlies.2.1, next, happlies.2.2, hrest⟩
        · rw [List.cons_append, sift_cons_of_applies happlies, sift_cons_of_applies happlies,
            hbehind]
          rfl
      · obtain ⟨s', hrest, hbehind⟩ := ih s
        have hfirst := not_exists.mp happlies
        refine ⟨s', ?_, ?_⟩
        · rw [sift_cons_of_not_applies hfirst]
          exact hrest
        · rw [List.cons_append, sift_cons_of_not_applies hfirst, sift_cons_of_not_applies hfirst,
            hbehind]
          rfl

/-- What is kept was not included. -/
theorem contains_of_mem_sift {t : Transaction} (ht : t ∈ (sift c l s).1) :
    c.contains t.id = false := by
  induction l generalizing s with
  | nil => exact nomatch ht
  | cons u rest ih =>
      by_cases happlies : ∃ s', Applies c u s s'
      · obtain ⟨next, happlies⟩ := happlies
        rw [sift_cons_of_applies happlies] at ht
        rcases List.mem_cons.mp ht with rfl | ht
        · exact happlies.1
        · exact ih ht
      · rw [sift_cons_of_not_applies (not_exists.mp happlies)] at ht
        exact ih ht

/-- What is stale did not apply to what those kept before it lead to. -/
theorem exists_before_of_mem_stale (ht : t ∈ (sift c l s).2) :
    ∃ before behind s', l = before ++ t :: behind ∧
      Transaction.validateAndRun (sift c before s).1 s = .ok s' ∧ ∀ next, ¬ Applies c t s' next := by
  induction l generalizing s with
  | nil => exact nomatch ht
  | cons u rest ih =>
      by_cases happlies : ∃ next, Applies c u s next
      · obtain ⟨next, happlies⟩ := happlies
        rw [sift_cons_of_applies happlies] at ht
        obtain ⟨before, behind, s', rfl, hbefore, hfails⟩ := ih ht
        refine ⟨u :: before, behind, s', rfl, ?_, hfails⟩
        rw [sift_cons_of_applies happlies]
        exact Transaction.validateAndRun_cons_eq_ok.mpr
          ⟨happlies.2.1, next, happlies.2.2, hbefore⟩
      · have hfirst := not_exists.mp happlies
        rw [sift_cons_of_not_applies hfirst] at ht
        rcases List.mem_cons.mp ht with rfl | ht
        · exact ⟨[], rest, s, rfl, rfl, hfirst⟩
        · obtain ⟨before, behind, s', rfl, hbefore, hfails⟩ := ih ht
          refine ⟨u :: before, behind, s', rfl, ?_, hfails⟩
          rw [sift_cons_of_not_applies hfirst]
          exact hbefore

/-- Taking out what is stale leaves what is kept. -/
theorem filter_not_stale (hnodup : (l.map (·.id)).Nodup) (s : State) :
    l.filter (fun t => t.id ∉ (sift c l s).2.map (·.id)) = (sift c l s).1 := by
  induction l generalizing s with
  | nil => rfl
  | cons t rest ih =>
      obtain ⟨hfirst, hrest⟩ := List.nodup_cons.mp hnodup
      by_cases happlies : ∃ s', Applies c t s s'
      · obtain ⟨next, happlies⟩ := happlies
        rw [sift_cons_of_applies happlies]
        -- The identifiers differ, so what is stale behind it does not hit it.
        have hkept : t.id ∉ (sift c rest next).2.map (·.id) := fun hmem =>
          hfirst (((sublist_sift c rest next).2.map _).subset hmem)
        rw [List.filter_cons, if_pos (decide_eq_true hkept), ih hrest]
      · rw [sift_cons_of_not_applies (not_exists.mp happlies)]
        have hgone : t.id ∈ (t :: (sift c rest s).2).map (·.id) := List.mem_cons_self
        have hout : ¬ decide (t.id ∉ (t :: (sift c rest s).2).map (·.id)) = true := by
          rw [decide_eq_true_iff]
          exact not_not_intro hgone
        rw [List.filter_cons, if_neg hout, ← ih hrest s]
        refine List.filter_congr fun u hu => ?_
        have hmem : u.id ∈ rest.map (·.id) := List.mem_map_of_mem hu
        have hne : u.id ≠ t.id := by
          intro heq
          rw [heq] at hmem
          exact hfirst hmem
        rw [List.map_cons, decide_eq_decide, List.mem_cons, not_or]
        exact and_iff_right hne

/-! ## The pool -/

/-- The stale transactions of a node. -/
def stale (n : Node) : List Transaction := (sift n.chain n.pool.toList n.chain.state).2

theorem applicable_eq (n : Node) :
    n.applicable = ((sift n.chain n.pool.toList n.chain.state).1,
      { n with pool := n.pool.clear n.stale }) := rfl

/-- After sifting the pool holds what is applicable, in the same order. -/
theorem toList_clear_stale {n : Node} (h : n.pool.Indexed) :
    (n.pool.clear n.stale).toList = n.applicable.1 := by
  rw [h.toList_clear, applicable_eq]
  exact filter_not_stale h.nodup_ids n.chain.state

end WorkLedger.Node
