/-
# The choice of what to mine

Which pending transactions a node mines is decided one by one, each on the state that those chosen
before it lead to.  So the choice can be told place by place: a transaction is left out exactly if
it was included already, or if it is refused or fails on that state.  The pool keeps what was
chosen, and nothing else of the node changes.

The division of the pool takes states as values.  Done in place it has one scratch state, in which
every transaction starts from what the one before it has left, also where that one has failed.  It
comes to the same, since a transaction that fails has written nothing.  Only a charge that is no
64-bit number stops it.
-/
import WorkLedger.Proofs.Chain.History
import WorkLedger.Proofs.Node.Sifting
import WorkLedger.Proofs.Transaction.InPlace

namespace WorkLedger

/-! ## Failures that are caught -/

namespace Steps

variable {α β : Type} {m : Steps α} {k : α → Steps β} {s s' : State}

theorem on_bind_of_ok {a : α} (h : m.on s = (.ok a, s')) : (m >>= k).on s = (k a).on s' := by
  have hrun : m s = (.ok a, s') := h
  show (ExceptT.bindCont k (m s).1).run (m s).2 = _
  rw [hrun]
  rfl

theorem on_bind_of_error {e : Stop} (h : m.on s = (.error e, s')) :
    (m >>= k).on s = (.error e, s') := by
  have hrun : m s = (.error e, s') := h
  show (ExceptT.bindCont k (m s).1).run (m s).2 = _
  rw [hrun]
  rfl

/-- Whether steps come to their end.  A refusal is caught, and what was written before it stays;
an amount out of range is not caught. -/
def succeeds (m : Steps Unit) : Steps Bool :=
  ExceptT.mk fun s =>
    match m.on s with
    | (.ok (), s') => (.ok true, s')
    | (.error (.refused _), s') => (.ok false, s')
    | (.error (.leavesRange amount), s') => (.error (.leavesRange amount), s')

variable {n : Steps Unit}

theorem succeeds_of_ok (h : n.on s = (.ok (), s')) : n.succeeds.on s = (.ok true, s') := by
  simp only [succeeds, on, ExceptT.run, ExceptT.mk] at h ⊢
  simp only [h]

theorem succeeds_of_refused {e : TransactionError} (h : n.on s = (.error (.refused e), s')) :
    n.succeeds.on s = (.ok false, s') := by
  simp only [succeeds, on, ExceptT.run, ExceptT.mk] at h ⊢
  simp only [h]

theorem succeeds_of_leavesRange {amount : Amount}
    (h : n.on s = (.error (.leavesRange amount), s')) :
    n.succeeds.on s = (.error (.leavesRange amount), s') := by
  simp only [succeeds, on, ExceptT.run, ExceptT.mk] at h ⊢
  simp only [h]

end Steps

namespace Transaction

/-- Validates and runs a transaction in place. -/
def applyInPlace (t : Transaction) : Steps Unit := do
  let s ← get
  ofExcept ((t.validate s).mapError .refused)
  t.inPlace

variable {t : Transaction} {s s' : State}

theorem applyInPlace_of_refused {e : TransactionError} (h : t.validate s = .error e) :
    t.applyInPlace.on s = (.error (.refused e), s) := by
  show Steps.on (ofExcept ((t.validate s).mapError .refused) >>= _) s = _
  rw [h]
  rfl

theorem applyInPlace_of_valid (h : t.validate s = .ok ()) :
    t.applyInPlace.on s = t.inPlace.on s := by
  show Steps.on (ofExcept ((t.validate s).mapError .refused) >>= fun _ => t.inPlace) s = _
  rw [h]
  rfl

/-- A transaction tried in place applies, and the state is the one that it leads to; or it does
not, and the state is as it was; or its charge is no 64-bit number. -/
theorem succeeds_applyInPlace (hs : s.accounts.Sound) :
    (∃ s', t.validate s = .ok () ∧ t.run s = .ok s' ∧
      t.applyInPlace.succeeds.on s = (.ok true, s')) ∨
    (((∃ e, t.validate s = .error e) ∨ ∃ e, t.run s = .error e) ∧
      t.applyInPlace.succeeds.on s = (.ok false, s)) ∨
    (t.Overcharges s ∧
      t.applyInPlace.succeeds.on s = (.error (.leavesRange .charge), s)) := by
  cases hvalid : t.validate s with
  | error e =>
      have hstops := Steps.succeeds_of_refused (applyInPlace_of_refused hvalid)
      exact .inr (.inl ⟨.inl ⟨e, rfl⟩, hstops⟩)
  | ok u =>
      have hon := applyInPlace_of_valid hvalid
      by_cases hcharge : t.Overcharges s
      · rw [hcharge.inPlace_on] at hon
        exact .inr (.inr ⟨hcharge, Steps.succeeds_of_leavesRange hon⟩)
      · have hrealizes : t.inPlace.on s = _ := inPlace_realizes hs hcharge
        rw [hrealizes] at hon
        cases hrun : t.run s with
        | ok s' =>
            rw [hrun] at hon
            exact .inl ⟨s', rfl, rfl, Steps.succeeds_of_ok hon⟩
        | error e =>
            rw [hrun] at hon
            exact .inr (.inl ⟨.inr ⟨e, rfl⟩, Steps.succeeds_of_refused hon⟩)

end Transaction

namespace Node

variable {c : Chain} {t : Transaction} {l before behind : List Transaction} {s : State}

/-! ## The division in place -/

/-- Whether a transaction applies, on a state that it changes in place if it does. -/
def appliesInPlace (c : Chain) (t : Transaction) : Steps Bool :=
  if c.contains t.id then return false else t.applyInPlace.succeeds

theorem appliesInPlace_on (hs : s.accounts.Sound) (c : Chain) (t : Transaction) :
    (∃ s', Applies c t s s' ∧ (appliesInPlace c t).on s = (.ok true, s')) ∨
    ((∀ s', ¬Applies c t s s') ∧ (appliesInPlace c t).on s = (.ok false, s)) ∨
    (t.Overcharges s ∧ (appliesInPlace c t).on s = (.error (.leavesRange .charge), s)) := by
  unfold appliesInPlace
  cases hcontains : c.contains t.id with
  | true => exact .inr (.inl ⟨not_applies_iff.mpr (.inl hcontains), rfl⟩)
  | false =>
      rcases Transaction.succeeds_applyInPlace (t := t) hs with
        ⟨s', hvalid, hrun, hon⟩ | ⟨hfails, hon⟩ | hstops
      · exact .inl ⟨s', ⟨hcontains, hvalid, hrun⟩, hon⟩
      · exact .inr (.inl ⟨not_applies_iff.mpr (.inr hfails), hon⟩)
      · exact .inr (.inr hstops)

/-- One transaction: unless its charge stops it, it comes first on the side that `sift` puts it on,
and the rest is divided on the state that is left. -/
theorem sift_cons_in_place (hs : s.accounts.Sound) (c : Chain) (t : Transaction) :
    (∃ applies next, (appliesInPlace c t).on s = (.ok applies, next) ∧ next.accounts.Sound ∧
      ∀ rest, sift c (t :: rest) s =
          (if applies then (t :: (sift c rest next).1, (sift c rest next).2)
            else ((sift c rest next).1, t :: (sift c rest next).2)) ∧
        ∀ s', Transaction.runSeries (sift c rest next).1 next = .ok s' →
          Transaction.runSeries (sift c (t :: rest) s).1 s = .ok s') ∨
    (t.Overcharges s ∧ (appliesInPlace c t).on s = (.error (.leavesRange .charge), s)) := by
  rcases appliesInPlace_on hs c t with ⟨next, happlies, hon⟩ | ⟨hfails, hon⟩ | hstops
  · refine .inl ⟨true, next, hon, Transaction.sound_accounts_of_run hs happlies.2.2, ?_⟩
    intro rest
    refine ⟨sift_cons_of_applies happlies, ?_⟩
    intro s' hrun
    rw [sift_cons_of_applies happlies]
    exact Transaction.runSeries_cons_eq_ok.mpr ⟨next, happlies.2.2, hrun⟩
  · refine .inl ⟨false, s, hon, hs, ?_⟩
    intro rest
    refine ⟨sift_cons_of_not_applies hfails, ?_⟩
    intro s' hrun
    rw [sift_cons_of_not_applies hfails]
    exact hrun
  · exact .inr hstops

/-- Divides transactions as `sift` does, on one state that is written in place. -/
def siftInPlace (c : Chain) : List Transaction → Steps (List Transaction × List Transaction)
  | [] => return ([], [])
  | t :: rest => do
      let applies ← appliesInPlace c t
      let (applicable, stale) ← siftInPlace c rest
      return if applies then (t :: applicable, stale) else (applicable, t :: stale)

/-- In place the division comes to the same, and the state is the one that the transactions kept
lead to; unless it stops at a charge that is no 64-bit number. -/
theorem siftInPlace_on (hs : s.accounts.Sound) (c : Chain) (l : List Transaction) :
    (∃ s', (siftInPlace c l).on s = (.ok (sift c l s), s') ∧
      Transaction.runSeries (sift c l s).1 s = .ok s') ∨
    ∃ before t behind s', l = before ++ t :: behind ∧
      Transaction.runSeries (sift c before s).1 s = .ok s' ∧ t.Overcharges s' ∧
      (siftInPlace c l).on s = (.error (.leavesRange .charge), s') := by
  -- The induction is over the pool for any scratch state: that the state is sound is all that one
  -- transaction leaves for the next.
  induction l generalizing s with
  | nil => exact .inl ⟨s, rfl, rfl⟩
  | cons t rest ih =>
      rcases sift_cons_in_place hs c t with ⟨applies, next, hon, hnext, hsift⟩ | ⟨hcharge, hon⟩
      · rcases ih hnext with ⟨s', hrest, hrun⟩ | ⟨before, u, behind, s', rfl, hrun, hcharge, hrest⟩
        · refine .inl ⟨s', ?_, (hsift rest).2 s' hrun⟩
          rw [(hsift rest).1]
          exact (Steps.on_bind_of_ok hon).trans (Steps.on_bind_of_ok hrest)
        · exact .inr ⟨t :: before, u, behind, s', rfl, (hsift before).2 s' hrun, hcharge,
            (Steps.on_bind_of_ok hon).trans (Steps.on_bind_of_error hrest)⟩
      · exact .inr ⟨[], t, rest, s, rfl, rfl, hcharge, Steps.on_bind_of_error hon⟩

/-! ## Place by place -/

/-- Those kept among the transactions before a place are the ones that the division of these
alone keeps. -/
theorem filter_sift_before (hnodup : l.Nodup) (hl : l = before ++ behind) (s : State) :
    (sift c l s).1.filter (· ∈ before) = (sift c before s).1 := by
  subst hl
  obtain ⟨s', -, hsift⟩ := sift_append c before behind s
  obtain ⟨-, -, hapart⟩ := List.nodup_append.mp hnodup
  have hfirst : (sift c before s).1.filter (· ∈ before) = (sift c before s).1 := by
    refine List.filter_eq_self.mpr ?_
    intro t ht
    exact decide_eq_true ((sublist_sift c before s).1.subset ht)
  have hlater : (sift c behind s').1.filter (· ∈ before) = [] := by
    refine List.filter_eq_nil_iff.mpr ?_
    intro t ht hmem
    exact hapart t (of_decide_eq_true hmem) t ((sublist_sift c behind s').1.subset ht) rfl
  rw [hsift, List.filter_append, hfirst, hlater, List.append_nil]

/-- A transaction is left out exactly if it does not apply to the state that those kept before it
lead to. -/
theorem exists_before_of_place (hnodup : l.Nodup) (hl : l = before ++ t :: behind) (s : State) :
    ∃ s', Transaction.runSeries ((sift c l s).1.filter (· ∈ before)) s = .ok s' ∧
      (t ∉ (sift c l s).1 ↔ ∀ next, ¬Applies c t s' next) := by
  rw [filter_sift_before hnodup hl]
  subst hl
  obtain ⟨s', hbefore, hsift⟩ := sift_append c before (t :: behind) s
  obtain ⟨-, hrest, hapart⟩ := List.nodup_append.mp hnodup
  have hfirst : t ∉ (sift c before s).1 := fun ht =>
    hapart t ((sublist_sift c before s).1.subset ht) t List.mem_cons_self rfl
  refine ⟨s', Transaction.runSeries_of_validateAndRun hbefore, ?_⟩
  rw [hsift, List.mem_append, or_iff_right hfirst]
  constructor
  · intro hout next happlies
    rw [sift_cons_of_applies happlies] at hout
    exact hout List.mem_cons_self
  · intro hfails hkept
    rw [sift_cons_of_not_applies hfails] at hkept
    exact (List.nodup_cons.mp hrest).1 ((sublist_sift c behind s').1.subset hkept)

/-- Whatever the chain has come to and whatever has gone into the pool and out of it: what a node
chooses to mine is pending, in the order of arrival, validates as a series on the state of the
chain and holds nothing that the chain includes.  What it leaves out is included, or is refused or
fails on the state that those chosen before it lead to.  The pool then holds exactly what was
chosen, in that order, and nothing else of the node has changed.  The same choice comes of one
scratch state written in place, which ends as the chosen series leaves it, unless a charge is no
64-bit number. -/
theorem applicable_exact (m : Node) (chainCalls : List Chain.Call) (poolCalls : List Pool.Call) :
    let n : Node := { m with
      chain := .afterAll Block.validate chainCalls
      pool := .afterAll poolCalls }
    let s := n.chain.state
    let chosen := n.applicable.1
    let left := n.applicable.2
    chosen.Sublist n.pool.toList ∧
    Transaction.validateSeries chosen s = .ok () ∧
    (∀ t ∈ chosen, n.chain.contains t.id = false) ∧
    (∀ before t behind, n.pool.toList = before ++ t :: behind →
      ∃ s', Transaction.runSeries (chosen.filter (· ∈ before)) s = .ok s' ∧
        (t ∉ chosen ↔ n.chain.contains t.id = true ∨
          (∃ e, t.validate s' = .error e) ∨ ∃ e, t.run s' = .error e)) ∧
    left.pool.toList = chosen ∧
    left = { n with pool := left.pool } ∧
    ((∃ s', (siftInPlace n.chain n.pool.toList).on s = (.ok (chosen, n.stale), s') ∧
        Transaction.runSeries chosen s = .ok s') ∨
      ∃ before t behind s', n.pool.toList = before ++ t :: behind ∧
        Transaction.runSeries (chosen.filter (· ∈ before)) s = .ok s' ∧ t.Overcharges s') := by
  intro n s chosen left
  have hpool : n.pool.Indexed := Pool.indexed_afterAll poolCalls
  have hs : s.accounts.Sound :=
    (Chain.grown_afterAll Block.validate chainCalls).reachable.wellFormed.accounts
  have hnodup : n.pool.toList.Nodup := hpool.nodup_ids.of_map _
  refine ⟨(sublist_sift n.chain n.pool.toList s).1, ?validates, ?new, ?places,
    toList_clear_stale hpool, rfl, ?inPlace⟩
  case validates =>
    exact Transaction.validateSeries_eq_ok.mpr (validateAndRun_sift n.chain n.pool.toList s)
  case new =>
    intro t ht
    exact contains_of_mem_sift ht
  case places =>
    intro before t behind hl
    obtain ⟨s', hbefore, hout⟩ := exists_before_of_place (c := n.chain) hnodup hl s
    exact ⟨s', hbefore, hout.trans not_applies_iff⟩
  case inPlace =>
    rcases siftInPlace_on hs n.chain n.pool.toList with
      hsame | ⟨before, t, behind, s', hl, hrun, hcharge, -⟩
    · exact .inl hsame
    · rw [← filter_sift_before hnodup hl] at hrun
      exact .inr ⟨before, t, behind, s', hl, hrun, hcharge⟩

end Node

end WorkLedger
