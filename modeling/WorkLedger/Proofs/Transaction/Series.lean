/-
# Series of transactions

A series runs as its first transaction and then the rest on the state left.  A series that
validates also runs, and to the state in which its validation ended: validating runs every
transaction on the way.
-/
import WorkLedger.Proofs.Outcome
import WorkLedger.Transaction.Run

namespace WorkLedger.Transaction

theorem runSeries_cons (t : Transaction) (rest : List Transaction) (s : State) :
    runSeries (t :: rest) s = t.run s >>= runSeries rest := by
  cases h : t.run s with
  | error e => simp only [runSeries, runPrefix, h]; rfl
  | ok s' => simp only [runSeries, runPrefix, h]; rfl

theorem runSeries_cons_eq_ok {t : Transaction} {rest : List Transaction} {s s' : State} :
    runSeries (t :: rest) s = .ok s' ↔
      ∃ next, t.run s = .ok next ∧ runSeries rest next = .ok s' := by
  rw [runSeries_cons, bind_eq_ok]

theorem validateAndRun_cons_eq_ok {t : Transaction} {rest : List Transaction} {s s' : State} :
    validateAndRun (t :: rest) s = .ok s' ↔
      t.validate s = .ok () ∧ ∃ next, t.run s = .ok next ∧ validateAndRun rest next = .ok s' := by
  simp only [validateAndRun, bind_eq_ok]
  exact ⟨fun ⟨_, hv, next, hr, h⟩ => ⟨hv, next, hr, h⟩,
    fun ⟨hv, next, hr, h⟩ => ⟨_, hv, next, hr, h⟩⟩

theorem validateAndRun_append (xs ys : List Transaction) (s : State) :
    validateAndRun (xs ++ ys) s = validateAndRun xs s >>= validateAndRun ys := by
  induction xs generalizing s with
  | nil => rfl
  | cons t rest ih => simp only [List.cons_append, validateAndRun, bind_assoc, ih]

/-- What validates runs, and to the same state. -/
theorem runSeries_of_validateAndRun {s s' : State} :
    ∀ {series : List Transaction}, validateAndRun series s = .ok s' →
      runSeries series s = .ok s' := by
  intro series
  induction series generalizing s with
  | nil => exact fun h => h
  | cons t rest ih =>
      intro h
      obtain ⟨-, next, hrun, hrest⟩ := validateAndRun_cons_eq_ok.mp h
      exact runSeries_cons_eq_ok.mpr ⟨next, hrun, ih hrest⟩

theorem validateSeries_eq_ok {series : List Transaction} {s : State} :
    validateSeries series s = .ok () ↔ ∃ s', validateAndRun series s = .ok s' := by
  simp only [validateSeries, bind_eq_ok]
  exact ⟨fun ⟨s', h, _⟩ => ⟨s', h⟩, fun ⟨s', h⟩ => ⟨s', h, rfl⟩⟩

/-- Every transaction of a series that validates was valid on the state it came to. -/
theorem validate_of_mem {s s' : State} {t : Transaction} :
    ∀ {series : List Transaction}, validateAndRun series s = .ok s' → t ∈ series →
      ∃ before, t.validate before = .ok () := by
  intro series
  induction series generalizing s with
  | nil => exact fun _ h => absurd h List.not_mem_nil
  | cons u rest ih =>
      intro h hmem
      obtain ⟨hvalid, next, -, hrest⟩ := validateAndRun_cons_eq_ok.mp h
      rcases List.mem_cons.mp hmem with rfl | hmem
      · exact ⟨s, hvalid⟩
      · exact ih hrest hmem

end WorkLedger.Transaction
