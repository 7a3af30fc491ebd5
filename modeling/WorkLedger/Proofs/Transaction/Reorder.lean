/-
# Series in another order

Two orders of one series that both run lead to states with the same keys, the same accounts
but for balances, and the same storage: calls of one contract all run the same code, so only
their number counts.  The balances differ by what each key pays for gas, and by nothing else,
because which call is the expensive one depends on the order.
-/
import WorkLedger.Proofs.Transaction.PerKey

namespace WorkLedger.Transaction

variable {series other : List Transaction} {s s' t t' : State}

/-! ## Along a series -/

theorem bareAt_runSeries (hs : s.accounts.Sound) (h : runSeries series s = .ok s') (key : String) :
    s'.bareAt key = (s.bareAt key).or (series.findSome? fun t => t.founds key) := by
  induction series generalizing s with
  | nil =>
      cases h
      simp
  | cons t rest ih =>
      obtain ⟨next, hrun, h⟩ := runSeries_cons_eq_ok.mp h
      rw [ih (sound_accounts_of_run hs hrun) h, bareAt_run hs hrun, List.findSome?_cons,
        Option.or_assoc]
      cases t.founds key <;> rfl

/-- Whoever is there stays. -/
theorem codeAt_runSeries (hs : s.accounts.Sound) (h : runSeries series s = .ok s') {key : String}
    (hsome : (s.bareAt key).isSome) : s'.codeAt key = s.codeAt key := by
  unfold State.codeAt
  rw [bareAt_runSeries hs h]
  obtain ⟨a, ha⟩ := Option.isSome_iff_exists.mp hsome
  rw [ha]
  rfl

/-- A key that is called exists. -/
theorem isSome_bareAt_of_calls {u : Transaction} (hrun : u.run s = .ok s') {key : String}
    (hcalls : u.calls key = true) : (s.bareAt key).isSome := by
  obtain ⟨hdata, rfl⟩ : u.data = .transact ∧ u.recipient = key := by simpa [calls] using hcalls
  obtain ⟨_, recipient, _, _, _, -, hpayee, -⟩ := writes_of_run_transact hdata hrun
  rw [State.bareAt_of_account? (payee_eq_ok.mp hpayee)]
  rfl

/-- The storage under a key depends on the number of calls. -/
theorem storageAt_runSeries (hs : s.accounts.Sound) (h : runSeries series s = .ok s')
    (key : String) : s'.storageAt key =
      storageAfterCalls (s'.codeAt key) (series.countP fun t => t.calls key) (s.storageAt key) := by
  induction series generalizing s with
  | nil =>
      cases h
      rfl
  | cons u rest ih =>
      have hall := h
      obtain ⟨next, hrun, h⟩ := runSeries_cons_eq_ok.mp h
      rw [ih (sound_accounts_of_run hs hrun) h, storageAt_run hrun, List.countP_cons]
      split
      · rename_i hcalls
        rw [← codeAt_runSeries hs hall (isSome_bareAt_of_calls hrun hcalls)]
        rfl
      · rfl

/-- What a key earns for gas depends on the number of calls. -/
theorem gasEarned_runSeries (hs : s.WellFormed) (h : runSeries series s = .ok s')
    (key : String) : gasEarned key series s =
      gasOfCalls (s'.codeAt key) (series.countP fun t => t.calls key) (s.storageAt key) := by
  induction series generalizing s with
  | nil =>
      cases h
      rfl
  | cons u rest ih =>
      have hall := h
      obtain ⟨next, hrun, h⟩ := runSeries_cons_eq_ok.mp h
      have hrest := ih (run_wellFormed hs hrun) h
      rw [storageAt_run hrun] at hrest
      simp only [gasEarned, hrun, hrest, List.countP_cons]
      by_cases hcalls : u.calls key = true
      · obtain ⟨hdata, rfl⟩ : u.data = .transact ∧ u.recipient = key := by
          simpa [calls] using hcalls
        have hcode := codeAt_runSeries hs.accounts hall (isSome_bareAt_of_calls hrun hcalls)
        simp only [hcalls, if_true, gasUsed, hdata, hcode, gasOfCalls]
      · have hgas : (if key = u.recipient then u.gasUsed s else 0) = 0 := by
          split
          · rename_i hkey
            subst hkey
            unfold gasUsed
            cases hdata : u.data with
            | transact => exact absurd (by simp [calls, hdata]) hcalls
            | _ => rfl
          · rfl
        rw [hgas, UInt64.zero_add]
        simp [hcalls]

/-- The sum of the changes under a key. -/
def changes (key : String) (series : List Transaction) : UInt64 :=
  (series.map fun t => t.change key).sum

theorem balanceAt_runSeries (hs : s.WellFormed) (h : runSeries series s = .ok s')
    (key : String) : s'.balanceAt key + gasPaid key series s =
      s.balanceAt key + changes key series + gasEarned key series s := by
  induction series generalizing s with
  | nil =>
      cases h
      simp [gasPaid, gasEarned, changes]
  | cons u rest ih =>
      obtain ⟨next, hrun, h⟩ := runSeries_cons_eq_ok.mp h
      have hrest := ih (run_wellFormed hs hrun) h
      have hfirst := balanceAt_run hs hrun key
      simp only [gasPaid, gasEarned, hrun, changes, List.map_cons, List.sum_cons] at hrest ⊢
      grind

/-! ## Two orders -/

theorem changes_perm (h : series.Perm other) (key : String) :
    changes key series = changes key other := by
  unfold changes
  induction h with
  | nil => rfl
  | cons u _ ih => simp only [List.map_cons, List.sum_cons, ih]
  | swap u v rest =>
      simp only [List.map_cons, List.sum_cons]
      grind
  | trans _ _ ih ih' => exact ih.trans ih'

/-- A publication runs only where nobody is yet, so nobody has come to the key before it. -/
theorem findSome?_founds_of_createAccount (hs : s.WellFormed) (h : runSeries series s = .ok s')
    {u : Transaction} (hu : u ∈ series) {fields : Json.Object}
    (hdata : u.data = .createAccount fields) {key : String} {a : Account}
    (hfounds : u.founds key = some a) :
    s.bareAt key = none ∧ series.findSome? (fun t => t.founds key) = some a := by
  induction series generalizing s with
  | nil => exact nomatch hu
  | cons v rest ih =>
      obtain ⟨next, hrun, h⟩ := runSeries_cons_eq_ok.mp h
      rw [List.findSome?_cons]
      rcases List.mem_cons.mp hu with rfl | hu
      · obtain ⟨b, hnew, -⟩ := (run_createAccount_eq_ok hdata).mp hrun
        obtain ⟨hsnapshot, hnone⟩ := newAccount_eq_ok.mp hnew
        have hkey : key = b.storageKey := by
          simp only [founds, hdata, hsnapshot] at hfounds
          split at hfounds
          · assumption
          · cases hfounds
        rw [hfounds, hkey]
        exact ⟨State.bareAt_eq_none.mpr hnone, rfl⟩
      · obtain ⟨hnone, hfind⟩ := ih (run_wellFormed hs hrun) h hu
        rw [bareAt_run hs.accounts hrun, Option.or_eq_none_iff] at hnone
        rw [hnone.2]
        exact ⟨hnone.1, hfind⟩

/-- Only publications can found anything but a plain account for the key. -/
theorem founds_eq_new {u : Transaction} {key : String} {a : Account}
    (hdata : ∀ fields, u.data ≠ .createAccount fields) (h : u.founds key = some a) :
    a = .new key 0 [] := by
  unfold founds at h
  split at h
  · exact nomatch h
  · rename_i fields hcreate
    exact absurd hcreate (hdata fields)
  · split at h
    · exact (Option.some.inj h).symm
    · exact nomatch h

theorem bareAt_perm (hs : s.WellFormed) (hperm : series.Perm other)
    (h : runSeries series s = .ok t) (h' : runSeries other s = .ok t') (key : String) :
    t.bareAt key = t'.bareAt key := by
  rw [bareAt_runSeries hs.accounts h, bareAt_runSeries hs.accounts h']
  congr 1
  by_cases hcreate : ∃ u ∈ series, (∃ fields, u.data = .createAccount fields) ∧
      ∃ a, u.founds key = some a
  · obtain ⟨u, hu, ⟨fields, hdata⟩, a, hfounds⟩ := hcreate
    rw [(findSome?_founds_of_createAccount hs h hu hdata hfounds).2,
      (findSome?_founds_of_createAccount hs h' (hperm.mem_iff.mp hu) hdata hfounds).2]
  · -- Whoever comes is a plain account of the key, if anybody comes at all.
    have hnew : ∀ {l : List Transaction} {a : Account}, (∀ u ∈ l, u ∈ series) →
        l.findSome? (fun t => t.founds key) = some a → a = .new key 0 [] := by
      intro l a hl hfind
      obtain ⟨u, hu, hfounds⟩ := List.exists_of_findSome?_eq_some hfind
      exact founds_eq_new
        (fun fields hdata => hcreate ⟨u, hl u hu, ⟨fields, hdata⟩, a, hfounds⟩) hfounds
    have hnone : series.findSome? (fun t => t.founds key) = none ↔
        other.findSome? (fun t => t.founds key) = none := by
      simp only [List.findSome?_eq_none_iff, hperm.mem_iff]
    cases hfind : series.findSome? (fun t => t.founds key) with
    | none => rw [hnone.mp hfind]
    | some a =>
        cases hfind' : other.findSome? (fun t => t.founds key) with
        | none =>
            rw [hnone.mpr hfind'] at hfind
            exact nomatch hfind
        | some b =>
            rw [hnew (fun _ hu => hu) hfind, hnew (fun _ hu => hperm.mem_iff.mpr hu) hfind']

theorem codeAt_perm (hs : s.WellFormed) (hperm : series.Perm other)
    (h : runSeries series s = .ok t) (h' : runSeries other s = .ok t') (key : String) :
    t.codeAt key = t'.codeAt key := by
  unfold State.codeAt
  rw [bareAt_perm hs hperm h h']

theorem storageAt_perm (hs : s.WellFormed) (hperm : series.Perm other)
    (h : runSeries series s = .ok t) (h' : runSeries other s = .ok t') (key : String) :
    t.storageAt key = t'.storageAt key := by
  rw [storageAt_runSeries hs.accounts h, storageAt_runSeries hs.accounts h', codeAt_perm hs hperm h h',
    hperm.countP_eq]

/-- The balances differ by the gas that is paid. -/
theorem balanceAt_perm (hs : s.WellFormed) (hperm : series.Perm other)
    (h : runSeries series s = .ok t) (h' : runSeries other s = .ok t') (key : String) :
    t.balanceAt key + gasPaid key series s = t'.balanceAt key + gasPaid key other s := by
  rw [balanceAt_runSeries hs h, balanceAt_runSeries hs h', gasEarned_runSeries hs h,
    gasEarned_runSeries hs h', codeAt_perm hs hperm h h', changes_perm hperm, hperm.countP_eq]

theorem balanceAt_eq_iff (hs : s.WellFormed) (hperm : series.Perm other)
    (h : runSeries series s = .ok t) (h' : runSeries other s = .ok t') (key : String) :
    t.balanceAt key = t'.balanceAt key ↔ gasPaid key series s = gasPaid key other s := by
  have hsum := balanceAt_perm hs hperm h h' key
  constructor
  · intro heq
    rw [heq] at hsum
    exact (UInt64.add_right_inj _).mp hsum
  · intro heq
    rw [heq] at hsum
    exact (UInt64.add_left_inj _).mp hsum

/-- Two orders lead to the same accounts exactly if every key pays the same gas. -/
theorem account?_eq_iff (hs : s.WellFormed) (hperm : series.Perm other)
    (h : runSeries series s = .ok t) (h' : runSeries other s = .ok t') :
    (∀ key, t.account? key = t'.account? key) ↔
      ∀ key, gasPaid key series s = gasPaid key other s := by
  constructor
  · intro heq key
    rw [← balanceAt_eq_iff hs hperm h h']
    unfold State.balanceAt State.balance?
    rw [heq]
  · intro heq key
    rw [(runSeries_wellFormed hs h).account?_eq, (runSeries_wellFormed hs h').account?_eq,
      bareAt_perm hs hperm h h', (balanceAt_eq_iff hs hperm h h' key).mpr (heq key),
      storageAt_perm hs hperm h h']

end WorkLedger.Transaction
