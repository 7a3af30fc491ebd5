/-
# Machines on two storages

Code knows its storage by what it reads.  If two storages read alike under every key, and go on
doing so whatever is stored in both, then code does the same on either: the machines take the same
steps, with the same stack and gas, and come to the same end.
-/
import WorkLedger.Proofs.Machine.Execution

namespace WorkLedger

/-! ## Computations that agree -/

/-- Both computations fail with one error, or both succeed and their results are related. -/
inductive Alike {ε α β : Type} (R : α → β → Prop) : Except ε α → Except ε β → Prop
  | ok {a : α} {b : β} : R a b → Alike R (.ok a) (.ok b)
  | error (e : ε) : Alike R (.error e) (.error e)

theorem Alike.bind {ε α β γ δ : Type} {R : α → β → Prop} {S : γ → δ → Prop} {x : Except ε α}
    {y : Except ε β} {f : α → Except ε γ} {g : β → Except ε δ} (h : Alike R x y)
    (hnext : ∀ a b, R a b → Alike S (f a) (g b)) : Alike S (x >>= f) (y >>= g) := by
  cases h with
  | ok hab => exact hnext _ _ hab
  | error e => exact .error e

/-- Nothing read tells the storages apart, now or after the same word is stored in both. -/
structure Simulation {σ τ : Type} [Storage σ] [Storage τ] (R : σ → τ → Prop) : Prop where
  load : ∀ {s t}, R s t → ∀ key, Storage.load s key = Storage.load t key
  store : ∀ {s t}, R s t → ∀ key value, R (Storage.store s key value) (Storage.store t key value)

namespace Machine

variable {σ τ : Type} {R : σ → τ → Prop} {m : Machine σ} {n : Machine τ} {p : Program}
  {op : Opcode}

/-- The machines differ in their storage only. -/
inductive Mirrors (R : σ → τ → Prop) : Machine σ → Machine τ → Prop
  | intro (pc : Nat) (stack : List Word) (gasUsed : UInt64) {s : σ} {t : τ} : R s t →
      Mirrors R ⟨pc, stack, gasUsed, s⟩ ⟨pc, stack, gasUsed, t⟩

/-- The same was popped off both machines. -/
def Popped {α : Type} (R : σ → τ → Prop) (a : α × Machine σ) (b : α × Machine τ) : Prop :=
  a.1 = b.1 ∧ Mirrors R a.2 b.2

/-! ## What is reported -/

/-- Machines came to the same end, or both still run. -/
inductive Status.Mirrors (R : σ → τ → Prop) : Status σ → Status τ → Prop
  | running {m : Machine σ} {n : Machine τ} : Machine.Mirrors R m n →
      Status.Mirrors R (.running m) (.running n)
  | halted {m : Machine σ} {n : Machine τ} : Machine.Mirrors R m n →
      Status.Mirrors R (.halted m) (.halted n)
  | failed {m : Machine σ} {n : Machine τ} (f : Fault) : Machine.Mirrors R m n →
      Status.Mirrors R (.failed m f) (.failed n f)

/-- What is reported of machines that mirror each other is the same. -/
theorem Status.Mirrors.report {s : Status σ} {t : Status τ} (h : Status.Mirrors R s t) :
    s.report.1 = t.report.1 ∧ R s.report.2 t.report.2 := by
  cases h with
  | running h =>
      obtain ⟨pc, stack, gasUsed, hR⟩ := h
      exact ⟨rfl, hR⟩
  | halted h =>
      obtain ⟨pc, stack, gasUsed, hR⟩ := h
      exact ⟨rfl, hR⟩
  | failed f h =>
      obtain ⟨pc, stack, gasUsed, hR⟩ := h
      exact ⟨rfl, hR⟩

/-- What a step makes of an instruction that was executed. -/
theorem Mirrors.status (h : Mirrors R m n) :
    ∀ {x : Except Fault (Machine σ)} {y : Except Fault (Machine τ)}, Alike (Mirrors R) x y →
      Status.Mirrors R
        (match x with
          | .ok next => .running next
          | .error f => .failed m f)
        (match y with
          | .ok next => .running next
          | .error f => .failed n f) := by
  intro x y hexecute
  cases hexecute with
  | ok hnext => exact .running hnext
  | error f => exact .failed f h

/-! ## Instructions -/

theorem Mirrors.pop (h : Mirrors R m n) (op : Opcode) :
    Alike (Popped R) (m.pop op) (n.pop op) := by
  obtain ⟨pc, stack, gasUsed, hR⟩ := h
  cases stack with
  | nil => exact .error _
  | cons w rest => exact .ok ⟨rfl, .intro pc rest gasUsed hR⟩

theorem Mirrors.popNumber (h : Mirrors R m n) (op : Opcode) :
    Alike (Popped R) (m.popNumber op) (n.popNumber op) := by
  obtain ⟨pc, stack, gasUsed, hR⟩ := h
  match stack with
  | [] => exact .error _
  | .number r :: rest => exact .ok ⟨rfl, .intro pc rest gasUsed hR⟩
  | .text s :: rest => exact .error _

theorem Mirrors.pushNext (h : Mirrors R m n) (w : Word) :
    Mirrors R (m.pushNext w) (n.pushNext w) := by
  obtain ⟨pc, stack, gasUsed, hR⟩ := h
  exact .intro (pc + 1) (w :: stack) gasUsed hR

theorem Mirrors.jump (h : Mirrors R m n) (p : Program) (destination : Word) :
    Alike (Mirrors R) (m.jump p destination) (n.jump p destination) := by
  obtain ⟨pc, stack, gasUsed, hR⟩ := h
  unfold Machine.jump
  cases p.target? destination with
  | none => exact .error _
  | some target => exact .ok (.intro target stack gasUsed hR)

theorem Mirrors.binary (h : Mirrors R m n) (op : Opcode)
    (f : Rational → Rational → Except Rational.Fault Word) :
    Alike (Mirrors R) (m.binary op f) (n.binary op f) := by
  refine (h.popNumber op).bind ?_
  rintro ⟨a, m⟩ ⟨_, n⟩ ⟨rfl, h⟩
  refine (h.popNumber op).bind ?_
  rintro ⟨b, m⟩ ⟨_, n⟩ ⟨rfl, h⟩
  dsimp only
  cases f a b with
  | error fault => exact .error _
  | ok w => exact .ok (h.pushNext w)

theorem Mirrors.arithmetic (h : Mirrors R m n) (op : Opcode)
    (f : Rational → Rational → Except Rational.Fault Rational) :
    Alike (Mirrors R) (m.arithmetic op f) (n.arithmetic op f) :=
  h.binary op _

theorem Mirrors.comparison (h : Mirrors R m n) (op : Opcode) (f : Rational → Rational → Bool) :
    Alike (Mirrors R) (m.comparison op f) (n.comparison op f) :=
  h.binary op _

variable [Storage σ] [Storage τ]

theorem Mirrors.execute (hsim : Simulation R) (h : Mirrors R m n) (p : Program) (op : Opcode) :
    Alike (Mirrors R) (m.execute p op) (n.execute p op) := by
  cases op with
  | stop => exact .ok h
  | push =>
      obtain ⟨pc, stack, gasUsed, hR⟩ := h
      simp only [Machine.execute]
      cases p.slots[pc + 1]? with
      | none => exact .error _
      | some w => exact .ok (.intro (pc + 2) (w :: stack) gasUsed hR)
  | add => exact h.arithmetic .add _
  | sub => exact h.arithmetic .sub _
  | mul => exact h.arithmetic .mul _
  | div => exact h.arithmetic .div _
  | lt => exact h.comparison .lt _
  | gt => exact h.comparison .gt _
  | and => exact h.comparison .and _
  | or => exact h.comparison .or _
  | eq =>
      refine (h.pop .eq).bind ?_
      rintro ⟨a, m⟩ ⟨_, n⟩ ⟨rfl, h⟩
      refine (h.pop .eq).bind ?_
      rintro ⟨b, m⟩ ⟨_, n⟩ ⟨rfl, h⟩
      exact .ok (h.pushNext _)
  | jump =>
      refine (h.pop .jump).bind ?_
      rintro ⟨destination, m⟩ ⟨_, n⟩ ⟨rfl, h⟩
      exact h.jump p destination
  | jumpi =>
      refine (h.popNumber .jumpi).bind ?_
      rintro ⟨condition, m⟩ ⟨_, n⟩ ⟨rfl, h⟩
      refine (h.pop .jumpi).bind ?_
      rintro ⟨destination, m⟩ ⟨_, n⟩ ⟨rfl, h⟩
      by_cases hzero : condition.isZero = true
      · obtain ⟨pc, stack, gasUsed, hR⟩ := h
        simp only [if_pos hzero]
        exact .ok (.intro (pc + 1) stack gasUsed hR)
      · simp only [if_neg hzero]
        exact h.jump p destination
  | store =>
      refine (h.pop .store).bind ?_
      rintro ⟨key, m⟩ ⟨_, n⟩ ⟨rfl, h⟩
      refine (h.pop .store).bind ?_
      rintro ⟨value, m⟩ ⟨_, n⟩ ⟨rfl, h⟩
      obtain ⟨pc, stack, gasUsed, hR⟩ := h
      exact .ok (.intro (pc + 1) stack gasUsed (hsim.store hR key value))
  | load =>
      refine (h.pop .load).bind ?_
      rintro ⟨key, m⟩ ⟨_, n⟩ ⟨rfl, h⟩
      obtain ⟨pc, stack, gasUsed, hR⟩ := h
      simp only [hsim.load hR key]
      exact .ok (.intro (pc + 1) _ gasUsed hR)

/-! ## Runs -/

theorem Mirrors.step (hsim : Simulation R) (h : Mirrors R m n) (p : Program) :
    Status.Mirrors R (m.step p) (n.step p) := by
  obtain ⟨pc, stack, gasUsed, hR⟩ := h
  unfold Machine.step
  cases p.slots[pc]? with
  | none => exact .halted (.intro pc stack gasUsed hR)
  | some slot =>
      cases hop : slot.opcode? with
      | none =>
          simp only [hop]
          exact .failed _ (.intro pc stack gasUsed hR)
      | some op =>
          have hcharged := Mirrors.intro pc stack (gasUsed + op.gas) hR
          have hexecute := hcharged.execute hsim p op
          simp only [hop]
          by_cases hstop : op = .stop
          · simp only [if_pos hstop]
            exact .halted hcharged
          · simp only [if_neg hstop]
            exact hcharged.status hexecute

theorem Mirrors.runFor (hsim : Simulation R) (h : Mirrors R m n) (p : Program)
    (bound limit : Nat) :
    Status.Mirrors R (runFor p bound limit m) (runFor p bound limit n) := by
  induction limit generalizing m n with
  | zero =>
      obtain ⟨pc, stack, gasUsed, hR⟩ := h
      unfold Machine.runFor
      by_cases hpc : pc < p.slots.size
      · simp only [if_pos hpc]
        exact .failed _ (.intro pc stack gasUsed hR)
      · simp only [if_neg hpc]
        exact .halted (.intro pc stack gasUsed hR)
  | succ limit ih =>
      have hstep := h.step hsim p
      unfold Machine.runFor
      generalize m.step p = s at hstep
      generalize n.step p = t at hstep
      cases hstep with
      | running h => exact ih h
      | halted h => exact .halted h
      | failed f h => exact .failed f h

end Machine

/-- Code comes to the same result on both storages, and leaves them related. -/
theorem Simulation.runCode {σ τ : Type} [Storage σ] [Storage τ] {R : σ → τ → Prop}
    (hsim : Simulation R) (code : List Word) {s : σ} {t : τ} (h : R s t) :
    (runCode code s).1 = (runCode code t).1 ∧ R (runCode code s).2 (runCode code t).2 := by
  have hrun := Machine.Mirrors.runFor hsim (.intro 0 [] 0 h) (.ofCode code) executionLimit
    executionLimit
  rw [Machine.runCode_eq_report, Machine.runCode_eq_report]
  exact hrun.report

/-- Running code keeps what storing a word keeps: the storage is its own mirror as long as it has
the property. -/
theorem storage_runCode {σ : Type} [Storage σ] {P : σ → Prop}
    (hstore : ∀ s key value, P s → P (Storage.store s key value)) (code : List Word) {s : σ}
    (h : P s) : P (runCode code s).2 := by
  have hsim : Simulation fun s t : σ => s = t ∧ P s := by
    refine ⟨?_, ?_⟩
    · rintro s _ ⟨rfl, -⟩ key
      rfl
    · rintro s _ ⟨rfl, hs⟩ key value
      exact ⟨rfl, hstore s key value hs⟩
  exact (hsim.runCode code ⟨rfl, h⟩).2.2

end WorkLedger
