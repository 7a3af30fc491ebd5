/-
# The machine without a limit

The unlimited machine takes one step after another.  What it executes on the way is a list of
slots, and if it ends at all it ends in one way.  A run with a limit is the unlimited machine as
far as that comes to its end within the limit, and is otherwise taken for looping.  The gas of a
run is that of the slots executed, which is far from the largest that the counter can hold.
-/
import Mathlib.Algebra.GroupWithZero.Nat
import WorkLedger.Proofs.Machine.Effect

namespace WorkLedger

namespace Word

theorem opcode?_eq_some {w : Word} {op : Opcode} : w.opcode? = some op ↔ w = .ofOpcode op := by
  constructor
  · intro h
    cases w with
    | number r => exact nomatch h
    | text s =>
        have hfound : Opcode.all.find? (fun op => decide (op.mnemonic = s)) = some op := h
        have hmnemonic : op.mnemonic = s := by
          have hmatch := List.find?_some hfound
          exact of_decide_eq_true hmatch
        rw [ofOpcode, hmnemonic]
  · rintro rfl
    cases op <;> decide

/-- The gas of a slot that is executed. -/
def gas (slot : Word) : UInt64 :=
  match slot.opcode? with
  | some op => op.gas
  | none => 0

theorem gas_of_opcode? {slot : Word} {op : Opcode} (h : slot.opcode? = some op) :
    slot.gas = op.gas := by
  rw [gas, h]

theorem gas_le (slot : Word) : slot.gas.toNat ≤ 5 := by
  unfold gas
  split
  · rename_i op _
    cases op <;> decide
  · decide

end Word

namespace Machine

variable {σ : Type}

/-- What a run that has come to its end reports, and the storage that it leaves. -/
def Status.report : Status σ → Except Fault Outcome × σ
  | .running m => (.ok ⟨m.stack.head?, m.gasUsed⟩, m.storage)
  | .halted m => (.ok ⟨m.stack.head?, m.gasUsed⟩, m.storage)
  | .failed m fault => (.error fault, m.storage)

/-- Nothing is left to execute. -/
def Status.Final : Status σ → Prop
  | .running _ => False
  | .halted _ => True
  | .failed _ _ => True

variable [Storage σ]

/-! ## Executions -/

/-- The unlimited machine executes these slots one after another and is another machine then. -/
inductive Executes (p : Program) : Machine σ → List Word → Machine σ → Prop
  | none {m : Machine σ} : Executes p m [] m
  | next {m m₁ m' : Machine σ} {slot : Word} {slots : List Word} :
      p.slots[m.pc]? = some slot → m.step p = .running m₁ → Executes p m₁ slots m' →
      Executes p m (slot :: slots) m'

/-- The unlimited machine comes to an end when it has executed these slots.  A slot that halts the
machine or fails counts as executed. -/
inductive Ends (p : Program) : Machine σ → List Word → Status σ → Prop
  | past {m : Machine σ} : p.slots[m.pc]? = none → Ends p m [] (.halted m)
  | last {m : Machine σ} {slot : Word} {s : Status σ} :
      p.slots[m.pc]? = some slot → m.step p = s → s.Final → Ends p m [slot] s
  | next {m m₁ : Machine σ} {slot : Word} {slots : List Word} {s : Status σ} :
      p.slots[m.pc]? = some slot → m.step p = .running m₁ → Ends p m₁ slots s →
      Ends p m (slot :: slots) s

variable {p : Program} {m m' : Machine σ} {slots : List Word} {s : Status σ}

theorem Ends.final (h : m.Ends p slots s) : s.Final := by
  induction h with
  | past _ => trivial
  | last _ _ hfinal => exact hfinal
  | next _ _ _ ih => exact ih

theorem step_of_past (h : p.slots[m.pc]? = none) : m.step p = .halted m := by
  rw [step, h]

theorem lt_size_iff {pc : Nat} : pc < p.slots.size ↔ p.slots[pc]? ≠ none := by
  rw [ne_eq, Array.getElem?_eq_none_iff, Nat.not_le]

/-- A machine comes to its end within any number of slots, or executes that many and has one more
to execute. -/
theorem exists_ends_or_executes (p : Program) (limit : Nat) (m : Machine σ) :
    (∃ slots s, m.Ends p slots s ∧ slots.length ≤ limit) ∨
      ∃ slots m', m.Executes p slots m' ∧ slots.length = limit ∧ m'.pc < p.slots.size := by
  induction limit generalizing m with
  | zero =>
      by_cases hpc : m.pc < p.slots.size
      · exact .inr ⟨[], m, .none, rfl, hpc⟩
      · have hpast : p.slots[m.pc]? = none := Array.getElem?_eq_none (Nat.not_lt.mp hpc)
        exact .inl ⟨[], .halted m, .past hpast, Nat.le_refl 0⟩
  | succ limit ih =>
      cases hslot : p.slots[m.pc]? with
      | none => exact .inl ⟨[], .halted m, .past hslot, Nat.zero_le _⟩
      | some slot =>
          cases hstep : m.step p with
          | halted m₁ => exact .inl ⟨[slot], .halted m₁, .last hslot hstep trivial, by simp⟩
          | failed m₁ f => exact .inl ⟨[slot], .failed m₁ f, .last hslot hstep trivial, by simp⟩
          | running m₁ =>
              rcases ih m₁ with ⟨slots, s, hends, hle⟩ | ⟨slots, m', hexec, hlen, hpc⟩
              · exact .inl ⟨slot :: slots, s, .next hslot hstep hends, Nat.succ_le_succ hle⟩
              · exact .inr ⟨slot :: slots, m', .next hslot hstep hexec, congrArg _ hlen, hpc⟩

/-! ## Runs -/

/-- A run goes on from any machine that it executes its way to. -/
theorem Executes.runFor_eq (h : m.Executes p slots m') (bound limit : Nat) :
    runFor p bound (slots.length + limit) m = runFor p bound limit m' := by
  induction h with
  | none => rw [List.length_nil, Nat.zero_add]
  | next hslot hstep _ ih =>
      rw [List.length_cons, Nat.add_right_comm, runFor, hstep]
      exact ih

/-- A run with enough of a limit ends as the unlimited machine does. -/
theorem Ends.runFor_eq (h : m.Ends p slots s) {limit : Nat} (hle : slots.length ≤ limit)
    (bound : Nat) : runFor p bound limit m = s := by
  induction h generalizing limit with
  | @past m hpast =>
      cases limit with
      | zero => rw [runFor, if_neg (fun hpc => lt_size_iff.mp hpc hpast)]
      | succ limit => rw [runFor, step_of_past hpast]
  | last hslot hstep hfinal =>
      obtain ⟨limit, rfl⟩ := Nat.exists_eq_add_of_le' hle
      rw [List.length_singleton, runFor, hstep]
      split
      · exact hfinal.elim
      · rfl
  | next hslot hstep _ ih =>
      obtain ⟨limit, rfl⟩ := Nat.exists_eq_add_of_le' hle
      rw [List.length_cons, ← Nat.add_assoc, runFor, hstep]
      exact ih (Nat.le_add_left _ _)

theorem runCode_eq_report (code : List Word) (storage : σ) :
    runCode code storage =
      (runFor (.ofCode code) executionLimit executionLimit (start storage)).report := by
  unfold runCode
  split <;> rename_i hstatus <;> rw [hstatus] <;> rfl

/-- The unlimited machine knows of no limit. -/
theorem Ends.ne_infiniteLoop (h : m.Ends p slots s) (limit : Nat) :
    s.report.1 ≠ .error (.infiniteLoop limit) := by
  induction h with
  | past _ => exact nofun
  | next _ _ _ ih => exact ih
  | @last m slot s _ hstep _ =>
      have hstepped := stepped p m
      rw [hstep] at hstepped
      cases hstepped with
      | past _ => exact nofun
      | invalid _ _ => exact nofun
      | stop _ _ => exact nofun
      | next _ _ _ _ => exact nofun
      | @fault _ op f _ _ _ hfault =>
          have heffect := effect_execute p op (m.charge op)
          rw [hfault] at heffect
          cases heffect with
          | fault hne =>
              intro heq
              cases heq
              exact hne limit rfl

/-! ## Gas -/

theorem gasUsed_execute {op : Opcode} (h : m.execute p op = .ok m') : m'.gasUsed = m.gasUsed := by
  have heffect := effect_execute p op m
  rw [h] at heffect
  cases heffect with
  | stay => rfl
  | push _ => rfl
  | next _ _ => rfl
  | jump _ _ => rfl
  | store _ _ _ => rfl

/-- A slot is charged for whatever becomes of it. -/
theorem gasUsed_step {slot : Word} (hslot : p.slots[m.pc]? = some slot) :
    (m.step p).machine.gasUsed = m.gasUsed + slot.gas := by
  have hstepped := stepped p m
  generalize m.step p = s at hstepped
  cases hstepped with
  | past hpast => exact nomatch hpast.symm.trans hslot
  | invalid h hinvalid =>
      cases h.symm.trans hslot
      show m.gasUsed = m.gasUsed + slot.gas
      rw [Word.gas, hinvalid, UInt64.add_zero]
  | stop h hop =>
      cases h.symm.trans hslot
      rw [Word.gas_of_opcode? hop]
      rfl
  | next h hop _ hexecute =>
      cases h.symm.trans hslot
      rw [Word.gas_of_opcode? hop]
      exact gasUsed_execute hexecute
  | fault h hop _ _ =>
      cases h.symm.trans hslot
      rw [Word.gas_of_opcode? hop]
      rfl

theorem toNat_gasUsed_step {slot : Word} (hslot : p.slots[m.pc]? = some slot)
    (hroom : m.gasUsed.toNat + 5 < 2 ^ 64) :
    (m.step p).machine.gasUsed.toNat = m.gasUsed.toNat + slot.gas.toNat := by
  have hgas : slot.gas.toNat ≤ 5 := slot.gas_le
  rw [gasUsed_step hslot, UInt64.toNat_add, Nat.mod_eq_of_lt (by omega)]

/-- The gas of slots, counted without a bound. -/
def gasOf (slots : List Word) : Nat := (slots.map fun slot => slot.gas.toNat).sum

theorem gasOf_le (slots : List Word) : gasOf slots ≤ 5 * slots.length := by
  induction slots with
  | nil => exact Nat.le_refl 0
  | cons slot slots ih =>
      have hgas : slot.gas.toNat ≤ 5 := slot.gas_le
      rw [gasOf, List.map_cons, List.sum_cons, List.length_cons]
      rw [gasOf] at ih
      omega

/-- As long as there is room for the dearest slots, the counter shows the gas of the slots. -/
theorem Ends.toNat_gasUsed (h : m.Ends p slots s)
    (hroom : m.gasUsed.toNat + 5 * slots.length < 2 ^ 64) :
    s.machine.gasUsed.toNat = m.gasUsed.toNat + gasOf slots := by
  induction h with
  | past _ => rfl
  | last hslot hstep _ =>
      rw [← hstep, toNat_gasUsed_step hslot hroom]
      rfl
  | @next m m₁ slot slots s hslot hstep _ ih =>
      rw [List.length_cons] at hroom
      have hfirst : m₁.gasUsed.toNat = m.gasUsed.toNat + slot.gas.toNat := by
        have hcharged := toNat_gasUsed_step (p := p) hslot (by omega)
        rwa [hstep] at hcharged
      have hgas : slot.gas.toNat ≤ 5 := slot.gas_le
      rw [ih (by omega), hfirst, Nat.add_assoc]
      rfl

/-- A run that halts has executed instructions only. -/
theorem Ends.exists_opcodes (h : m.Ends p slots s) {m' : Machine σ} (hs : s = .halted m') :
    ∃ ops : List Opcode, slots = ops.map .ofOpcode := by
  induction h with
  | past _ => exact ⟨[], rfl⟩
  | @last m slot s hslot hstep _ =>
      have hstepped := stepped p m
      rw [hstep, hs] at hstepped
      cases hstepped with
      | past hpast => exact nomatch hpast.symm.trans hslot
      | stop h hop =>
          cases h.symm.trans hslot
          exact ⟨[.stop], congrArg (· :: []) (Word.opcode?_eq_some.mp hop)⟩
  | @next m m₁ slot slots s hslot hstep _ ih =>
      obtain ⟨ops, rfl⟩ := ih hs
      have hstepped := stepped p m
      rw [hstep] at hstepped
      cases hstepped with
      | @next _ op _ h hop _ _ =>
          cases h.symm.trans hslot
          exact ⟨op :: ops, congrArg (· :: _) (Word.opcode?_eq_some.mp hop)⟩

theorem gasOf_map_ofOpcode (ops : List Opcode) :
    gasOf (ops.map .ofOpcode) = (ops.map fun op => op.gas.toNat).sum := by
  rw [gasOf, List.map_map]
  congr 2
  funext op
  exact congrArg UInt64.toNat (Word.gas_of_opcode? (Word.opcode?_eq_some.mpr rfl))

end Machine

/-- The limit cuts off long runs and does nothing else.  Code is taken for looping if and only if
the unlimited machine has not come to an end after as many slots as the limit allows; code that
ends within the limit leaves what the unlimited machine does.  The gas of code that halts is that
of the instructions it executed, at most five for each, so the counter does not run over. -/
theorem runCode_limit {σ : Type} [Storage σ] (code : List Word) (storage : σ) :
    ((runCode code storage).1 = .error (.infiniteLoop executionLimit) ↔
      ∀ slots s, (Machine.start storage).Ends (.ofCode code) slots s →
        executionLimit < slots.length) ∧
    (∀ slots s, (Machine.start storage).Ends (.ofCode code) slots s →
      slots.length ≤ executionLimit → runCode code storage = s.report) ∧
    (∀ outcome, (runCode code storage).1 = .ok outcome →
      ∃ (ops : List Opcode) (m : Machine σ),
        (Machine.start storage).Ends (.ofCode code) (ops.map .ofOpcode) (.halted m) ∧
        ops.length ≤ executionLimit ∧
        outcome.gasUsed.toNat = (ops.map fun op => op.gas.toNat).sum ∧
        (ops.map fun op => op.gas.toNat).sum ≤ 5 * ops.length) := by
  have hwithin : ∀ slots s, (Machine.start storage).Ends (.ofCode code) slots s →
      slots.length ≤ executionLimit → runCode code storage = s.report := by
    intro slots s hends hle
    rw [Machine.runCode_eq_report, hends.runFor_eq hle]
  have hbeyond : ∀ slots m, (Machine.start storage).Executes (.ofCode code) slots m →
      slots.length = executionLimit → m.pc < (Program.ofCode code).slots.size →
      runCode code storage = (.error (.infiniteLoop executionLimit), m.storage) := by
    intro slots m hexecutes hlen hpc
    have hrun := hexecutes.runFor_eq executionLimit 0
    rw [Nat.add_zero, hlen, Machine.runFor, if_pos hpc] at hrun
    rw [Machine.runCode_eq_report, hrun]
    rfl
  have hcases := Machine.exists_ends_or_executes (.ofCode code) executionLimit (.start storage)
  refine ⟨⟨?looping, ?cutOff⟩, hwithin, ?gas⟩
  case looping =>
    intro hloop slots s hends
    refine Nat.lt_of_not_le ?_
    intro hle
    rw [hwithin slots s hends hle] at hloop
    exact hends.ne_infiniteLoop _ hloop
  case cutOff =>
    intro hlong
    rcases hcases with ⟨slots, s, hends, hle⟩ | ⟨slots, m, hexecutes, hlen, hpc⟩
    · exact absurd hle (Nat.not_le.mpr (hlong slots s hends))
    · rw [hbeyond slots m hexecutes hlen hpc]
  case gas =>
    intro outcome hok
    rcases hcases with ⟨slots, s, hends, hle⟩ | ⟨slots, m, hexecutes, hlen, hpc⟩
    · rw [hwithin slots s hends hle] at hok
      cases s with
      | running m => exact hends.final.elim
      | failed m f => exact nomatch hok
      | halted m =>
          cases hok
          obtain ⟨ops, rfl⟩ := hends.exists_opcodes rfl
          have hbound : 5 * (ops.map Word.ofOpcode).length ≤ 5 * executionLimit :=
            Nat.mul_le_mul_left 5 hle
          have hroom : (Machine.start storage).gasUsed.toNat +
              5 * (ops.map Word.ofOpcode).length < 2 ^ 64 := by
            rw [show (Machine.start storage).gasUsed.toNat = 0 from rfl, Nat.zero_add]
            exact Nat.lt_of_le_of_lt hbound (by decide)
          have hgas : m.gasUsed.toNat = Machine.gasOf (ops.map .ofOpcode) := by
            have hcounted := hends.toNat_gasUsed hroom
            rwa [show (Machine.start storage).gasUsed.toNat = 0 from rfl, Nat.zero_add] at hcounted
          have hprice := Machine.gasOf_le (ops.map .ofOpcode)
          rw [Machine.gasOf_map_ofOpcode] at hgas hprice
          rw [List.length_map] at hle hprice
          exact ⟨ops, m, hends, hle, hgas, hprice⟩
    · rw [hbeyond slots m hexecutes hlen hpc] at hok
      exact nomatch hok

/-- Adds one and zero and runs past its last slot. -/
def adding : List Word :=
  [.ofOpcode .push, .number .zero, .ofOpcode .push, .number .one, .ofOpcode .add]

/-- Jumps back to its first slot for ever. -/
def spinning : List Word := [.ofOpcode .push, .number .zero, .ofOpcode .jump]

/-- Neither the first slot nor the jump behind it leads to an end. -/
theorem not_ends_spinning (slots : List Word) : ∀ (gasUsed : UInt64) (s : Machine.Status NoStorage),
    ¬ Machine.Ends (.ofCode spinning) ⟨0, [], gasUsed, .mk⟩ slots s ∧
    ¬ Machine.Ends (.ofCode spinning) ⟨2, [.number .zero], gasUsed, .mk⟩ slots s := by
  induction slots with
  | nil =>
      intro gasUsed s
      refine ⟨?_, ?_⟩
      · rintro ⟨⟨⟩⟩
      · rintro ⟨⟨⟩⟩
  | cons slot slots ih =>
      intro gasUsed s
      refine ⟨?_, ?_⟩
      · intro h
        cases h with
        | last _ hstep hfinal =>
            cases hstep
            exact hfinal
        | next _ hstep hends =>
            cases hstep
            exact (ih _ s).2 hends
      · intro h
        cases h with
        | last _ hstep hfinal =>
            cases hstep
            exact hfinal
        | next _ hstep hends =>
            cases hstep
            exact (ih _ s).1 hends

theorem runCode_limit_adding_spinning :
    Machine.Ends (.ofCode adding) (.start NoStorage.mk) ([.push, .push, .add].map .ofOpcode)
      (.halted ⟨5, [.number .one], 1, .mk⟩) ∧
    3 ≤ executionLimit ∧
    runCode adding NoStorage.mk = (.ok ⟨some (.number .one), 1⟩, .mk) ∧
    (∃ (ops : List Opcode) (m : Machine NoStorage),
      Machine.Ends (.ofCode adding) (.start .mk) (ops.map .ofOpcode) (.halted m) ∧
      1 = (ops.map fun op => op.gas.toNat).sum) ∧
    (runCode spinning NoStorage.mk).1 = .error (.infiniteLoop executionLimit) := by
  obtain ⟨-, hwithin, hgas⟩ := runCode_limit adding NoStorage.mk
  have hends : Machine.Ends (.ofCode adding) (.start NoStorage.mk)
      ([.push, .push, .add].map .ofOpcode) (.halted ⟨5, [.number .one], 1, .mk⟩) :=
    .next rfl rfl (.next rfl rfl (.next rfl rfl (.past rfl)))
  have hle : 3 ≤ executionLimit := by decide
  have hrun := hwithin _ _ hends hle
  obtain ⟨ops, m, hops, -, hsum, -⟩ := hgas ⟨some (.number .one), 1⟩ (by rw [hrun]; rfl)
  obtain ⟨hloop, -, -⟩ := runCode_limit spinning NoStorage.mk
  refine ⟨hends, hle, hrun, ⟨ops, m, hops, hsum⟩, hloop.mpr ?_⟩
  intro slots s hspins
  exact ((not_ends_spinning slots 0 s).1 hspins).elim

end WorkLedger
