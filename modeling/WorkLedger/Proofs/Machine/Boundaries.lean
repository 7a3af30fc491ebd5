/-
# Operands are not executed

Two walks go over code.  The linear decoding starts at the first slot and passes over the operand
of every `PUSH`; the machine goes where its instructions take it.  A jump may go to the slots of
the first walk only, and every other instruction takes the machine to the slot that the first walk
comes to next, so the machine never leaves those slots.
-/
import WorkLedger.Proofs.Machine.Execution

namespace WorkLedger

/-! ## The linear decoding -/

/-- How many slots an instruction fills: `PUSH` has an operand behind it. -/
def Word.width (slot : Word) : Nat := if slot.opcode? = some .push then 2 else 1

/-- The slots that a decoding from the first slot on comes to, the end of the code among them. -/
inductive Decoded (code : List Word) : Nat → Prop
  | first : Decoded code 0
  | next {i : Nat} {slot : Word} : Decoded code i → code[i]? = some slot →
      Decoded code (i + slot.width)

/-- Behind the first instruction the decoding is that of the code behind it. -/
theorem decoded_cons_iff {slot : Word} {rest : List Word} {j : Nat} :
    Decoded (slot :: rest) j ↔
      j = 0 ∨ ∃ i, j = i + slot.width ∧ Decoded ((slot :: rest).drop slot.width) i := by
  constructor
  · intro h
    induction h with
    | first => exact .inl rfl
    | @next i slot' _ hslot ih =>
        rcases ih with rfl | ⟨k, rfl, hk⟩
        · cases hslot
          exact .inr ⟨0, rfl, .first⟩
        · have hbehind : ((slot :: rest).drop slot.width)[k]? = some slot' := by
            rw [List.getElem?_drop, Nat.add_comm, hslot]
          exact .inr ⟨k + slot'.width, Nat.add_right_comm _ _ _, .next hk hbehind⟩
  · rintro (rfl | ⟨i, rfl, h⟩)
    · exact .first
    · induction h with
      | first => exact .next .first rfl
      | @next i slot' _ hslot ih =>
          have hthere : (slot :: rest)[i + slot.width]? = some slot' := by
            rw [Nat.add_comm, ← List.getElem?_drop, hslot]
          rw [Nat.add_right_comm]
          exact .next ih hthere

/-- The slots marked as those of instructions are the ones that the decoding comes to. -/
theorem getElem?_instructionSlots {code : List Word} {i : Nat} :
    (instructionSlots code)[i]? = some true ↔ Decoded code i ∧ i < code.length := by
  induction code using instructionSlots.induct generalizing i with
  | case1 => simp [instructionSlots]
  | case2 slot =>
      cases i with
      | zero => simp [instructionSlots, Decoded.first]
      | succ i => simp [instructionSlots]
  | case3 slot operand rest hpush ih =>
      have hwidth : slot.width = 2 := if_pos hpush
      rw [instructionSlots, if_pos hpush, decoded_cons_iff, hwidth]
      match i with
      | 0 => simp
      | 1 => simp
      | i + 2 => simp [ih]
  | case4 slot operand rest hpush ih =>
      have hwidth : slot.width = 1 := if_neg hpush
      rw [instructionSlots, if_neg hpush, decoded_cons_iff, hwidth]
      cases i with
      | zero => simp
      | succ i => simp [ih]

/-! ## Jumps -/

theorem Rational.int?_eq_some {r : Rational} {n : Int} :
    r.int? = some n ↔ r.den = 1 ∧ r.num = n := by
  unfold int?
  constructor
  · intro h
    split at h
    · rename_i hden
      exact ⟨hden, Option.some.inj h⟩
    · exact nomatch h
  · rintro ⟨hden, rfl⟩
    exact if_pos hden

/-- The word is the whole number that counts to a slot. -/
def Word.Names (w : Word) (i : Nat) : Prop := ∃ r : Rational, w = .number r ∧ r.den = 1 ∧ r.num = i

theorem getElem?_instructions {code : List Word} (i : Nat) :
    (Program.ofCode code).instructions[i]? = (instructionSlots code)[i]? :=
  List.getElem?_toArray

theorem target?_eq_some {code : List Word} {w : Word} {i : Nat} :
    (Program.ofCode code).target? w = some i ↔
      w.Names i ∧ (instructionSlots code)[i]? = some true := by
  constructor
  · intro h
    unfold Program.target? at h
    split at h
    · rename_i r
      split at h
      · rename_i hint
        obtain ⟨hden, hnum⟩ := Rational.int?_eq_some.mp hint
        split at h
        · rename_i hmark
          cases h
          exact ⟨⟨r, rfl, hden, hnum⟩, (getElem?_instructions _).symm.trans hmark⟩
        · exact nomatch h
      · exact nomatch h
    · exact nomatch h
  · rintro ⟨⟨r, rfl, hden, hnum⟩, hmark⟩
    have hint : r.int? = some (.ofNat i) := Rational.int?_eq_some.mpr ⟨hden, hnum⟩
    simp only [Program.target?, hint]
    exact if_pos ((getElem?_instructions i).trans hmark)

namespace Machine

variable {σ : Type} {code : List Word} {p : Program} {m m' : Machine σ} {op : Opcode}
  {destination : Word} {slots rest : List Word}

/-- A jump is taken next: the slot is `JUMP`, or it is `JUMPI` and the number above the destination
is not zero. -/
inductive Jumps (p : Program) (m : Machine σ) : Opcode → Word → List Word → Prop
  | jump {destination : Word} {rest : List Word} : p.slots[m.pc]? = some (.ofOpcode .jump) →
      m.stack = destination :: rest → Jumps p m .jump destination rest
  | jumpi {condition : Rational} {destination : Word} {rest : List Word} :
      p.slots[m.pc]? = some (.ofOpcode .jumpi) →
      m.stack = .number condition :: destination :: rest → condition.isZero = false →
      Jumps p m .jumpi destination rest

theorem Jumps.slot_eq (h : m.Jumps p op destination rest) :
    p.slots[m.pc]? = some (.ofOpcode op) ∧ op ≠ .stop := by
  cases h with
  | jump hslot _ => exact ⟨hslot, nofun⟩
  | jumpi hslot _ _ => exact ⟨hslot, nofun⟩

variable [Storage σ]

theorem step_of_slot (hslot : p.slots[m.pc]? = some (.ofOpcode op)) (hstop : op ≠ .stop) :
    m.step p = match (m.charge op).execute p op with
      | .ok next => .running next
      | .error fault => .failed (m.charge op) fault := by
  rw [step, hslot]
  simp only [Word.opcode?_eq_some.mpr rfl, if_neg hstop]
  rfl

/-- What is above the destination is used up. -/
theorem Jumps.execute_eq (h : m.Jumps p op destination rest) :
    (m.charge op).execute p op =
      ({ m.charge op with stack := rest } : Machine σ).jump p destination := by
  obtain ⟨pc, stack, gasUsed, storage⟩ := m
  cases h with
  | jump _ hstack =>
      cases hstack
      rfl
  | jumpi _ hstack hcondition =>
      cases hstack
      exact if_neg (by rw [hcondition]; exact Bool.false_ne_true)

theorem Jumps.step_eq (h : m.Jumps p op destination rest) :
    m.step p = match p.target? destination with
      | some target => .running { m.charge op with stack := rest, pc := target }
      | none => .failed (m.charge op) (.invalidDestination destination.display) := by
  obtain ⟨hslot, hstop⟩ := h.slot_eq
  rw [step_of_slot hslot hstop, h.execute_eq, Machine.jump]
  cases p.target? destination with
  | some target => rfl
  | none => rfl

/-! ## The machine -/

theorem slots_ofCode (i : Nat) : (Program.ofCode code).slots[i]? = code[i]? :=
  List.getElem?_toArray

/-- Every instruction goes on where the decoding comes to. -/
theorem decoded_step (h : m.step (.ofCode code) = .running m') (hpc : Decoded code m.pc) :
    m'.pc ≤ code.length ∧ Decoded code m'.pc := by
  have hstepped := stepped (.ofCode code) m
  rw [h] at hstepped
  cases hstepped with
  | @next slot op _ hslot hop hstop hexecute =>
      rw [slots_ofCode] at hslot
      have hwidth : op ≠ .push → slot.width = 1 := by
        intro hne
        exact if_neg (by rw [hop]; exact fun heq => hne (Option.some.inj heq))
      have hnext : op ≠ .push → m.pc + 1 ≤ code.length ∧ Decoded code (m.pc + 1) := by
        intro hne
        obtain ⟨hlt, -⟩ := List.getElem?_eq_some_iff.mp hslot
        exact ⟨hlt, hwidth hne ▸ .next hpc hslot⟩
      have heffect := effect_execute (.ofCode code) op (m.charge op)
      rw [hexecute] at heffect
      cases heffect with
      | stay => exact absurd rfl hstop
      | next _ hne => exact hnext hne
      | store _ _ _ => exact hnext nofun
      | push hoperand =>
          rw [slots_ofCode] at hoperand
          obtain ⟨hlt, -⟩ := List.getElem?_eq_some_iff.mp hoperand
          have hwidth : slot.width = 2 := if_pos hop
          exact ⟨hlt, hwidth ▸ .next hpc hslot⟩
      | jump _ htarget =>
          obtain ⟨-, hmarked⟩ := target?_eq_some.mp htarget
          obtain ⟨hdecoded, hlt⟩ := getElem?_instructionSlots.mp hmarked
          exact ⟨Nat.le_of_lt hlt, hdecoded⟩

theorem Executes.decoded (h : m.Executes (.ofCode code) slots m') (hle : m.pc ≤ code.length)
    (hpc : Decoded code m.pc) : m'.pc ≤ code.length ∧ Decoded code m'.pc := by
  induction h with
  | none => exact ⟨hle, hpc⟩
  | next _ hstep _ ih =>
      obtain ⟨hle, hpc⟩ := decoded_step hstep hpc
      exact ih hle hpc

/-- Whatever the code and the storage, a machine that is executed stands at the end of the code or
on the slot of an instruction, that is on one that the linear decoding comes to.  `JUMP`, and
`JUMPI` on a number other than zero, go to the slot of an instruction if the destination is the
whole number of one, and fail on every other word. -/
theorem executes_instructions (code : List Word) (storage : σ) :
    (∀ slots m, (start storage).Executes (.ofCode code) slots m →
      m.pc ≤ code.length ∧ (m.pc < code.length → (instructionSlots code)[m.pc]? = some true)) ∧
    (∀ i, (instructionSlots code)[i]? = some true ↔ Decoded code i ∧ i < code.length) ∧
    (∀ (m : Machine σ) op destination rest, m.Jumps (.ofCode code) op destination rest →
      (∀ i, destination.Names i → (instructionSlots code)[i]? = some true →
        m.step (.ofCode code) = .running { m.charge op with stack := rest, pc := i }) ∧
      ((∀ i, destination.Names i → (instructionSlots code)[i]? ≠ some true) →
        m.step (.ofCode code) =
          .failed (m.charge op) (.invalidDestination destination.display))) := by
  refine ⟨?reached, ?marked, ?jumps⟩
  case reached =>
    intro slots m h
    obtain ⟨hle, hdecoded⟩ := h.decoded (Nat.zero_le _) .first
    refine ⟨hle, ?_⟩
    intro hlt
    exact getElem?_instructionSlots.mpr ⟨hdecoded, hlt⟩
  case marked =>
    intro i
    exact getElem?_instructionSlots
  case jumps =>
    intro m op destination rest hjumps
    refine ⟨?_, ?_⟩
    · intro i hnames hmarked
      rw [hjumps.step_eq, target?_eq_some.mpr ⟨hnames, hmarked⟩]
    · intro hnone
      have htarget : (Program.ofCode code).target? destination = none := by
        rw [Option.eq_none_iff_forall_ne_some]
        intro i hi
        obtain ⟨hnames, hmarked⟩ := target?_eq_some.mp hi
        exact hnone i hnames hmarked
      rw [hjumps.step_eq, htarget]

/-- An operand that spells an instruction, a jump over it, and at its end a `PUSH` without
operand. -/
def misleading : List Word :=
  [.ofOpcode .push, .ofOpcode .push, .ofOpcode .push, .number (.ofInt 5 (by decide)),
    .ofOpcode .jump, .ofOpcode .push]

theorem executes_instructions_misleading :
    (start NoStorage.mk).Executes (.ofCode misleading)
      [.ofOpcode .push, .ofOpcode .push, .ofOpcode .jump] ⟨5, [.ofOpcode .push], 2, .mk⟩ ∧
    (5 < misleading.length → (instructionSlots misleading)[5]? = some true) ∧
    ¬ Decoded misleading 1 ∧
    (⟨4, [.number .one], 0, .mk⟩ : Machine NoStorage).Jumps (.ofCode misleading) .jump
      (.number .one) [] ∧
    (∀ i, (Word.number .one).Names i → (instructionSlots misleading)[i]? ≠ some true) ∧
    (⟨4, [.number .one], 0, .mk⟩ : Machine NoStorage).step (.ofCode misleading) =
      .failed ⟨4, [.number .one], 2, .mk⟩ (.invalidDestination "1") ∧
    (Word.number (.ofInt 5 (by decide))).Names 5 ∧
    (⟨4, [.number (.ofInt 5 (by decide))], 0, .mk⟩ : Machine NoStorage).step
      (.ofCode misleading) = .running ⟨5, [], 2, .mk⟩ := by
  obtain ⟨hreached, hmarked, hjumps⟩ := executes_instructions misleading NoStorage.mk
  have hexecutes : (start NoStorage.mk).Executes (.ofCode misleading)
      [.ofOpcode .push, .ofOpcode .push, .ofOpcode .jump] ⟨5, [.ofOpcode .push], 2, .mk⟩ :=
    .next rfl rfl (.next rfl rfl (.next rfl rfl .none))
  have hoperand : ¬ Decoded misleading 1 := by
    intro hdecoded
    exact nomatch (hmarked 1).mpr ⟨hdecoded, by decide⟩
  have hback : (⟨4, [.number .one], 0, .mk⟩ : Machine NoStorage).Jumps (.ofCode misleading) .jump
      (.number .one) [] := .jump rfl rfl
  have hnone : ∀ i, (Word.number .one).Names i → (instructionSlots misleading)[i]? ≠ some true := by
    rintro i ⟨r, hr, -, hnum⟩
    cases hr
    cases Int.ofNat.inj hnum
    decide
  have hfive : (Word.number (.ofInt 5 (by decide))).Names 5 := ⟨_, rfl, rfl, rfl⟩
  exact ⟨hexecutes, (hreached _ _ hexecutes).2, hoperand, hback, hnone,
    (hjumps _ _ _ _ hback).2 hnone, hfive,
    (hjumps _ _ _ _ (.jump rfl rfl)).1 5 hfive rfl⟩

end Machine

end WorkLedger
