/-
# What an instruction does

What an instruction can do to a machine is said here once.  It fails, it goes on with the slot
behind it or with the slot that a word names, or it takes its operand; no instruction but `STORE`
touches the storage, and none the gas.  What a step does follows, and with it whatever a run
keeps: later proofs look at these cases and not at the instructions.
-/
import WorkLedger.Machine.Basic

namespace WorkLedger.Machine

variable {σ : Type}

/-- The machine of a status. -/
def Status.machine : Status σ → Machine σ
  | .running m => m
  | .halted m => m
  | .failed m _ => m

variable [Storage σ] {p : Program} {op : Opcode}

/-! ## Instructions -/

/-- The outcomes that executing an instruction can have.  The stack is left open where no statement
about runs depends on it. -/
inductive Effect (p : Program) (m : Machine σ) : Opcode → Except Fault (Machine σ) → Prop
  -- The limit on the length of a run is not something that an instruction knows of.
  | fault {op : Opcode} {f : Fault} : (∀ limit, f ≠ .infiniteLoop limit) → Effect p m op (.error f)
  | stay : Effect p m .stop (.ok m)
  | push {w : Word} : p.slots[m.pc + 1]? = some w →
      Effect p m .push (.ok { m with stack := w :: m.stack, pc := m.pc + 2 })
  | next {op : Opcode} (stack : List Word) : op ≠ .push →
      Effect p m op (.ok { m with stack, pc := m.pc + 1 })
  | jump {op : Opcode} {destination : Word} {target : Nat} (stack : List Word) :
      p.target? destination = some target → Effect p m op (.ok { m with stack, pc := target })
  | store (key value : Word) (stack : List Word) :
      Effect p m .store
        (.ok { m with stack, storage := Storage.store m.storage key value, pc := m.pc + 1 })

theorem effect_binary (op : Opcode) (hop : op ≠ .push)
    (f : Rational → Rational → Except Rational.Fault Word) :
    ∀ m : Machine σ, Effect p m op (m.binary op f)
  | ⟨_, [], _, _⟩ => .fault nofun
  | ⟨_, .text _ :: _, _, _⟩ => .fault nofun
  | ⟨_, [.number _], _, _⟩ => .fault nofun
  | ⟨_, .number _ :: .text _ :: _, _, _⟩ => .fault nofun
  | ⟨pc, .number a :: .number b :: rest, gasUsed, storage⟩ => by
      unfold binary
      dsimp only [popNumber, pop, bind, Except.bind]
      cases f a b with
      | error fault => exact .fault nofun
      | ok w => exact .next (w :: rest) hop

theorem effect_arithmetic (op : Opcode) (hop : op ≠ .push)
    (f : Rational → Rational → Except Rational.Fault Rational) (m : Machine σ) :
    Effect p m op (m.arithmetic op f) :=
  effect_binary op hop _ m

theorem effect_comparison (op : Opcode) (hop : op ≠ .push) (f : Rational → Rational → Bool)
    (m : Machine σ) : Effect p m op (m.comparison op f) :=
  effect_binary op hop _ m

/-- Going to a destination, with the words above it taken off the stack. -/
theorem effect_jump (m : Machine σ) (stack : List Word) (destination : Word) :
    Effect p m op ({ m with stack }.jump p destination) := by
  unfold jump
  split
  · rename_i target htarget
    exact .jump stack htarget
  · exact .fault nofun

theorem effect_execute (p : Program) (op : Opcode) (m : Machine σ) :
    Effect p m op (m.execute p op) := by
  cases op with
  | stop => exact .stay
  | push =>
      simp only [execute]
      split
      · rename_i hoperand
        exact .push hoperand
      · exact .fault nofun
  | add => exact effect_arithmetic .add nofun _ m
  | sub => exact effect_arithmetic .sub nofun _ m
  | mul => exact effect_arithmetic .mul nofun _ m
  | div => exact effect_arithmetic .div nofun _ m
  | lt => exact effect_comparison .lt nofun _ m
  | gt => exact effect_comparison .gt nofun _ m
  | and => exact effect_comparison .and nofun _ m
  | or => exact effect_comparison .or nofun _ m
  | eq =>
      match m with
      | ⟨_, [], _, _⟩ => exact .fault nofun
      | ⟨_, [_], _, _⟩ => exact .fault nofun
      | ⟨_, a :: b :: rest, _, _⟩ => exact .next (.ofBool (a = b) :: rest) nofun
  | jump =>
      match m with
      | ⟨_, [], _, _⟩ => exact .fault nofun
      | ⟨pc, destination :: rest, gasUsed, storage⟩ => exact effect_jump _ rest destination
  | jumpi =>
      match m with
      | ⟨_, [], _, _⟩ => exact .fault nofun
      | ⟨_, .text _ :: _, _, _⟩ => exact .fault nofun
      | ⟨_, [.number _], _, _⟩ => exact .fault nofun
      | ⟨pc, .number condition :: destination :: rest, gasUsed, storage⟩ =>
          show Effect p _ _ (if condition.isZero then .ok ⟨pc + 1, rest, gasUsed, storage⟩
            else (⟨pc, rest, gasUsed, storage⟩ : Machine σ).jump p destination)
          split
          · exact .next rest nofun
          · exact effect_jump _ rest destination
  | store =>
      match m with
      | ⟨_, [], _, _⟩ => exact .fault nofun
      | ⟨_, [_], _, _⟩ => exact .fault nofun
      | ⟨_, key :: value :: rest, _, _⟩ => exact .store key value rest
  | load =>
      match m with
      | ⟨_, [], _, _⟩ => exact .fault nofun
      | ⟨_, key :: rest, _, storage⟩ =>
          exact .next ((Storage.load storage key).getD (.number .zero) :: rest) nofun

/-! ## Steps -/

/-- The machine charged for an instruction. -/
def charge (m : Machine σ) (op : Opcode) : Machine σ := { m with gasUsed := m.gasUsed + op.gas }

/-- What can become of a machine in one step. -/
inductive Stepped (p : Program) (m : Machine σ) : Status σ → Prop
  | past : p.slots[m.pc]? = none → Stepped p m (.halted m)
  | invalid {slot : Word} : p.slots[m.pc]? = some slot → slot.opcode? = none →
      Stepped p m (.failed m (.invalidOpcode slot.display m.pc))
  | stop {slot : Word} : p.slots[m.pc]? = some slot → slot.opcode? = some .stop →
      Stepped p m (.halted (m.charge .stop))
  | next {slot : Word} {op : Opcode} {m' : Machine σ} : p.slots[m.pc]? = some slot →
      slot.opcode? = some op → op ≠ .stop → (m.charge op).execute p op = .ok m' →
      Stepped p m (.running m')
  | fault {slot : Word} {op : Opcode} {f : Fault} : p.slots[m.pc]? = some slot →
      slot.opcode? = some op → op ≠ .stop → (m.charge op).execute p op = .error f →
      Stepped p m (.failed (m.charge op) f)

theorem stepped (p : Program) (m : Machine σ) : Stepped p m (m.step p) := by
  unfold step
  split
  · rename_i hpast
    exact .past hpast
  · rename_i slot hslot
    split
    · rename_i hinvalid
      exact .invalid hslot hinvalid
    · rename_i op hop
      by_cases hstop : op = .stop
      · subst hstop
        exact .stop hslot hop
      · simp only [if_neg hstop]
        split
        · rename_i next hnext
          exact .next hslot hop hstop hnext
        · rename_i f hfault
          exact .fault hslot hop hstop hfault

end WorkLedger.Machine
