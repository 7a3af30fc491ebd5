/-
# The stack machine

The machine steps through code from slot 0 until `STOP`, the end of the code or a fault.
Each executed instruction is charged before it runs; the machine never stops for gas, whoever
runs it compares the gas used with a limit.  After `executionLimit` instructions, code that
has not come to its end is taken for looping.

The machine does not know what its storage is: `Storage` reads and writes a word under a word.
A trie holds what is written under the storage key of the word that names the slot.  A fault
leaves the writes made before it in place.
-/
import WorkLedger.Machine.Word
import WorkLedger.Trie.Basic

namespace WorkLedger

/-- What code can read and write. -/
class Storage (σ : Type) where
  /-- The word in the slot that a word names. -/
  load : σ → Word → Option Word
  /-- Writes a word into the slot that a word names. -/
  store : σ → Word → Word → σ

/-- A storage that holds nothing and drops what is written. -/
inductive NoStorage where
  | mk

instance : Storage NoStorage := ⟨fun _ _ => none, fun s _ _ => s⟩

instance : Storage (Trie.Node Word) :=
  ⟨fun n key => n.get? key.storageKey, fun n key value => n.put key.storageKey value⟩

/-- Why code fails.  A fault depends on the code and the storage only. -/
inductive Fault where
  /-- `PUSH` stands in the last slot. -/
  | truncatedProgram (pc : Nat)
  /-- A jump to something else than the slot of an instruction. -/
  | invalidDestination (destination : String)
  /-- More instructions than the limit. -/
  | infiniteLoop (limit : Nat)
  /-- A pop from the empty stack. -/
  | stackUnderflow (instruction : Opcode) (pc : Nat)
  /-- A text where a number is needed. -/
  | typeMismatch (instruction : Opcode) (actual : String)
  /-- A slot in the place of an instruction spells none. -/
  | invalidOpcode (word : String) (pc : Nat)
  | arithmetic (fault : Rational.Fault)
deriving DecidableEq, Repr

/-- The wording of a fault. -/
def Fault.message : Fault → String
  | .truncatedProgram pc => s!"the 'PUSH' instruction cannot be last (pc {pc})"
  | .invalidDestination destination => s!"invalid destination: {destination}"
  | .infiniteLoop limit => s!"check for an infinite loop: execution limit of {limit} exceeded"
  | .stackUnderflow instruction pc =>
      s!"stack underflow in {instruction.mnemonic} at pc {pc}"
  | .typeMismatch instruction actual =>
      s!"instruction {instruction.mnemonic} expected number but got {actual}"
  | .invalidOpcode word pc => s!"invalid instruction '{word}' at pc {pc}"
  | .arithmetic fault => fault.message

/-- The name of a fault. -/
def Fault.tag : Fault → String
  | .truncatedProgram _ => "TruncatedProgram"
  | .invalidDestination _ => "InvalidJumpDestination"
  | .infiniteLoop _ => "InfiniteLoopDetected"
  | .stackUnderflow _ _ => "StackUnderflow"
  | .typeMismatch _ _ => "TypeMismatch"
  | .invalidOpcode _ _ => "InvalidOpcode"
  | .arithmetic fault => fault.tag

instance : Explained Fault := ⟨Fault.tag, Fault.message, fun _ => []⟩

/-! ## Code -/

/-- Whether each slot is that of an instruction; the slot after a `PUSH` is not. -/
def instructionSlots : List Word → List Bool
  | [] => []
  | [_] => [true]
  | w :: operand :: rest =>
      if w.opcode? = some .push then true :: false :: instructionSlots rest
      else true :: instructionSlots (operand :: rest)

/-- Code made ready to run. -/
structure Program where
  slots : Array Word
  /-- Whether each slot is that of an instruction. -/
  instructions : Array Bool

/-- The program of a list of slots. -/
def Program.ofCode (code : List Word) : Program :=
  ⟨code.toArray, (instructionSlots code).toArray⟩

/-- The slot that a jump to `w` goes to: a whole number that names the slot of an
instruction. -/
def Program.target? (p : Program) : Word → Option Nat
  | .number r =>
      match r.int? with
      | some (.ofNat i) => if p.instructions[i]? = some true then some i else none
      | _ => none
  | .text _ => none

/-! ## Execution -/

/-- A machine between two instructions. -/
structure Machine (σ : Type) where
  /-- The slot to execute next. -/
  pc : Nat
  stack : List Word
  gasUsed : UInt64
  storage : σ

namespace Machine

variable {σ : Type}

/-- The machine before the first instruction. -/
def start (storage : σ) : Machine σ := ⟨0, [], 0, storage⟩

/-- Takes the top of the stack. -/
def pop (op : Opcode) (m : Machine σ) : Except Fault (Word × Machine σ) :=
  match m.stack with
  | [] => .error (.stackUnderflow op m.pc)
  | w :: rest => .ok (w, { m with stack := rest })

/-- Takes the top of the stack, which has to be a number. -/
def popNumber (op : Opcode) (m : Machine σ) : Except Fault (Rational × Machine σ) :=
  match m.pop op with
  | .error f => .error f
  | .ok (.number r, m) => .ok (r, m)
  | .ok (.text s, _) => .error (.typeMismatch op s)

/-- Pushes a word and goes on with the next slot. -/
def pushNext (m : Machine σ) (w : Word) : Machine σ :=
  { m with stack := w :: m.stack, pc := m.pc + 1 }

/-- Goes on at the slot that a word names. -/
def jump (p : Program) (m : Machine σ) (destination : Word) : Except Fault (Machine σ) :=
  match p.target? destination with
  | some target => .ok { m with pc := target }
  | none => .error (.invalidDestination destination.display)

/-- Pops two numbers and pushes what `f` makes of them. -/
def binary (op : Opcode) (f : Rational → Rational → Except Rational.Fault Word)
    (m : Machine σ) : Except Fault (Machine σ) := do
  let (a, m) ← m.popNumber op
  let (b, m) ← m.popNumber op
  match f a b with
  | .ok w => return m.pushNext w
  | .error fault => throw (.arithmetic fault)

/-- `binary` for arithmetic. -/
def arithmetic (op : Opcode) (f : Rational → Rational → Except Rational.Fault Rational)
    (m : Machine σ) : Except Fault (Machine σ) :=
  m.binary op fun a b => (f a b).map .number

/-- `binary` for a comparison. -/
def comparison (op : Opcode) (f : Rational → Rational → Bool) (m : Machine σ) :
    Except Fault (Machine σ) :=
  m.binary op fun a b => .ok (.ofBool (f a b))

variable [Storage σ]

/-- Executes one instruction.  `STOP` changes nothing. -/
def execute (p : Program) (op : Opcode) (m : Machine σ) : Except Fault (Machine σ) :=
  match op with
  | .stop => return m
  | .push =>
      match p.slots[m.pc + 1]? with
      | some w => return { m with stack := w :: m.stack, pc := m.pc + 2 }
      | none => throw (.truncatedProgram m.pc)
  | .add => m.arithmetic op Rational.add
  | .sub => m.arithmetic op Rational.sub
  | .mul => m.arithmetic op Rational.mul
  | .div => m.arithmetic op Rational.div
  | .lt => m.comparison op fun a b => a.lt b
  | .gt => m.comparison op fun a b => b.lt a
  | .eq => do
      let (a, m) ← m.pop op
      let (b, m) ← m.pop op
      return m.pushNext (.ofBool (a = b))
  | .and => m.comparison op fun a b => !a.isZero && !b.isZero
  | .or => m.comparison op fun a b => !a.isZero || !b.isZero
  | .jump => do
      let (destination, m) ← m.pop op
      m.jump p destination
  | .jumpi => do
      let (condition, m) ← m.popNumber op
      let (destination, m) ← m.pop op
      if condition.isZero then return { m with pc := m.pc + 1 } else m.jump p destination
  | .store => do
      let (key, m) ← m.pop op
      let (value, m) ← m.pop op
      return { m with storage := Storage.store m.storage key value, pc := m.pc + 1 }
  | .load => do
      let (key, m) ← m.pop op
      return m.pushNext ((Storage.load m.storage key).getD (.number .zero))

/-- What has become of a machine. -/
inductive Status (σ : Type) where
  | running (m : Machine σ)
  | halted (m : Machine σ)
  | failed (m : Machine σ) (fault : Fault)

/-- One step: past the last slot the machine halts, otherwise it executes the instruction
of its slot. -/
def step (p : Program) (m : Machine σ) : Status σ :=
  match p.slots[m.pc]? with
  | none => .halted m
  | some slot =>
      match slot.opcode? with
      | none => .failed m (.invalidOpcode slot.display m.pc)
      | some op =>
          let charged := { m with gasUsed := m.gasUsed + op.gas }
          if op = .stop then .halted charged
          else
            match charged.execute p op with
            | .ok next => .running next
            | .error fault => .failed charged fault

/-- Runs for at most `limit` instructions.  A machine that still has a slot to execute then
fails; `bound` is the limit that it is told about. -/
def runFor (p : Program) (bound : Nat) : (limit : Nat) → Machine σ → Status σ
  | 0, m => if m.pc < p.slots.size then .failed m (.infiniteLoop bound) else .halted m
  | limit + 1, m =>
      match m.step p with
      | .running next => runFor p bound limit next
      | final => final

end Machine

/-- The number of instructions after which code is taken for looping. -/
def executionLimit : Nat := 10000

/-- What a completed execution leaves. -/
structure Outcome where
  /-- The top of the stack, if there is one. -/
  result : Option Word
  /-- The gas of all executed instructions. -/
  gasUsed : UInt64
deriving DecidableEq

/-- Runs code on a storage.  The storage comes back with everything written to it, also when
the code fails. -/
def runCode {σ : Type} [Storage σ] (code : List Word) (storage : σ) :
    Except Fault Outcome × σ :=
  match Machine.runFor (.ofCode code) executionLimit executionLimit (.start storage) with
  | .halted m => (.ok ⟨m.stack.head?, m.gasUsed⟩, m.storage)
  | .failed m fault => (.error fault, m.storage)
  | .running m => (.ok ⟨m.stack.head?, m.gasUsed⟩, m.storage)

/-- Runs code on a storage trie.  The machine writes to the tree; the root is taken once, when
it has come to its end. -/
def runOnTrie (code : List Word) (storage : Trie Word) : Except Fault Outcome × Trie Word :=
  let (result, node) := runCode code storage.node
  (result, .ofNode node)

end WorkLedger
