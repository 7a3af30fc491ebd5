/-
# Instructions

Code is a flat list of words.  An instruction is a text word that spells its mnemonic, and
`PUSH` is followed by one operand word of any kind.  Every instruction has a price in gas.
-/

namespace WorkLedger

/-- The instructions of the machine.  `a` is the first word popped and `b` the second. -/
inductive Opcode where
  /-- Halts; the result is the top of the stack. -/
  | stop
  /-- Pushes the word after it. -/
  | push
  /-- Pushes `a + b`. -/
  | add
  /-- Pushes `a - b`. -/
  | sub
  /-- Pushes `a * b`. -/
  | mul
  /-- Pushes `a / b`, exactly. -/
  | div
  /-- Pushes whether `a < b`. -/
  | lt
  /-- Pushes whether `a > b`. -/
  | gt
  /-- Pushes whether the words are equal. -/
  | eq
  /-- Pushes whether both are nonzero. -/
  | and
  /-- Pushes whether one is nonzero. -/
  | or
  /-- Goes on at slot `a`. -/
  | jump
  /-- Goes on at slot `b` if `a` is nonzero. -/
  | jumpi
  /-- Writes `b` under `a`. -/
  | store
  /-- Pushes what is stored under `a`, or zero. -/
  | load
deriving DecidableEq, Repr

namespace Opcode

/-- All instructions in the order of the table. -/
def all : List Opcode :=
  [stop, push, add, sub, mul, div, lt, gt, eq, and, or, jump, jumpi, store, load]

/-- The text that stands for an instruction in code. -/
def mnemonic : Opcode → String
  | stop => "STOP"
  | push => "PUSH"
  | add => "ADD"
  | sub => "SUB"
  | mul => "MUL"
  | div => "DIV"
  | lt => "LT"
  | gt => "GT"
  | eq => "EQ"
  | and => "AND"
  | or => "OR"
  | jump => "JUMP"
  | jumpi => "JUMPI"
  | store => "STORE"
  | load => "LOAD"

/-- The gas charged each time an instruction is executed. -/
def gas : Opcode → UInt64
  | stop | push => 0
  | add | sub | mul | div | lt | gt | eq | and | or => 1
  | jump | jumpi => 2
  | store | load => 5

/-- The instruction of that mnemonic. -/
def ofMnemonic? (s : String) : Option Opcode := all.find? fun op => op.mnemonic = s

end Opcode

end WorkLedger
