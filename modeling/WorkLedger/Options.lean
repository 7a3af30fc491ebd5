/-
# Command line options

The options of a node.  Options may come in any order and repeatedly, and of several values of
one option the last counts; `--no-mine` stops mining wherever it stands.  A value is whatever
follows its option, also if it looks like one.
-/
import WorkLedger.Consensus
import WorkLedger.Explained
import WorkLedger.LogLevel

namespace WorkLedger

/-- How a node is started. -/
structure Options where
  name : String
  /-- Milliseconds between mining attempts, none if the node does not mine. -/
  blockTime : Option Nat
  /-- The number of peers in the same process. -/
  peers : Nat
  logLevel : LogLevel
deriving DecidableEq, Repr

/-- Why a command line is refused. -/
inductive OptionError where
  | missingValue (flag : String)
  | invalidValue (flag value : String)
  | unexpectedArgument (arg : String)
  | helpRequested
deriving DecidableEq, Repr

/-- The wording of an error. -/
def OptionError.message : OptionError → String
  | .missingValue flag => s!"{flag} requires an argument"
  | .invalidValue flag value => s!"invalid value for {flag}: {value}"
  | .unexpectedArgument arg => s!"unexpected argument: {arg}"
  | .helpRequested => "help requested"

/-- The name of an error. -/
def OptionError.tag : OptionError → String
  | .missingValue _ => "MissingValue"
  | .invalidValue _ _ => "InvalidValue"
  | .unexpectedArgument _ => "UnexpectedArgument"
  | .helpRequested => "HelpRequested"

instance : Explained OptionError := ⟨OptionError.tag, OptionError.message, fun _ => []⟩

/-- Reads a number below `2 ^ 64`: decimal digits, any number of zeros in front, and at most
one plus sign before them. -/
def parseU64? (s : String) : Option Nat :=
  let digits :=
    match s.toList with
    | '+' :: rest => rest
    | cs => cs
  if digits.isEmpty || !digits.all Char.isDigit then none
  else
    let n := Nat.ofDigitChars 10 digits 0
    if n < UInt64.size then some n else none

namespace Options

/-- The variable that overrides the log level. -/
def logVariable : String := "LEDGER_LOG"

/-- What a command line says before the two mining options are put together. -/
structure Draft where
  name : String
  /-- Milliseconds between mining attempts. -/
  blockTime : Nat
  mine : Bool
  peers : Nat
  logLevel : LogLevel

/-- The draft of an empty command line. -/
def Draft.initial : Draft := ⟨"node", mineRate.toNat, true, 0, .info⟩

/-- The options of a draft. -/
def Draft.finish (d : Draft) : Options :=
  ⟨d.name, if d.mine then some d.blockTime else none, d.peers, d.logLevel⟩

/-- Takes in an option with its value. -/
def Draft.set (d : Draft) (flag value : String) : Except OptionError Draft :=
  let orInvalid {α : Type} (a : Option α) : Except OptionError α :=
    match a with
    | some a => .ok a
    | none => .error (.invalidValue flag value)
  match flag with
  | "--name" => .ok { d with name := value }
  | "--block-time" => do
      let secs ← orInvalid ((parseU64? value).filter (· ≠ 0))
      return { d with blockTime := 1000 * secs }
  | "--peers" => do
      let peers ← orInvalid (parseU64? value)
      return { d with peers }
  | "--log" => do
      let logLevel ← orInvalid (LogLevel.parse? value)
      return { d with logLevel }
  | _ => .error (.unexpectedArgument flag)

/-- The options that take a value. -/
def valued : List String := ["--name", "--block-time", "--peers", "--log"]

/-- Takes in the arguments from the left. -/
def parseFrom (d : Draft) : List String → Except OptionError Draft
  | [] => .ok d
  | flag :: rest =>
      if flag = "--help" ∨ flag = "-h" then .error .helpRequested
      else if flag = "--no-mine" then parseFrom { d with mine := false } rest
      else if flag ∈ valued then
        match rest with
        | [] => .error (.missingValue flag)
        | value :: rest =>
            match d.set flag value with
            | .ok d => parseFrom d rest
            | .error e => .error e
      else .error (.unexpectedArgument flag)

/-- The options of a command line. -/
def parse (args : List String) : Except OptionError Options :=
  (parseFrom .initial args).map Draft.finish

/-- The options with the log level of the environment, if it is set there. -/
def withEnvironment (o : Options) (logLevel : Option String) : Except OptionError Options :=
  match logLevel with
  | none => .ok o
  | some value =>
      match LogLevel.parse? value with
      | some logLevel => .ok { o with logLevel }
      | none => .error (.invalidValue logVariable value)

/-- The summary of the command line. -/
def usage : String :=
  "Usage: ledger-node [--name <name>] [--block-time <secs>] [--no-mine] [--peers <n>] " ++
    "[--log <level>]"

end Options

end WorkLedger
