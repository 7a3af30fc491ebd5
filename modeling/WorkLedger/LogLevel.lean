/-
# Log levels

The levels in order of weight.  Their names are read in any case of ASCII letters.
-/

namespace WorkLedger

/-- The weight of a log line. -/
inductive LogLevel where
  | debug
  | info
  | warn
  | error
deriving DecidableEq, Repr

namespace LogLevel

/-- The name of a level. -/
def name : LogLevel → String
  | debug => "DEBUG"
  | info => "INFO"
  | warn => "WARN"
  | error => "ERROR"

/-- The place of a level in their order. -/
def number : LogLevel → Nat
  | debug => 0
  | info => 1
  | warn => 2
  | error => 3

/-- The level at a place; everything past the last is the last. -/
def ofNumber : Nat → LogLevel
  | 0 => debug
  | 1 => info
  | 2 => warn
  | _ => error

/-- The text with ASCII capitals in lowercase. -/
def lowercase (s : String) : String := s.map Char.toLower

/-- Reads the name of a level; `warning` is a second name of `warn`. -/
def parse? (s : String) : Option LogLevel :=
  match lowercase s with
  | "debug" => some debug
  | "info" => some info
  | "warn" | "warning" => some warn
  | "error" => some error
  | _ => none

/-- The message for a text that names no level. -/
def unknownMessage (s : String) : String := s!"unknown log level '{lowercase s}'"

end LogLevel

end WorkLedger
