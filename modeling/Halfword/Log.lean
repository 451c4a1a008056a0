/-!
# Log records

A record has an origin, a level and a message. Levels are ordered from errors to traces, and a log
is shown up to a limit.
-/

namespace Halfword

/-- How detailed a record is. -/
inductive Level where
  | error | warn | info | debug | trace
  deriving DecidableEq

namespace Level

/-- The place of a level, from errors up. -/
def rank : Level → Nat
  | error => 1 | warn => 2 | info => 3 | debug => 4 | trace => 5

/-- The name of a level in the log. -/
def text : Level → String
  | error => "ERROR" | warn => "WARN" | info => "INFO" | debug => "DEBUG" | trace => "TRACE"

/-- Whether a log with the limit `limit` shows records of the level. -/
def within (level limit : Level) : Bool := decide (level.rank ≤ limit.rank)

end Level

/-- The part of the program that a record comes from. -/
inductive Origin where
  | command | assembler | symbols | encoder
  deriving DecidableEq

/-- The name of an origin in the log. -/
def Origin.text : Origin → String
  | command => "asm16"
  | assembler => "asm16::assembler"
  | symbols => "asm16::assembler::symbols"
  | encoder => "asm16::assembler::encoder"

/-- An entry of the log. -/
structure Record where
  origin : Origin
  level : Level
  message : String
  deriving DecidableEq

/-- A record as a line of the log. -/
def Record.text (r : Record) : String := s!"[{r.origin.text}][{r.level.text}] {r.message}"

end Halfword
