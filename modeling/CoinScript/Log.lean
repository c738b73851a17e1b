/-!
# Log levels and records

Operations report what they do as records. A record is data: where it goes is up to
the caller.
-/

namespace CoinScript

/-- The levels of a record, most urgent first. -/
inductive LogLevel where
  | error
  | warn
  | info
  | debug
  | trace
deriving DecidableEq, Repr

namespace LogLevel

/-- All levels. -/
def all : List LogLevel := [error, warn, info, debug, trace]

/-- The level as it is written in front of a record. -/
def display : LogLevel → String
  | error => "ERROR"
  | warn => "WARN"
  | info => "INFO"
  | debug => "DEBUG"
  | trace => "TRACE"

/-- The name of a level in settings. -/
def name : LogLevel → String
  | error => "Error"
  | warn => "Warn"
  | info => "Info"
  | debug => "Debug"
  | trace => "Trace"

/-- The most verbose level that is shown when `level` is configured; without one, errors only. -/
def threshold : Option LogLevel → LogLevel
  | some level => level
  | none => error

end LogLevel

/-- One line of a log. -/
structure LogRecord where
  level : LogLevel
  message : String
deriving DecidableEq, Repr

/-- The line of a record. -/
def LogRecord.line (r : LogRecord) : String :=
  r.level.display ++ " " ++ r.message

end CoinScript
