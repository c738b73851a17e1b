import CoinScript.Error
import CoinScript.Flags
import CoinScript.Json.Decode
import CoinScript.Json.Printer
import CoinScript.Log
/-!
# Settings of the engine

The flags of a verification, the log level and whether instructions are logged, with
their JSON form.
-/

namespace CoinScript

open Json

/-! ## Flags -/

namespace Flags

/-- The names of the flags, in order. -/
def names : List String :=
  ["strict_encoding", "low_s", "p2sh", "check_lock_time_verify", "check_sequence_verify",
   "null_dummy"]

/-- The flags in the order of their names. -/
def toList (f : Flags) : List Bool :=
  [f.strictEncoding, f.lowS, f.p2sh, f.checkLockTimeVerify, f.checkSequenceVerify, f.nullDummy]

/-- The JSON form. -/
def toJson (f : Flags) : Value :=
  .object (names.zip (f.toList.map Value.bool))

/-- Read the JSON form. A flag that is not named has its default. -/
def ofJson? : Decoder Flags := fun tree => do
  let fields ← Fields.read? names tree
  let usual : Flags := {}
  let strictEncoding ← fields.withDefault 0 usual.strictEncoding Decoder.bool
  let lowS ← fields.withDefault 1 usual.lowS Decoder.bool
  let p2sh ← fields.withDefault 2 usual.p2sh Decoder.bool
  let checkLockTimeVerify ← fields.withDefault 3 usual.checkLockTimeVerify Decoder.bool
  let checkSequenceVerify ← fields.withDefault 4 usual.checkSequenceVerify Decoder.bool
  let nullDummy ← fields.withDefault 5 usual.nullDummy Decoder.bool
  return ⟨strictEncoding, lowS, p2sh, checkLockTimeVerify, checkSequenceVerify, nullDummy⟩

/-- The text of the flags in a log. -/
def logText (f : Flags) : String :=
  let field (name : String) (value : Bool) : String :=
    name ++ ": " ++ (if value then "true" else "false")
  "VerifyFlags \x7b " ++ String.intercalate ", " (List.zipWith field names f.toList) ++ " \x7d"

end Flags

namespace LogLevel

/-- The JSON form. -/
def toJson (level : LogLevel) : Value := .string level.name

/-- Read the JSON form. -/
def ofJson? : Decoder LogLevel := Decoder.choice name all

end LogLevel

/-! ## Settings -/

/-- The settings of the engine. -/
structure Settings where
  flags : Flags := {}
  logLevel : Option LogLevel := none
  /-- Whether every executed instruction is logged. -/
  verbose : Bool := false
deriving DecidableEq, Repr

namespace Settings

/-- The JSON form, without the log level if there is none. -/
def toJson (s : Settings) : Value :=
  let level := match s.logLevel with
    | some level => [("log_level", level.toJson)]
    | none => []
  .object ([("flags", s.flags.toJson)] ++ level ++ [("verbose", .bool s.verbose)])

/-- Read the JSON form. -/
def ofJson? : Decoder Settings := fun tree => do
  let fields ← Fields.read? ["flags", "log_level", "verbose"] tree
  let flags ← fields.withDefault 0 {} Flags.ofJson?
  let logLevel ← fields.optional 1 LogLevel.ofJson?
  let verbose ← fields.withDefault 2 false Decoder.bool
  return ⟨flags, logLevel, verbose⟩

/-- The text of the settings in a log. -/
def logText (s : Settings) : String :=
  let level := match s.logLevel with
    | some level => "Some(" ++ level.name ++ ")"
    | none => "None"
  "EngineConfig \x7b flags: " ++ s.flags.logText ++ ", log_level: " ++ level ++ ", verbose: " ++
    (if s.verbose then "true" else "false") ++ " \x7d"

/-- The record that is written when the engine starts with these settings. -/
def startRecord (s : Settings) : LogRecord :=
  ⟨.info, "Script engine initialized with config: " ++ s.logText⟩

/-- The settings with some members of their JSON form replaced; of several values for a key the
last one counts. -/
def override (base : Settings) (overrides : List (String × Value)) : Except Error Settings :=
  let value := base.toJson.merge (.object (Members.ofList overrides))
  match ofJson? value.toTree with
  | some settings => .ok settings
  | none => .error (.invalidInput .finalConfig)

end Settings

end CoinScript
