import CoinScript.Directory
import CoinScript.Settings
import CoinScript.Text.Case
/-!
# Stored configurations

A configuration is put together from three layers: the default of its type, a JSON
file with its name, and the variables of the environment. Each layer is merged over
the ones before. A variable counts if its name is the store's mark, the upper-case
name of the configuration and the name of a field, joined by `_`; its value is read
as JSON, and taken as text if it is none.
-/

namespace CoinScript

open Json

/-- How a type of configuration is written and read. -/
structure ConfigType (α : Type) where
  default : Value
  read : Value → Option α
  write : α → Value

/-- The settings of the engine as a configuration. -/
def Settings.configType : ConfigType Settings where
  default := Settings.toJson {}
  read value := ofJson? value.toTree
  write := toJson

/-- Any JSON value as a configuration, by default null. -/
def Json.Value.configType : ConfigType Value where
  default := .null
  read := some
  write value := value

/-- A directory of configurations and the values loaded last. -/
structure ConfigStore where
  directory : Directory
  /-- The first part of the names of variables. -/
  mark : String
  /-- The values loaded last, by name. -/
  loaded : Members := []
  /-- The log, newest first. -/
  log : List LogRecord := []

/-- An operation on a store; a failing one leaves the store as it was. -/
abbrev Configuring := EStateM Error ConfigStore

namespace ConfigStore

/-- The file of a configuration. -/
def fileName (name : String) : String := name ++ ".json"

/-- Whether a configuration has a file. -/
def hasConfig (store : ConfigStore) (name : String) : Bool :=
  (store.directory.text? (fileName name)).isSome

/-- The value of a variable. -/
def variableValue (text : String) : Value :=
  (Value.parse? text).getD (.string text)

/-- The name of the field that a variable sets in a configuration. -/
def fieldOf? (store : ConfigStore) (name key : String) : Option String :=
  let front := (store.mark ++ "_" ++ Text.upper name ++ "_").toList
  if front.isPrefixOf key.toList then
    some (Text.lower (String.ofList (key.toList.drop front.length)))
  else none

/-- The layer of the environment; of several variables for a field the last one counts. -/
def environmentLayer (store : ConfigStore) (name : String)
    (environment : List (String × String)) : Value :=
  .object (Members.ofList (environment.filterMap fun (key, text) =>
    (store.fieldOf? name key).map fun field => (field, variableValue text)))

/-- The value of all layers together. -/
def layered (store : ConfigStore) (default : Value) (name : String)
    (environment : List (String × String)) : Except Error Value := do
  let withFile ← match store.directory.text? (fileName name) with
    | none => .ok default
    | some text =>
      match Value.parse? text with
      | some layer => .ok (default.merge layer)
      | none => .error (.invalidInput .configFile)
  return withFile.merge (store.environmentLayer name environment)

/-- Write a record to the log. -/
def emit (level : LogLevel) (message : String) : Configuring Unit :=
  modify fun store => { store with log := ⟨level, message⟩ :: store.log }

/-- Load a configuration and remember its value. -/
def load {α : Type} (type : ConfigType α) (name : String)
    (environment : List (String × String)) : Configuring α := do
  let store ← get
  match store.layered type.default name environment with
  | .error e => throw e
  | .ok value =>
    match type.read value with
    | none => throw (.invalidInput (.configValue name))
    | some config =>
      set { store with loaded := Members.insert name (type.write config) store.loaded }
      emit .debug ("Loaded configuration '" ++ name ++ "'")
      return config

/-- Save the JSON form of a configuration. -/
def save (name : String) (value : Value) : Configuring Unit := do
  let store ← get
  match store.directory.write (fileName name) value.pretty with
  | .error fault => throw (.file fault)
  | .ok directory =>
    set { store with directory := directory }
    emit .info ("Configuration '" ++ name ++ "' saved to " ++
      quote (directory.name ++ "/" ++ fileName name))

/-- Delete the file of a configuration, if there is one. -/
def delete (name : String) : Configuring Unit := do
  let store ← get
  if store.hasConfig name then
    set { store with directory := store.directory.erase (fileName name) }
    emit .info ("Configuration '" ++ name ++ "' deleted")

end ConfigStore

end CoinScript
