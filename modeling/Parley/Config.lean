import Parley.Failure
import Parley.Json.Value

/-!
# Settings

The behaviour switches of a conversation.  Settings come as JSON objects and are checked one
by one; all faults are reported together, first those of the known settings in their order,
then the settings that do not exist.
-/

namespace Parley

/-- The levels that a configuration may name. -/
inductive LogThreshold where
  | debug
  | info
  | warning
  | error
  | critical
  deriving DecidableEq, Repr, Inhabited

namespace LogThreshold

def name : LogThreshold → String
  | debug => "DEBUG"
  | info => "INFO"
  | warning => "WARNING"
  | error => "ERROR"
  | critical => "CRITICAL"

def ofName? (name : String) : Option LogThreshold :=
  [debug, info, warning, error, critical].find? fun level => level.name == name

end LogThreshold

/-- The settings of a conversation. -/
structure Config where
  /-- The option destination that ends the conversation. -/
  endToken : String := "END"
  /-- Whether titles are told apart by case. -/
  caseSensitiveTitles : Bool := true
  /-- Whether choosing an option starts the destination from its first line. -/
  resetOnOption : Bool := true
  /-- Whether the actions of a line fire as soon as it is displayed. -/
  dispatchActionsOnDisplay : Bool := true
  /-- The level at which logging is set up. -/
  logLevel : LogThreshold := .info
  deriving DecidableEq, Repr, Inhabited

namespace Config

open Json (Value)

/-- The words for truth, in small letters. -/
def trueWords : List String := ["1", "on", "t", "true", "y", "yes"]

/-- The words for falsity, in small letters. -/
def falseWords : List String := ["0", "off", "f", "false", "n", "no"]

/-- The truth value that a text stands for, in any ASCII case. -/
def truthOfWord? (s : String) : Option Bool :=
  let word := String.ofList (s.toList.map Char.toLower)
  if word ∈ trueWords then some true
  else if word ∈ falseWords then some false
  else none

/-- Read a truth value: one itself, the numbers zero and one, or a word. -/
def readTruth : Value → Except Fault Bool
  | .bool b => .ok b
  | .string s => match truthOfWord? s with
    | some b => .ok b
    | none => .error .unclearTruth
  | .int n => if n = 0 then .ok false else if n = 1 then .ok true else .error .unclearTruth
  | .real x =>
    if x.equalsNat 0 then .ok false
    else if x.equalsNat 1 then .ok true
    else if x.isIntegral then .error .unclearTruth
    else .error .notTruth
  | _ => .error .notTruth

def readText : Value → Except Fault String
  | .string s => .ok s
  | _ => .error .notText

def readLevel : Value → Except Fault LogThreshold
  | .string s => match LogThreshold.ofName? s with
    | some level => .ok level
    | none => .error .notLevel
  | _ => .error .notLevel

/-- The names of the settings, in order. -/
def names : List String :=
  ["end_token", "case_sensitive_titles", "reset_on_option", "dispatch_actions_on_display",
    "log_level"]

/-- The settings with one of them read from a value; `none` if there is no such setting. -/
def set? (config : Config) (name : String) (value : Value) : Option (Except Fault Config) :=
  match name with
  | "end_token" => some ((readText value).map fun s => { config with endToken := s })
  | "case_sensitive_titles" =>
    some ((readTruth value).map fun b => { config with caseSensitiveTitles := b })
  | "reset_on_option" =>
    some ((readTruth value).map fun b => { config with resetOnOption := b })
  | "dispatch_actions_on_display" =>
    some ((readTruth value).map fun b => { config with dispatchActionsOnDisplay := b })
  | "log_level" => some ((readLevel value).map fun level => { config with logLevel := level })
  | _ => none

/-- Assign to one setting.  A refused value leaves the settings as they were. -/
def assign (config : Config) (name : String) (value : Value) : Except Failure Config :=
  match config.set? name value with
  | none => .error (.invalidSettings [⟨some name, .noSuchSetting name⟩])
  | some (.error fault) => .error (.invalidSettings [⟨some name, fault⟩])
  | some (.ok config) => .ok config

/-- Read those of the named settings that are given, collecting what is wrong with them. -/
def readFields (given : List (String × Value)) :
    List String → Config → Config × List Problem
  | [], config => (config, [])
  | name :: rest, config =>
    match (given.lookup name).bind (config.set? name) with
    | none => readFields given rest config
    | some (.ok config) => readFields given rest config
    | some (.error fault) =>
      let (config, problems) := readFields given rest config
      (config, ⟨some name, fault⟩ :: problems)

/-- The settings given by an object, the others at their defaults. -/
def ofValue : Value → Except Failure Config
  | .object given =>
    let (config, faults) := readFields given names {}
    let extras := (given.filter fun entry => entry.1 ∉ names).map fun entry =>
      (⟨some entry.1, .extra⟩ : Problem)
    let problems := faults ++ extras
    if problems.isEmpty then .ok config else .error (.invalidSettings problems)
  | _ => .error (.invalidSettings [⟨none, .notObject⟩])

end Config

end Parley
