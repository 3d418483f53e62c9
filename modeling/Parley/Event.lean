import Parley.Failure
import Parley.Json.Value
import Parley.Line

/-!
# Events

Sessions and displays talk through events.  A display reports the player's input, a session
reports the course of the conversation.  An event carries data under names and can be
consumed, which keeps it from further handlers.
-/

namespace Parley

/-- Input that a display reports. -/
inductive ContextEvent where
  | continuePressed
  | optionSelected
  | actionEncountered
  deriving DecidableEq, Repr

/-- What a session reports. -/
inductive DialogueEvent where
  | nodeEntered
  | lineDisplayed
  | dialogueOver
  | contextClosed
  deriving DecidableEq, Repr

def ContextEvent.name : ContextEvent → String
  | continuePressed => "CONTINUE_PRESSED"
  | optionSelected => "OPTION_SELECTED"
  | actionEncountered => "ACTION_ENCOUNTERED"

def DialogueEvent.name : DialogueEvent → String
  | nodeEntered => "NODE_ENTERED"
  | lineDisplayed => "LINE_DISPLAYED"
  | dialogueOver => "DIALOGUE_OVER"
  | contextClosed => "CONTEXT_CLOSED"

def ContextEvent.all : List ContextEvent :=
  [.continuePressed, .optionSelected, .actionEncountered]

def DialogueEvent.all : List DialogueEvent :=
  [.nodeEntered, .lineDisplayed, .dialogueOver, .contextClosed]

/-- The type of an event. -/
inductive EventType where
  | context (event : ContextEvent)
  | dialogue (event : DialogueEvent)
  deriving DecidableEq, Repr

namespace EventType

def all : List EventType :=
  ContextEvent.all.map .context ++ DialogueEvent.all.map .dialogue

/-- The name of an event type within its family. -/
def shortName : EventType → String
  | context event => event.name
  | dialogue event => event.name

def name : EventType → String
  | context event => "ContextEvent." ++ event.name
  | dialogue event => "DialogueEvent." ++ event.name

/-- The event type with a given short name. -/
def ofShortName? (name : String) : Option EventType :=
  all.find? fun type => type.shortName == name

end EventType

/-- A piece of event data: a plain value, a node by its title, or a line.  Lines are given in
the form `ℓ`: as a reference while an event is under way, as contents once it is written
down. -/
inductive Datum (ℓ : Type) where
  | value (v : Json.Value)
  | node (title : String)
  | line (line : ℓ)
  deriving Repr

/-- An event. -/
structure Event (ℓ : Type) where
  type : EventType
  data : List (String × Datum ℓ) := []
  consumed : Bool := false
  deriving Repr

namespace Datum

variable {ℓ κ : Type}

/-- The datum with its line given in another form. -/
def map (f : ℓ → κ) : Datum ℓ → Datum κ
  | value v => value v
  | node title => node title
  | line l => line (f l)

def text (s : String) : Datum ℓ :=
  value (.string s)

def toText : Datum ℓ → String
  | value (.string s) => s
  | value v => v.literal
  | node title => title
  | line _ => ""

end Datum

namespace Event

variable {ℓ κ : Type}

/-- The event with its lines given in another form. -/
def map (f : ℓ → κ) (event : Event ℓ) : Event κ :=
  { event with data := event.data.map fun (key, datum) => (key, datum.map f) }

def get? (event : Event ℓ) (key : String) : Option (Datum ℓ) :=
  event.data.lookup key

/-- The text under a name; a missing one is empty. -/
def textOf (event : Event ℓ) (key : String) : String :=
  (event.get? key).elim "" Datum.toText

/-- The datum under a name that must be there. -/
def item (event : Event ℓ) (key : String) : Except Failure (Datum ℓ) :=
  match event.get? key with
  | some datum => .ok datum
  | none => .error (.missingKey key)

/-- The event, kept from further handlers. -/
def consume (event : Event ℓ) : Event ℓ :=
  { event with consumed := true }

@[simp] theorem consumed_consume (event : Event ℓ) : event.consume.consumed = true := rfl

end Event

end Parley
