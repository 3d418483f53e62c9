import Parley.Scenario.Answer

/-!
# Traces

A trace lists what can be seen from outside while a conversation runs: log entries, what
displays are asked to show, what sessions report, and the calls of the host's handlers.
Lines stand in it with their contents at the time.
-/

namespace Parley

/-- What a handler is called with. -/
inductive Argument where
  | event (event : Event Line)
  | text (s : String)
  deriving Repr

/-- One thing seen. -/
inductive TraceEntry where
  /-- A log entry; the failure of a handler is logged with its cause. -/
  | log (level : Level) (text : String) (cause : Option Failure)
  /-- A handler is called. -/
  | call (handler : String) (argument : Argument)
  /-- A step inside a handler has returned. -/
  | returned (handler step : String) (answer : Answer)
  /-- A display is told of a new node. -/
  | node (display title : String)
  /-- A display is given a line to show. -/
  | line (display : String) (line : Line)
  /-- A display is told that the conversation is over. -/
  | ended (display : String)
  /-- A display is asked to close. -/
  | close (display : String)
  /-- A console writes. -/
  | out (display text : String)
  /-- A session reports an event. -/
  | event (session : String) (type : EventType) (data : List (String × Datum Line))
  deriving Repr

def TraceEntry.ofLog (log : List LogEntry) : List TraceEntry :=
  log.map fun entry => .log entry.level entry.text none

end Parley
