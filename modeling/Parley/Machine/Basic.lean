import Parley.Machine.Task
import Parley.Trace

/-!
# Machines

A machine is a world with an agenda of tasks, the trace of what has been seen, and the result
of the operation under way.  Carrying out a task changes the world, adds to the trace and may
put further tasks in front of the agenda.

A failure ends everything up to the dispatch whose listener was being called, if there is
one.  There it is logged, and the dispatch goes on with the next listener.
-/

namespace Parley

/-- A world at work. -/
structure Machine where
  world : World
  agenda : List Task := []
  trace : List TraceEntry := []
  result : Except Failure Answer := .ok .nothing

namespace Machine

/-! ## Small changes -/

def push (m : Machine) (tasks : List Task) : Machine :=
  { m with agenda := tasks ++ m.agenda }

def emit (m : Machine) (entries : List TraceEntry) : Machine :=
  { m with trace := m.trace ++ entries }

def logAll (m : Machine) (log : List LogEntry) : Machine :=
  m.emit (TraceEntry.ofLog log)

def report (m : Machine) (level : Level) (text : String) : Machine :=
  m.logAll [⟨level, text⟩]

def give (m : Machine) (answer : Answer) : Machine :=
  { m with result := .ok answer }

def withWorld (m : Machine) (f : World → World) : Machine :=
  { m with world := f m.world }

def setSession (m : Machine) (s : SessionId) (session : Session) : Machine :=
  m.withWorld fun w => w.modifySession s fun _ => session

/-- The agenda from the innermost dispatch on, and the bus it belongs to. -/
def unwind : List Task → Option (BusId × List Task)
  | [] => none
  | .dispatch b :: rest => some (b, .dispatch b :: rest)
  | _ :: rest => unwind rest

/-- The report of a listener that has failed. -/
def listenerFailure (w : World) (b : BusId) (failure : Failure) : TraceEntry :=
  let type := (w.bus b).dispatching.elim "" fun d => d.event.type.name
  .log .error ("Error in event handler for " ++ type) (some failure)

def fail (m : Machine) (failure : Failure) : Machine :=
  match unwind m.agenda with
  | none => { m with agenda := [], result := .error failure }
  | some (b, agenda) =>
    { m with agenda, trace := m.trace ++ [listenerFailure m.world b failure] }

end Machine

end Parley
