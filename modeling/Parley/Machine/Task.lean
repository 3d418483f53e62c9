import Parley.World.Alive

/-!
# Tasks

What is still to be done is a list of tasks, the next one first.  An operation that calls out
to a display, a handler or a bus leaves the rest of its work behind as tasks, so that
whatever happens during the call comes before it.

A task also holds on to the sessions, handlers and managers it is about: they stay alive at
least until it is done.
-/

namespace Parley

/-- Who is told of the actions of a line. -/
inductive Sink where
  /-- A session fires its handlers. -/
  | session (s : SessionId)
  /-- A display reports them as input. -/
  | display (d : DisplayId)
  deriving DecidableEq, Repr

/-- Where a loop over the actions of a line stands.  Actions added to the line while the loop
runs take part in it; when actions are removed, the loop goes on with what it had. -/
inductive Course where
  /-- The loop follows the line; `next` is the number of the next action. -/
  | live (line : LineRef) (next : Nat)
  /-- The loop has been cut off from the line; these actions are left. -/
  | frozen (rest : List Action)
  deriving DecidableEq, Repr

/-- A piece of work. -/
inductive Task where
  /-- Start a node. -/
  | start (s : SessionId) (title : String)
  /-- Go on to the next line. -/
  | proceed (s : SessionId)
  /-- Follow an option. -/
  | follow (s : SessionId) (key destination : String)
  /-- Show a line and report it. -/
  | present (s : SessionId) (line : LineRef)
  /-- Fire the actions of a line that has been shown, if the settings say so. -/
  | fireShown (s : SessionId) (line : LineRef)
  /-- Replace the graph of a session, and start a node if one is given. -/
  | load (s : SessionId) (data : Json.Value) (start : Option String)
  /-- Tear a session down. -/
  | finish (s : SessionId) (onComplete : Option HandlerId)
  /-- Fire the handlers of an action. -/
  | handleAction (s : SessionId) (tag param : String)
  /-- Go on with a loop over actions. -/
  | actions (sink : Sink) (course : Course)
  /-- Call the handlers that are waiting; the others of the same call come first. -/
  | multicast (called waiting : List HandlerId) (param : String)
  /-- The end of an operation of a session. -/
  | leave (s : SessionId)
  /-- Tell a display of a new node. -/
  | showNode (d : DisplayId) (title : String)
  /-- Give a display a line to show. -/
  | showLine (d : DisplayId) (line : LineRef)
  /-- Tell a display that the conversation is over. -/
  | showOver (d : DisplayId)
  /-- Ask a display to close. -/
  | close (d : DisplayId) (callback : Option Callback)
  /-- The part of closing that a deferred display puts off. -/
  | settle (d : DisplayId) (callback : Option Callback)
  /-- Let the noted closings of a display happen. -/
  | flush (d : DisplayId) (settled waiting : List (Option Callback))
  /-- Call the handler of a display under this name, if there is one. -/
  | hook (name : Option String) (text : String)
  /-- Do what was to happen after closing. -/
  | callback (callback : Callback)
  /-- Publish an event on a bus. -/
  | publish (b : BusId) (event : Event LineRef)
  /-- Go on with the dispatch of a bus. -/
  | dispatch (b : BusId)
  /-- Dispatch what is in the queue of a bus; the event is the one dispatched before. -/
  | drain (b : BusId) (event : Event LineRef) (holds : List Listener)
  /-- Hand the event under way on a bus to a listener. -/
  | deliver (b : BusId) (listener : Listener)
  /-- Call a handler with a text. -/
  | call (h : HandlerId) (param : String)
  /-- Call a handler with the event under way on a bus. -/
  | callWith (h : HandlerId) (b : BusId)
  /-- The steps of a handler; `source` is the bus of the event it was called with. -/
  | script (h : HandlerId) (source : Option BusId) (steps : List Step)
  /-- A step inside a handler has returned. -/
  | returned (h : HandlerId) (step : String)
  /-- Open a display and make a session on it, over its own copy of a graph. -/
  | launch (m : ManagerId) (graph : Ref Graph) (d : DisplayId) (title : String)
      (node : Option String) (name : String)
  /-- Make a manager forget its sessions. -/
  | forget (m : ManagerId)
  /-- Perform a step of the host. -/
  | perform (step : Step)
  /-- Give a session its name in the host. -/
  | adopt (s : SessionId) (name : String) (answer : Answer)
  /-- Give an answer. -/
  | answer (a : Answer)
  /-- Hold on to a session. -/
  | hold (s : SessionId)

namespace Task

def listenerSessions (listeners : List Listener) : List SessionId :=
  listeners.filterMap fun listener =>
    match listener with
    | .input s _ => some s
    | _ => none

/-- The sessions that a task holds on to. -/
def sessions : Task → List SessionId
  | start s _ | proceed s | follow s _ _ | present s _ | fireShown s _ | load s _ _
  | finish s _ | handleAction s _ _ | leave s | adopt s _ _ | hold s => [s]
  | actions (.session s) _ => [s]
  | close _ cb | settle _ cb => World.callbackSessions cb
  | callback c => World.callbackSessions (some c)
  | flush _ settled waiting => (settled ++ waiting).flatMap World.callbackSessions
  | drain _ _ holds => listenerSessions holds
  | deliver _ listener => listenerSessions [listener]
  | _ => []

/-- The handlers that a task holds on to. -/
def handlers : Task → List HandlerId
  | finish _ onComplete => onComplete.toList
  | multicast called waiting _ => called ++ waiting
  | close _ cb | settle _ cb => World.callbackHandlers cb
  | callback c => World.callbackHandlers (some c)
  | flush _ settled waiting => (settled ++ waiting).flatMap World.callbackHandlers
  | drain _ _ holds => World.listenerHandlers holds
  | deliver _ listener => World.listenerHandlers [listener]
  | call h _ | callWith h _ | script h _ _ | returned h _ => [h]
  | _ => []

/-- The managers that a task holds on to. -/
def managers : Task → List ManagerId
  | launch m .. | forget m => [m]
  | _ => []

/-- The listeners that the dispatch of a task keeps. -/
def dispatchHolds (w : World) : Task → List Listener
  | dispatch b => (w.bus b).dispatching.elim [] Dispatch.holds
  | _ => []

/-- What a list of tasks holds on to. -/
def heldBy (w : World) (agenda : List Task) : World.Held where
  sessions := agenda.flatMap fun task =>
    task.sessions ++ listenerSessions (task.dispatchHolds w)
  handlers := agenda.flatMap fun task =>
    task.handlers ++ World.listenerHandlers (task.dispatchHolds w)
  managers := agenda.flatMap managers

end Task

end Parley
