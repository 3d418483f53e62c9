import Parley.Machine.Basic

/-!
# The tasks of buses and handlers

An event is dispatched at once, or queued while its bus is calling listeners.  A dispatch
calls its listeners one by one and cleans up; then the queue is dispatched, each event before
the next.  A session hears of input by a listener of its own; a handler of the host goes
through its steps.
-/

namespace Parley.Machine

/-! ## Buses -/

/-- Publish an event.  While the bus is calling listeners it has to wait. -/
def publish (m : Machine) (b : BusId) (event : Event LineRef) : Machine :=
  if (m.world.bus b).isPublishing then
    (m.withWorld fun w => w.modifyBus b fun bus => bus.enqueue event).give
      (.event (m.world.written event))
  else
    (m.withWorld fun w => w.modifyBus b fun bus => bus.beginDispatch event).push
      [.dispatch b]

/-- Go on with a dispatch: hand the event to the next listener, or clean up. -/
def dispatch (m : Machine) (now : List Task) (b : BusId) : Machine :=
  match (m.world.bus b).dispatching with
  | none => m
  | some d =>
    -- The dispatch still counts as work in progress when it asks who is alive, so a listener
    -- that has just been called is not lost in between.
    let d := d.settle.next (m.world.alive (Task.heldBy m.world now))
    match d.calling with
    | some sub =>
      (m.withWorld fun w => w.modifyBus b fun bus => bus.modifyDispatch fun _ => d).push
        [.deliver b sub.listener, .dispatch b]
    | none =>
      (m.withWorld fun w => w.modifyBus b fun bus => bus.endDispatch d).push
        [.drain b d.event d.holds]

/-- Dispatch the first event of the queue; without one the bus is done. -/
def drain (m : Machine) (b : BusId) (event : Event LineRef) (holds : List Listener) :
    Machine :=
  match (m.world.bus b).queue with
  | [] => m.give (.event (m.world.written event))
  | first :: rest =>
    (m.withWorld fun w => w.modifyBus b fun bus =>
      { bus with queue := rest }.beginDispatch first).push
      [.dispatch b, .drain b event holds]

def input (s : SessionId) (event : Event LineRef) : ContextEvent → Task
  | .continuePressed => .proceed s
  | .optionSelected => .follow s (event.textOf "key") (event.textOf "destination")
  | .actionEncountered => .handleAction s (event.textOf "tag") (event.textOf "param")

/-- Hand the event under way on a bus to a listener. -/
def deliver (m : Machine) (b : BusId) (listener : Listener) : Machine :=
  match (m.world.bus b).dispatching with
  | none => m
  | some d =>
    match listener with
    | .handler h => m.push [.callWith h b]
    | .observer s =>
      m.emit [.event (m.world.labelOf s) d.event.type (m.world.written d.event).data]
    | .input s kind => m.push [input s d.event kind, .leave s]

/-! ## Handlers -/

def argumentText : Argument → String
  | .text s => s
  | .event event => event.type.name

def runHandler (m : Machine) (h : HandlerId) (source : Option BusId) (argument : Argument) :
    Machine :=
  match m.world.handler? h with
  | none => m.fail .unknownName
  | some handler =>
    match handler.behaviour with
    | .printing before after =>
      m.emit [.out "" (before ++ argumentText argument ++ after ++ "\n")]
    | .scripted rounds =>
      let (steps, rest) := nextRound rounds
      ((m.emit [.call handler.name argument]).withWorld fun w =>
        w.setHandler h { handler with behaviour := .scripted rest }).push
        [.script h source steps]

/-- Call a handler with the event under way on a bus. -/
def callWith (m : Machine) (h : HandlerId) (b : BusId) : Machine :=
  match (m.world.bus b).dispatching with
  | none => m
  | some d => m.runHandler h (some b) (.event (m.world.written d.event))

/-- Go on with the steps of a handler. -/
def script (m : Machine) (h : HandlerId) (source : Option BusId) (steps : List Step) :
    Machine :=
  match steps with
  | [] => m
  | .consume :: rest =>
    (match source with
    | some b => m.withWorld fun w => w.modifyBus b Bus.consume
    | none => m).push [.script h source rest]
  | .fail kind message :: _ => m.fail (.raised kind message)
  | step :: rest =>
    m.push [.perform step, .returned h step.name, .script h source rest]

def returned (m : Machine) (h : HandlerId) (step : String) : Machine :=
  match m.result with
  | .error _ => m
  | .ok answer =>
    m.emit [.returned ((m.world.handler? h).elim "" Handler.name) step answer]

end Parley.Machine
