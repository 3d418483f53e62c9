import Parley.World

/-!
# Who is alive

Things stay in the world for good, but what a weak subscription leads to, and what a display
knows of its session, depends on whether the session or handler is still referred to: by the
host, by a manager, by a display that has yet to close, or by the work in progress.
-/

namespace Parley.World

def callbackSessions : Option Callback → List SessionId
  | some (.session s _) => [s]
  | _ => []

def callbackHandlers : Option Callback → List HandlerId
  | some (.session _ onComplete) => onComplete.toList
  | some (.handler h) => [h]
  | none => []

/-- What is referred to from outside the world, by the work in progress. -/
structure Held where
  sessions : List SessionId := []
  handlers : List HandlerId := []
  managers : List ManagerId := []
  deriving Repr

/-- The sessions that are alive: those in use, those named by the host, those of a manager
that is in use, and those waiting for a display to close. -/
def liveSessions (w : World) (held : Held) : List SessionId :=
  held.sessions ++ w.sessionNames.values ++
    (w.manager.toList ++ held.managers).flatMap (fun m =>
      (w.manager? m).elim [] fun manager => manager.sessions.values) ++
    w.displays.flatMap fun display => display.pending.flatMap callbackSessions

def listenerHandlers (listeners : List Listener) : List HandlerId :=
  listeners.filterMap fun listener =>
    match listener with
    | .handler h => some h
    | _ => none

/-- The handlers that are alive: those in use, those named by the host, those waiting for a
display to close, those subscribed firmly, and those registered for actions. -/
def liveHandlers (w : World) (held : Held) : List HandlerId :=
  held.handlers ++ w.handlerNames.values ++
    w.displays.flatMap (fun display =>
      display.pending.flatMap callbackHandlers ++ listenerHandlers display.bus.holds) ++
    w.buses.values.flatMap (fun bus => listenerHandlers bus.holds) ++
    (w.liveSessions held).flatMap fun s =>
      (w.session? s).elim [] fun session =>
        listenerHandlers session.bus.holds ++ session.actions.values.flatten

def sessionAlive (w : World) (held : Held) (s : SessionId) : Bool :=
  (w.liveSessions held).contains s

/-- Whether a listener is alive.  The host's record of a session is held firmly. -/
def alive (w : World) (held : Held) : Listener → Bool
  | .handler h => (w.liveHandlers held).contains h
  | .observer _ => true
  | .input s _ => w.sessionAlive held s

/-- The session of a display, if it is alive. -/
def attachedTo (w : World) (held : Held) (display : Display) : Option SessionId :=
  display.attached.filter (w.sessionAlive held)

/-- The replacement texts that a display works with: those of its session. -/
def replacementsOf (w : World) (held : Held) (display : Display) : Table String String :=
  ((w.attachedTo held display).bind w.session?).elim Table.empty (·.replacements)

end Parley.World
