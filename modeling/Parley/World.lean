import Parley.Memory
import Parley.Scenario.Step
import Parley.Script.Replacement

/-!
# Worlds

A world holds everything that conversations run on: the displays, the sessions with their
settings, the managers, the buses, and the handlers of the host with the names the host
knows them by.  Things are numbered in the order in which they were made and keep their
number for good.
-/

namespace Parley

/-- What is to happen once a display has closed. -/
inductive Callback where
  /-- A session takes note, and then a handler is called. -/
  | session (s : SessionId) (onComplete : Option HandlerId)
  /-- A handler is called. -/
  | handler (h : HandlerId)
  deriving DecidableEq, Repr

/-- A display. -/
structure Display where
  /-- The name by which the host knows the display. -/
  name : String
  title : String
  kind : DisplayKind
  bus : Bus := {}
  isOpen : Bool := false
  /-- The session that was attached last and not detached since. -/
  attached : Option SessionId := none
  /-- The line that a console shows. -/
  onScreen : Option LineRef := none
  /-- The closings that a deferred display has noted. -/
  pending : List (Option Callback) := []

/-- What a handler does when it is called. -/
inductive Behaviour where
  /-- For each round the number of calls it still lasts and the steps of each of them. -/
  | scripted (rounds : List (Nat × List Step))
  /-- Writes its argument between two texts. -/
  | printing (before after : String)

/-- A handler of the host. -/
structure Handler where
  name : String
  behaviour : Behaviour

/-- The steps of the next call, and the rounds left after it. -/
def nextRound : List (Nat × List Step) → List Step × List (Nat × List Step)
  | [] => ([], [])
  | (0, _) :: rest => nextRound rest
  | (n + 1, steps) :: rest => (steps, (n, steps) :: rest)

/-- Which bus. -/
inductive BusId where
  | display (d : DisplayId)
  | session (s : SessionId)
  | free (name : String)
  deriving DecidableEq, Repr

/-- Everything that conversations run on. -/
structure World where
  displays : List Display := []
  memory : Memory := .empty
  configs : List Config := []
  handlers : List Handler := []
  buses : Table String Bus := Table.empty
  manager : Option ManagerId := none
  displayNames : Table String DisplayId := Table.empty
  sessionNames : Table String SessionId := Table.empty
  handlerNames : Table String HandlerId := Table.empty

namespace World

/-! ## Looking things up -/

def sessions (w : World) : List Session :=
  w.memory.sessions

def managers (w : World) : List Manager :=
  w.memory.managers

def display? (w : World) (d : DisplayId) : Option Display :=
  w.displays[d.index]?

def session? (w : World) (s : SessionId) : Option Session :=
  w.sessions[s.index]?

def handler? (w : World) (h : HandlerId) : Option Handler :=
  w.handlers[h.index]?

def manager? (w : World) (m : ManagerId) : Option Manager :=
  w.managers[m.index]?

/-- What a reference to a graph leads to. -/
def graph (w : World) (g : Ref Graph) : Graph :=
  w.memory.store.graph g

/-- The graph that a manager has cached under a name, by reference. -/
def cached? (w : World) (m : ManagerId) (conversation : String) : Option (Ref Graph) :=
  (w.memory.managerCells[m.index]?).bind fun cell => cell.conversations.get? conversation

def config (w : World) (c : ConfigId) : Config :=
  w.configs.getD c.index {}

def configOf (w : World) (session : Session) : Config :=
  w.config session.config

/-- A bus; a free bus is there as soon as it is asked for. -/
def bus (w : World) : BusId → Bus
  | .display d => (w.display? d).elim {} Display.bus
  | .session s => (w.session? s).elim {} (·.bus)
  | .free name => (w.buses.get? name).getD {}

def line (w : World) (ref : LineRef) : Line :=
  ((w.session? ref.session).bind fun session => session.line? ref).getD {}

/-- An event as it is written down now. -/
def written (w : World) (event : Event LineRef) : Event Line :=
  event.map w.line

/-- The name under which a session is shown. -/
def labelOf (w : World) (s : SessionId) : String :=
  ((w.session? s).bind (·.label)).getD "?"

/-! ## Changing things -/

def modifyDisplay (w : World) (d : DisplayId) (f : Display → Display) : World :=
  { w with displays := w.displays.modify d.index f }

def modifySession (w : World) (s : SessionId) (f : Session → Session) : World :=
  { w with memory := w.memory.modifySession s f }

def modifyManager (w : World) (m : ManagerId) (f : Manager → Manager) : World :=
  { w with memory := w.memory.modifyManager m f }

def setHandler (w : World) (h : HandlerId) (handler : Handler) : World :=
  { w with handlers := w.handlers.modify h.index fun _ => handler }

def setConfig (w : World) (c : ConfigId) (config : Config) : World :=
  { w with configs := w.configs.modify c.index fun _ => config }

def modifyBus (w : World) (b : BusId) (f : Bus → Bus) : World :=
  match b with
  | .display d => w.modifyDisplay d fun display => { display with bus := f display.bus }
  | .session s => w.modifySession s fun session => { session with bus := f session.bus }
  | .free name => { w with buses := w.buses.insert name (f (w.bus (.free name))) }

/-! ## New things -/

/-- A new display, and its number. -/
def addDisplay (w : World) (display : Display) : World × DisplayId :=
  ({ w with displays := w.displays ++ [display] }, ⟨w.displays.length⟩)

/-- New settings, and their number. -/
def addConfig (w : World) (config : Config) : World × ConfigId :=
  ({ w with configs := w.configs ++ [config] }, ⟨w.configs.length⟩)

/-- A new handler, and its number. -/
def addHandler (w : World) (handler : Handler) : World × HandlerId :=
  ({ w with handlers := w.handlers ++ [handler] }, ⟨w.handlers.length⟩)

/-- A new manager, and its number. -/
def addManager (w : World) (manager : Manager) : World × ManagerId :=
  ({ w with memory := w.memory.addManager manager }, ⟨w.managers.length⟩)

/-- A bus on which a session hears of all input. -/
def listen (s : SessionId) (bus : Bus) : Bus :=
  ContextEvent.all.foldl
    (fun bus event => bus.subscribe (.context event) ⟨0, .input s event, true, false⟩) bus

/-- A bus on which a session no longer hears of input. -/
def unlisten (s : SessionId) (bus : Bus) : Bus :=
  ContextEvent.all.foldl
    (fun bus event => bus.unsubscribe (.context event) (.input s event)) bus

/-- A display with a session attached that hears of all input. -/
def attachTo (s : SessionId) (display : Display) : Display :=
  { display with attached := some s, bus := listen s display.bus }

/-- A new session with graphs of its own, which does not hear of input yet. -/
def enrol (w : World) (session : Session) : World :=
  { w with memory := w.memory.addSession session }

/-- A new session with graphs of its own. -/
def addSession (w : World) (session : Session) : World × SessionId :=
  let s : SessionId := ⟨w.sessions.length⟩
  ((w.enrol session).modifyDisplay session.display (attachTo s), s)

/-- A new session with a copy of a graph. -/
def addSessionOn (w : World) (state : SessionState) (g : Ref Graph) : World × SessionId :=
  let s : SessionId := ⟨w.sessions.length⟩
  (({ w with memory := w.memory.addSessionOn state g }).modifyDisplay state.display
    (attachTo s), s)

/-- A bus with the host's record of a session subscribed to all its events. -/
def observe (s : SessionId) (bus : Bus) : Bus :=
  DialogueEvent.all.foldl
    (fun bus event => bus.subscribe (.dialogue event) ⟨0, .observer s, false, false⟩) bus

/-- Give a session the name by which the host knows it, and record its events. -/
def adopt (w : World) (s : SessionId) (name : String) : World :=
  { w.modifySession s fun session =>
      { session with label := some name, bus := observe s session.bus } with
    sessionNames := w.sessionNames.insert name s }

/-! ## Looking up after a change -/

section Memory

variable (w : World)

@[simp] theorem sessions_modifySession (s : SessionId) (f : Session → Session) :
    (w.modifySession s f).sessions = w.sessions.modify s.index f :=
  (w.memory.read_modifySession s f).1

@[simp] theorem managers_modifySession (s : SessionId) (f : Session → Session) :
    (w.modifySession s f).managers = w.managers :=
  (w.memory.read_modifySession s f).2

@[simp] theorem sessions_modifyManager (m : ManagerId) (f : Manager → Manager) :
    (w.modifyManager m f).sessions = w.sessions :=
  (w.memory.read_modifyManager m f).1

@[simp] theorem managers_modifyManager (m : ManagerId) (f : Manager → Manager) :
    (w.modifyManager m f).managers = w.managers.modify m.index f :=
  (w.memory.read_modifyManager m f).2

@[simp] theorem sessions_addManager (manager : Manager) :
    (w.addManager manager).1.sessions = w.sessions :=
  (w.memory.read_addManager manager).1

@[simp] theorem managers_addManager (manager : Manager) :
    (w.addManager manager).1.managers = w.managers ++ [manager] :=
  (w.memory.read_addManager manager).2

@[simp] theorem sessions_enrol (session : Session) :
    (w.enrol session).sessions = w.sessions ++ [session] :=
  (w.memory.read_addSession session).1

@[simp] theorem managers_enrol (session : Session) : (w.enrol session).managers = w.managers :=
  (w.memory.read_addSession session).2

@[simp] theorem managers_addSession (session : Session) :
    (w.addSession session).1.managers = w.managers :=
  w.managers_enrol session

/-- A session on a copy of a graph has a graph of its own, which says the same with all cursors at
the first line. -/
theorem addSessionOn_eq (state : SessionState) (g : Ref Graph) :
    w.addSessionOn state g =
      w.addSession { toSessionState := state, graph := some (w.graph g).clone } := by
  unfold addSessionOn addSession enrol
  rw [Memory.addSessionOn_eq]
  rfl

/-- What is cached, by reference and by what the reference leads to. -/
theorem map_cached? (m : ManagerId) (conversation : String) :
    (w.cached? m conversation).map w.graph =
      (w.manager? m).bind fun manager => manager.conversations.get? conversation := by
  rw [manager?, managers, Memory.managers, List.getElem?_map, cached?]
  cases w.memory.managerCells[m.index]? with
  | none => rfl
  | some cell => exact (Table.get?_map w.graph cell.conversations conversation).symm

end Memory

theorem session?_modifySession (w : World) (s t : SessionId) (f : Session → Session) :
    (w.modifySession s f).session? t =
      if s = t then (w.session? t).map f else w.session? t := by
  obtain ⟨i⟩ := s
  obtain ⟨j⟩ := t
  by_cases h : i = j <;> simp [session?, h]

theorem display?_modifyDisplay (w : World) (d e : DisplayId) (f : Display → Display) :
    (w.modifyDisplay d f).display? e =
      if d = e then (w.display? e).map f else w.display? e := by
  obtain ⟨i⟩ := d
  obtain ⟨j⟩ := e
  by_cases h : i = j <;> simp [modifyDisplay, display?, h]

@[simp] theorem session?_modifyDisplay (w : World) (s : SessionId) (d : DisplayId)
    (f : Display → Display) : (w.modifyDisplay d f).session? s = w.session? s := rfl

@[simp] theorem session?_modifyManager (w : World) (s : SessionId) (m : ManagerId)
    (f : Manager → Manager) : (w.modifyManager m f).session? s = w.session? s := by
  rw [session?, sessions_modifyManager, session?]

@[simp] theorem manager?_modifySession (w : World) (m : ManagerId) (s : SessionId)
    (f : Session → Session) : (w.modifySession s f).manager? m = w.manager? m := by
  rw [manager?, managers_modifySession, manager?]

@[simp] theorem manager?_addSession (w : World) (m : ManagerId) (session : Session) :
    (w.addSession session).1.manager? m = w.manager? m := by
  rw [manager?, managers_addSession, manager?]

@[simp] theorem display?_modifySession (w : World) (d : DisplayId) (s : SessionId)
    (f : Session → Session) : (w.modifySession s f).display? d = w.display? d := rfl

end World

end Parley
