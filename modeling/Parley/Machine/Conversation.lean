import Parley.Machine.Basic

/-!
# The tasks of sessions and managers

A session moves by a pure move and leaves the rest as tasks: the display is told first, then
the event is reported, then the actions of the line fire.  What these calls do to the session
in between is done by the time the next task is reached.
-/

namespace Parley.Machine

/-! ## Moves -/

/-- Carry out a move of a session: `shown` says what follows once a line is to be shown. -/
def carryOut (m : Machine) (s : SessionId) (refused : Option Answer) (move : Session.Move)
    (shown : Session → LineRef → Machine → Machine) : Machine :=
  match move with
  | .refuse entry =>
    let m := m.logAll [entry]
    match refused with
    | some answer => m.give answer
    | none => m
  | .fail session failure => (m.setSession s session).fail failure
  | .display session key index =>
    shown session ⟨s, session.generation, key, index⟩ (m.setSession s session)
  | .ended session =>
    ((m.setSession s session).report .info "Conversation over").push
      [.showOver session.display, .publish (.session s) { type := .dialogue .dialogueOver }]

def start (m : Machine) (s : SessionId) (title : String) : Machine :=
  match m.world.session? s with
  | none => m.fail .unknownName
  | some session =>
    m.carryOut s (some (.flag false)) (session.start title) fun session line m =>
      let title := (session.currentNode?).elim "" Node.title
      (m.report .info ("Starting conversation node '" ++ title ++ "'")).push
        [.showNode session.display title,
          .publish (.session s)
            { type := .dialogue .nodeEntered, data := [("node", .node title)] },
          .present s line, .answer (.flag true)]

def proceed (m : Machine) (s : SessionId) : Machine :=
  match m.world.session? s with
  | none => m.fail .unknownName
  | some session =>
    m.carryOut s none session.proceed fun _ line m => m.push [.present s line]

def follow (m : Machine) (s : SessionId) (key destination : String) : Machine :=
  match m.world.session? s with
  | none => m.fail .unknownName
  | some session =>
    m.carryOut s none (session.follow (m.world.configOf session) key destination)
      fun _ line m => m.push [.present s line]

/-- Show a line and report it; its actions come after that. -/
def present (m : Machine) (s : SessionId) (line : LineRef) : Machine :=
  match m.world.session? s with
  | none => m.fail .unknownName
  | some session =>
    m.push [.showLine session.display line,
      .publish (.session s)
        { type := .dialogue .lineDisplayed, data := [("line", .line line)] },
      .fireShown s line]

/-- Fire the actions of a line that has been shown, if the settings say so by now. -/
def fireShown (m : Machine) (s : SessionId) (line : LineRef) : Machine :=
  match m.world.session? s with
  | none => m.fail .unknownName
  | some session =>
    if (m.world.configOf session).dispatchActionsOnDisplay then
      m.push [.actions (.session s) (.live line 0)]
    else m

def load (m : Machine) (s : SessionId) (data : Json.Value) (start : Option String) :
    Machine :=
  match m.world.session? s with
  | none => m.fail .unknownName
  | some session =>
    match Graph.load (m.world.configOf session).caseSensitiveTitles data with
    | .error failure => m.fail failure
    | .ok loaded =>
      ((m.logAll loaded.log).setSession s (session.replaceGraph loaded.value)).push
        (start.toList.map (Task.start s))

/-- Tear a session down: it no longer hears of input, forgets its action handlers and asks
its display to close. -/
def finish (m : Machine) (s : SessionId) (onComplete : Option HandlerId) : Machine :=
  match m.world.session? s with
  | none => m.fail .unknownName
  | some session =>
    if session.finished then
      m.report .warning "finish() called on an already finished session"
    else
      let m := m.withWorld fun w =>
        (w.modifyDisplay session.display fun display =>
          { display with bus := World.unlisten s display.bus }).modifySession s
          fun session => { session with finished := true, actions := Table.empty }
      m.push [.close session.display (some (.session s onComplete))]

/-- Fire the handlers that are registered for an action now. -/
def handleAction (m : Machine) (s : SessionId) (tag param : String) : Machine :=
  match m.world.session? s with
  | none => m.fail .unknownName
  | some session => m.push [.multicast [] (session.handlersOf tag) param]

/-- The next action of a loop, and where the loop stands after it. -/
def nextAction (w : World) : Course → Option (Action × Course)
  | .live line n => ((w.line line).actions[n]?).map fun action => (action, .live line (n + 1))
  | .frozen [] => none
  | .frozen (action :: rest) => some (action, .frozen rest)

/-- The task by which an action is told. -/
def tell (action : Action) : Sink → Task
  | .session s => .handleAction s action.tag action.param
  | .display d =>
    .publish (.display d)
      { type := .context .actionEncountered,
        data := [("tag", .text action.tag), ("param", .text action.param)] }

def actions (m : Machine) (sink : Sink) (course : Course) : Machine :=
  match nextAction m.world course with
  | none => m
  | some (action, rest) => m.push [tell action sink, .actions sink rest]

def multicast (m : Machine) (called waiting : List HandlerId) (param : String) : Machine :=
  match waiting with
  | [] => m
  | h :: rest => m.push [.call h param, .multicast (called ++ [h]) rest param]

/-! ## Managers -/

/-- Open a display and make a session on it, over its own copy of a graph.  The manager
remembers the session before a node is started. -/
def launch (m : Machine) (manager : ManagerId) (graph : Ref Graph) (d : DisplayId)
    (title : String) (node : Option String) (name : String) : Machine :=
  match m.world.manager? manager with
  | none => m.fail .unknownName
  | some settings =>
    -- The display is open before the session is there, and the manager knows the session
    -- before a node is started, so that handlers called on the way find both in place.
    let opened := m.world.modifyDisplay d fun display => { display with isOpen := true }
    let (w, s) := opened.addSessionOn { display := d, config := settings.config } graph
    let w := w.modifyManager manager fun manager =>
      { manager with sessions := manager.sessions.insert title s }
    { m with world := w }.push
      (node.toList.map (Task.start s) ++ [Task.adopt s name (.text name)])

/-- The new session has a graph of its own, which says what the one says that it is a copy of. -/
theorem launch_eq (m : Machine) (manager : ManagerId) (graph : Ref Graph) (d : DisplayId)
    (title : String) (node : Option String) (name : String) :
    m.launch manager graph d title node name =
      match m.world.manager? manager with
      | none => m.fail .unknownName
      | some settings =>
        let opened := m.world.modifyDisplay d fun display => { display with isOpen := true }
        let (w, s) := opened.addSession
          { display := d, config := settings.config,
            graph := some (m.world.graph graph).clone }
        let w := w.modifyManager manager fun manager =>
          { manager with sessions := manager.sessions.insert title s }
        { m with world := w }.push
          (node.toList.map (Task.start s) ++ [Task.adopt s name (.text name)]) := by
  unfold launch
  simp only [World.addSessionOn_eq]
  rfl

def forget (m : Machine) (manager : ManagerId) : Machine :=
  m.withWorld fun w => w.modifyManager manager fun manager =>
    { manager with sessions := Table.empty }

end Parley.Machine
