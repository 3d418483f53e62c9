import Parley.Machine.Conversation
import Parley.Machine.Delivery
import Parley.Machine.Names
import Parley.Machine.Screen
import Parley.Manager

/-!
# Performing the steps of a host

A step of a host names what it works on; a name that stands for nothing makes the step fail.
Steps that only look something up or change a setting answer at once.  The others put the
operation on the agenda and an answer behind it.
-/

namespace Parley.Machine

/-! ## Steps on sessions -/

/-- Cut the loops over the actions of a line off from the line. -/
def cutOff (line : LineRef) (had : List Action) : Task → Task
  | .actions sink (.live ref n) =>
    if ref = line then .actions sink (.frozen (had.drop n)) else .actions sink (.live ref n)
  | task => task

/-- The line whose actions a step removes some of. -/
def removesActions? (node : Node) : NodeStep → Option Nat
  | .line index (.removeAction _) => node.lineNumber? index
  | _ => none

/-- Perform a step on a node of a session. -/
def performNodeStep (m : Machine) (s : SessionId) (session : Session) (key : String)
    (node : Node) (step : NodeStep) : Machine :=
  let logged := step.run node
  let m := m.logAll logged.log
  match logged.value with
  | .error failure => m.fail failure
  | .ok (changed, answer) =>
    -- Loops over the actions of this line go on with the actions it had.
    let m := match removesActions? node step with
      | none => m
      | some n =>
        let had := (node.lines[n]?).elim [] Line.actions
        { m with agenda := m.agenda.map (cutOff ⟨s, session.generation, key, n⟩ had) }
    (m.setSession s (session.setNode key changed)).give answer

def performSession (m : Machine) (s : SessionId) (session : Session) :
    SessionStep → Machine
  | .load data start => m.push [.load s data start, .leave s, .answer .nothing]
  | .start title => m.push [.start s title, .leave s]
  | .proceed => m.push [.proceed s, .leave s, .answer .nothing]
  | .follow key destination => m.push [.follow s key destination, .leave s, .answer .nothing]
  | .registerAction tag handler =>
    m.withHandler handler fun h =>
      let logged := session.registerAction tag h
      ((m.logAll logged.log).setSession s logged.value).give .nothing
  | .removeAction tag handler =>
    m.withHandler handler fun h => (m.setSession s (session.removeAction tag h)).give .nothing
  | .actionHandlers tag => m.give (.texts (handlerNames m.world (session.handlersOf tag)))
  | .handleAction tag param =>
    m.push [.handleAction s tag param, .leave s, .answer .nothing]
  | .registerReplacement key text =>
    (m.setSession s { session with
      replacements := session.replacements.insert key text }).give .nothing
  | .removeReplacement key =>
    (m.setSession s { session with
      replacements := session.replacements.erase key }).give .nothing
  | .replacements => m.give (.replacements session.replacements)
  | .tagValues key =>
    match session.currentNode? with
    | none => m.give (.texts [])
    | some node =>
      let logged := node.tagValues key
      (m.logAll logged.log).give (.texts logged.value)
  | .summary => m.give (.text session.summary)
  | .titles => m.give (session.graph.elim .nothing fun graph => .texts graph.titles)
  | .display => m.give (.ofText? ((m.world.display? session.display).map Display.name))
  | .config none => m.give (.config (m.world.configOf session))
  | .config (some (name, value)) =>
    match (m.world.configOf session).assign name value with
    | .error failure => m.fail failure
    | .ok config =>
      (m.withWorld fun w => w.setConfig session.config config).give (.config config)
  | .finish onComplete =>
    m.withHandler? onComplete fun h => m.push [.finish s h, .leave s, .answer .nothing]
  | .fireActions place =>
    m.withLine s session place fun line =>
      m.push [.actions (.session s) (.live line 0), .leave s, .answer .nothing]
  | .node title step =>
    m.withNode session title fun key node => m.performNodeStep s session key node step

/-! ## Steps on displays -/

/-- The option with a number, counted from one. -/
def optionAt? (line : Line) (number : Int) : Option Choice :=
  if 1 ≤ number then line.options[(number - 1).toNat]? else none

def performDisplay (m : Machine) (now : List Task) (d : DisplayId) (display : Display) :
    DisplayStep → Machine
  | .openUp =>
    (m.withWorld fun w => w.modifyDisplay d fun display =>
      { display with isOpen := true }).give .nothing
  | .proceed =>
    m.push [.publish (.display d) { type := .context .continuePressed }, .answer .nothing]
  | .select key destination =>
    m.push [select key destination, .answer .nothing]
  | .action tag param =>
    m.push [tell ⟨tag, param⟩ (.display d), .answer .nothing]
  | .actions session place =>
    m.withSession session fun s session =>
      m.withLine s session place fun line =>
        m.push [.actions (.display d) (.live line 0), .answer .nothing]
  | .choose number =>
    match display.onScreen.bind fun line => optionAt? (m.world.line line) number with
    | none =>
      (m.report .warning ("No option " ++ toString number ++ " on the current line")).give
        (.flag false)
    | some choice => m.push [select choice.key choice.destination, .answer (.flag true)]
  | .currentLine => m.give (.ofLine? (display.onScreen.map m.world.line))
  | .replace text =>
    m.give (.text (Script.applyReplacements
      (m.world.replacementsOf (Task.heldBy m.world now) display) text))
  | .replacements =>
    m.give (.replacements (m.world.replacementsOf (Task.heldBy m.world now) display))
  | .close handler =>
    m.withHandler? handler fun h =>
      m.push [.close d (h.map .handler), .answer .nothing]
  | .flushClose =>
    (m.withWorld fun w => w.modifyDisplay d fun display => { display with pending := [] }).push
      [.flush d [] display.pending, .answer .nothing]
  | .attach session =>
    m.withSession session fun s _ =>
      (m.withWorld fun w => w.modifyDisplay d fun display =>
        { display with attached := some s }).give .nothing
  | .detach =>
    (m.withWorld fun w => w.modifyDisplay d fun display =>
      { display with attached := none }).give .nothing
  | .info => m.give (.display display.title false (-1))
where
  /-- Report that an option has been chosen. -/
  select (key destination : String) : Task :=
    .publish (.display d)
      { type := .context .optionSelected,
        data := [("key", .text key), ("destination", .text destination)] }

/-! ## Steps on buses -/

def performBus (m : Machine) (now : List Task) (b : BusId) : BusStep → Machine
  | .subscribe type handler priority oneShot weak =>
    m.withHandler handler fun h =>
      (m.withWorld fun w => w.modifyBus b fun bus =>
        bus.subscribe type ⟨priority, .handler h, weak, oneShot⟩).give .nothing
  | .unsubscribe type handler =>
    m.withHandler handler fun h =>
      (m.withWorld fun w => w.modifyBus b fun bus =>
        bus.unsubscribe type (.handler h)).give .nothing
  | .isSubscribed type handler =>
    m.withHandler handler fun h =>
      m.give (.flag ((m.world.bus b).isSubscribed type (.handler h)))
  | .count type =>
    m.give (.number ((m.world.bus b).count (m.world.alive (Task.heldBy m.world now)) type))
  | .publish type data => m.push [.publish b (event type data false)]
  | .publishEvent type data consumed => m.push [.publish b (event type data consumed)]
  | .clear type =>
    (m.withWorld fun w => w.modifyBus b fun bus => bus.clear type).give .nothing
where
  /-- An event with plain data. -/
  event (type : EventType) (data : List (String × Json.Value)) (consumed : Bool) :
      Event LineRef :=
    ⟨type, data.map fun (key, v) => (key, .value v), consumed⟩

/-! ## Steps on the manager -/

/-- The sessions of a manager that are not finished; the others are forgotten. -/
def activeSessions (w : World) (manager : Manager) : Table String SessionId :=
  manager.sessions.filterValues fun s => !(w.session? s).elim true (·.finished)

/-- Start a conversation on a display.  The session that the manager started there before is
finished first; it stays alive until all is done. -/
def converse (m : Machine) (id : ManagerId) (manager : Manager)
    (conversation title : String) (node : Option String) (name : String) : Machine :=
  match m.world.cached? id conversation with
  | none =>
    (m.report .error ("Conversation not found: " ++ conversation)).give .nothing
  | some graph =>
    match manager.displays.get? title with
    | none => (m.report .error ("Dialogue context not found: " ++ title)).give .nothing
    | some d =>
      let launch : Task := .launch id graph d title node name
      -- The previous session is forgotten first: a conversation started on the same display
      -- while it finishes is not taken for it.
      let m := m.withWorld fun w => w.modifyManager id fun manager =>
        { manager with sessions := manager.sessions.erase title }
      match manager.sessions.get? title with
      | none => m.push [launch]
      | some previous =>
        if (m.world.session? previous).elim true (·.finished) then
          m.push [launch, .hold previous]
        else
          (m.report .info
            ("Finishing previous session on context '" ++ title ++ "'")).push
            [.finish previous none, .leave previous, launch, .hold previous]

def performManager (m : Machine) (id : ManagerId) (manager : Manager) :
    ManagerStep → Machine
  | .register display =>
    m.withDisplay display fun d display =>
      let logged := manager.register display.title d
      (set (m.logAll logged.log) logged.value).give .nothing
  | .displayOf title =>
    m.give (.ofText? (((manager.displays.get? title).bind m.world.display?).map Display.name))
  | .add conversation data =>
    match manager.add (m.world.config manager.config) conversation data with
    | .error failure => m.fail failure
    | .ok logged =>
      (set (m.logAll logged.log) logged.value).give
        (.texts ((logged.value.conversations.get? conversation).elim [] Graph.titles))
  | .get conversation =>
    m.give ((manager.conversations.get? conversation).elim .nothing
      fun graph => .outline (Manager.outline graph))
  | .conversations => m.give (.texts manager.conversations.keys)
  | .loadFolder folder place =>
    let logged := manager.loadFolder (m.world.config manager.config) folder place
    (set (m.logAll logged.log) logged.value.1).give (.number logged.value.2)
  | .start conversation title node name => m.converse id manager conversation title node name
  | .active =>
    let active := activeSessions m.world manager
    (set m { manager with sessions := active }).give
      (.texts (active.values.map m.world.labelOf))
  | .endAll =>
    let active := activeSessions m.world manager
    -- All of them are held until the last one has finished.
    (set m { manager with sessions := active }).push
      (active.values.flatMap (fun s => [.finish s none, .leave s]) ++
        active.values.map .hold ++ [.forget id, .answer .nothing])
where
  /-- The machine with the manager changed. -/
  set (m : Machine) (manager : Manager) : Machine :=
    m.withWorld fun w => w.modifyManager id fun _ => manager

/-! ## Steps on the world -/

/-- Make a session and name it.  One that fails to load or start is not named. -/
def newSession (m : Machine) (name : String) (d : DisplayId) (config : Config)
    (source : SessionSource) : Machine :=
  match source with
  | .graph none => make m none []
  | .graph (some data) =>
    match Graph.load config.caseSensitiveTitles data with
    | .error failure => m.fail failure
    | .ok loaded => make (m.logAll loaded.log) (some loaded.value) []
  | .records data start => make m none [(data, start)]
where
  /-- Make the session over a graph; what is to be loaded comes before the naming. -/
  make (m : Machine) (graph : Option Graph) (data : List (Json.Value × Option String)) :
      Machine :=
    let (w, c) := m.world.addConfig config
    let (w, s) := w.addSession { display := d, config := c, graph }
    { m with world := w }.push
      (data.map (fun (data, start) => Task.load s data start) ++ [Task.adopt s name .nothing])

/-- Perform a step of a host.  Consuming an event and failing are steps for handlers only. -/
def perform (m : Machine) (now : List Task) : Step → Machine
  | .define name rounds =>
    let (w, h) := m.world.addHandler ⟨name, .scripted rounds⟩
    { m with world := { w with handlerNames := w.handlerNames.insert name h } }.give .nothing
  | .dropHandler name =>
    m.withHandler name fun _ =>
      (m.withWorld fun w => { w with handlerNames := w.handlerNames.erase name }).give .nothing
  | .newDisplay name title kind =>
    let (w, d) := m.world.addDisplay { name, title, kind }
    { m with world := { w with displayNames := w.displayNames.insert name d } }.give .nothing
  | .newSession name display settings source =>
    m.withDisplay display fun d _ =>
      m.withSettings settings fun config => m.newSession name d config source
  | .dropSession name =>
    m.withSession name fun _ _ =>
      (m.withWorld fun w => { w with sessionNames := w.sessionNames.erase name }).give .nothing
  | .newManager settings =>
    m.withSettings settings fun config =>
      let (w, c) := m.world.addConfig config
      let (w, id) := w.addManager { config := c }
      { m with world := { w with manager := some id } }.give .nothing
  | .session name step => m.withSession name fun s session => m.performSession s session step
  | .display name step =>
    m.withDisplay name fun d display => m.performDisplay now d display step
  | .bus name step => m.withBus name fun b => m.performBus now b step
  | .manager step =>
    match m.world.manager.bind fun id => (m.world.manager? id).map (id, ·) with
    | none => m.fail .unknownName
    | some (id, manager) => m.performManager id manager step
  | .consume | .fail .. | .unknown _ => m.fail .unknownName

end Parley.Machine
