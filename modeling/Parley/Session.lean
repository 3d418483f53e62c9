import Parley.Bus
import Parley.Config
import Parley.Graph

/-!
# Sessions

A session runs one conversation on one display.  It is idle until a node is started, then in
a node whose current line is on the screen, and ended after the last line or the end token.
A finished session has been torn down and moves no more.

This module holds the session as data and its moves as pure functions.  Showing lines,
reporting events and firing actions is left to the machine; a move only says what comes
next.
-/

namespace Parley

/-- The settings of a session or manager, by their number.  A manager shares its settings
with the sessions it starts. -/
structure ConfigId where
  index : Nat
  deriving DecidableEq, Repr

/-- Where a session is in its conversation.  The node is given by its key in the graph. -/
inductive Phase where
  | idle
  | inNode (key : String)
  | ended (key : String)
  deriving DecidableEq, Repr

namespace Phase

def name : Phase → String
  | idle => "IDLE"
  | inNode _ => "IN_NODE"
  | ended _ => "ENDED"

def key? : Phase → Option String
  | idle => none
  | inNode key => some key
  | ended key => some key

end Phase

/-- What a session keeps besides its conversation. -/
structure SessionState where
  /-- The name by which the host knows the session, if it has one. -/
  label : Option String := none
  display : DisplayId
  config : ConfigId
  bus : Bus := {}
  phase : Phase := .idle
  finished : Bool := false
  /-- The handlers of each action tag, in the order of registration. -/
  actions : Table String (List HandlerId) := Table.empty
  replacements : Table String String := Table.empty

/-- A session. -/
structure Session extends SessionState where
  graph : Option Graph := none
  /-- The graphs used before the present one; their lines may still be on the screen. -/
  shelved : List Graph := []

namespace Session

/-! ## Graphs, nodes and lines -/

/-- The number of the present graph among all graphs of the session. -/
def generation (session : Session) : Nat :=
  session.shelved.length

/-- All graphs of the session, the present one last. -/
def graphs (session : Session) : List Graph :=
  session.shelved ++ session.graph.toList

/-- A graph of the session by its number. -/
def graphAt? (session : Session) (n : Nat) : Option Graph :=
  session.graphs[n]?

/-- A line of the session by its place. -/
def line? (session : Session) (ref : LineRef) : Option Line := do
  let graph ← session.graphAt? ref.graph
  let node ← graph.nodes.get? ref.key
  node.lines[ref.index]?

def currentNode? (session : Session) : Option Node := do
  let graph ← session.graph
  let key ← session.phase.key?
  graph.nodes.get? key

/-- The session with a node of its present graph replaced. -/
def setNode (session : Session) (key : String) (node : Node) : Session :=
  { session with graph := session.graph.map fun graph => graph.modify key fun _ => node }

/-- The session over another graph, with no node active. -/
def replaceGraph (session : Session) (graph : Graph) : Session :=
  { session with
    shelved := session.shelved ++ session.graph.toList
    graph := some graph
    phase := .idle }

/-- A summary of the session for logs and debugging. -/
def summary (session : Session) : String :=
  match session.graph with
  | none => "[DialogueSession] - no conversation loaded"
  | some graph =>
    "[DialogueSession] state=" ++ session.phase.name ++ "\n" ++ graph.summary

/-! ## Moves -/

/-- What a move comes to. -/
inductive Move where
  /-- The move is refused with a report, and nothing changes. -/
  | refuse (report : LogEntry)
  /-- The move fails. -/
  | fail (session : Session) (failure : Failure)
  /-- A line is to be shown. -/
  | display (session : Session) (key : String) (index : Nat)
  /-- The conversation is over. -/
  | ended (session : Session)

def enter (session : Session) (key : String) (node : Node) : Move :=
  match node.currentLine with
  | .error failure => .fail (session.setNode key node) failure
  | .ok _ =>
    .display { session.setNode key node with phase := .inNode key } key node.cursor

def start (session : Session) (title : String) : Move :=
  if session.finished then
    .refuse ⟨.warning, "start_node('" ++ title ++ "') called on a finished session"⟩
  else
    match session.graph.bind fun graph => (graph.get? title).map (graph.key title, ·) with
    | none => .refuse ⟨.error, "Can't find node '" ++ title ++ "'"⟩
    | some (key, node) => session.enter key node.reset

/-- The report of input that comes at the wrong time. -/
def ignored (session : Session) (operation : String) : LogEntry :=
  ⟨.warning, operation ++ "() ignored while session is " ++ session.phase.name⟩

/-- The node that input applies to: the current one of an unfinished session that is in a
node. -/
def activeNode? (session : Session) : Option (String × Node) :=
  if session.finished then none
  else
    match session.phase with
    | .inNode key => session.currentNode?.map (key, ·)
    | _ => none

def endAt (session : Session) (key : String) : Session :=
  { session with phase := .ended key }

/-- Go on to the next line, or end the conversation after the last. -/
def proceed (session : Session) : Move :=
  match session.activeNode? with
  | none => .refuse (session.ignored "continue_pressed")
  | some (key, node) =>
    if node.hasNextLine then
      .display (session.setNode key node.forward) key node.forward.cursor
    else .ended (session.endAt key)

/-- Follow an option to its destination, a node or the end token. -/
def follow (session : Session) (config : Config) (optionKey destination : String) : Move :=
  match session.activeNode? with
  | none => .refuse (session.ignored "option_selected")
  | some (here, _) =>
    -- The end token ends the conversation even where a node has it for a title.
    if destination = config.endToken then .ended (session.endAt here)
    else
      match session.graph.bind fun graph =>
        (graph.get? destination).map (graph.key destination, ·) with
      | none =>
        .refuse ⟨.error, "'" ++ destination ++ "' (option '" ++ optionKey ++
          "') is not a conversation node nor the end token."⟩
      | some (key, node) =>
        session.enter key (if config.resetOnOption then node.reset else node)

/-! ## Actions -/

def handlersOf (session : Session) (tag : String) : List HandlerId :=
  (session.actions.get? tag).getD []

/-- Register a handler for an action tag; a second registration has no effect. -/
def registerAction (session : Session) (tag : String) (h : HandlerId) : Logged Session :=
  if h ∈ session.handlersOf tag then do
    Logged.report .debug ("Handler already registered for action '" ++ tag ++ "'")
    return session
  else
    return { session with actions := session.actions.insert tag (session.handlersOf tag ++ [h]) }

/-- Remove a handler from an action tag; a tag without handlers is no longer listed. -/
def removeAction (session : Session) (tag : String) (h : HandlerId) : Session :=
  let rest := (session.handlersOf tag).erase h
  { session with
    actions := if rest.isEmpty then session.actions.erase tag
      else session.actions.insert tag rest }

/-! ## Small facts -/

@[simp] theorem phase_setNode (session : Session) (key : String) (node : Node) :
    (session.setNode key node).phase = session.phase := rfl

@[simp] theorem phase_replaceGraph (session : Session) (graph : Graph) :
    (session.replaceGraph graph).phase = .idle := rfl

@[simp] theorem graph_replaceGraph (session : Session) (graph : Graph) :
    (session.replaceGraph graph).graph = some graph := rfl

end Session

end Parley
