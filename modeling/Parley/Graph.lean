import Parley.Node
import Parley.Text.Fold

/-!
# Conversation graphs

A graph holds the nodes of a conversation, looked up by title.  Titles are compared as they
are or up to case.  A node replaces an earlier one of the same title and takes its place in
the order.
-/

namespace Parley

/-- A conversation: its nodes under the keys of their titles. -/
structure Graph where
  caseSensitive : Bool := true
  nodes : Table String Node := Table.empty
  deriving DecidableEq, Repr, Inhabited

namespace Graph

/-- The key under which a title is looked up. -/
def keyOf (caseSensitive : Bool) (title : String) : String :=
  if caseSensitive then title else Text.caseFold title

/-- The key of a title in this graph. -/
def key (graph : Graph) (title : String) : String :=
  keyOf graph.caseSensitive title

def get? (graph : Graph) (title : String) : Option Node :=
  graph.nodes.get? (graph.key title)

/-- Whether there is a node of this title. -/
def contains (graph : Graph) (title : String) : Bool :=
  graph.nodes.contains (graph.key title)

/-- The titles of the nodes, in order. -/
def titles (graph : Graph) : List String :=
  graph.nodes.values.map Node.title

def size (graph : Graph) : Nat :=
  graph.nodes.size

/-- The reports made when a node is added. -/
def addNotices (graph : Graph) (node : Node) : List LogEntry :=
  (if graph.contains node.title then
    [⟨.warning, "Duplicate conversation node '" ++ node.title ++
      "'; replacing earlier node."⟩] else []) ++
  (if node.lines.isEmpty then
    [⟨.warning, "Conversation node '" ++ node.title ++ "' has no dialogue lines."⟩] else [])

/-- Add a node, replacing an earlier one of the same title. -/
def add (graph : Graph) (node : Node) : Logged Graph :=
  ⟨{ graph with nodes := graph.nodes.insert (graph.key node.title) node },
    graph.addNotices node⟩

def addRecord (graph : Graph) (record : Record) : Logged Graph := do
  let node ← Node.ofRecord record
  graph.add node

def ofRecords (caseSensitive : Bool) (records : List Record) : Logged Graph := do
  let graph ← records.foldlM addRecord { caseSensitive }
  Logged.report .info ("Loaded conversation with " ++ toString graph.size ++ " nodes.")
  return graph

def load (caseSensitive : Bool) (data : Json.Value) : Except Failure (Logged Graph) :=
  (Record.listOfValue data).map (ofRecords caseSensitive)

/-- The graph of a conversation in JSON text. -/
def ofJson (caseSensitive : Bool) (text : String) : Except Failure (Logged Graph) :=
  ((Json.read text.toList).mapError (.ofReadError .notJsonText)).bind (load caseSensitive)

/-- A copy of the graph whose nodes all have fresh cursors. -/
def clone (graph : Graph) : Graph :=
  { graph with nodes := graph.nodes.map Node.clone }

/-- The graph with the node under a key changed. -/
def modify (graph : Graph) (key : String) (f : Node → Node) : Graph :=
  { graph with nodes := graph.nodes.modify key f }

/-- A summary of the graph: its titles, one in each row. -/
def summary (graph : Graph) : String :=
  "[ConversationGraph] - Nodes:\n" ++ String.intercalate "\n" graph.titles

end Graph

end Parley
