import Parley.Graph

/-!
# Graphs, nodes and lines by reference

A store holds lines, nodes and graphs under numbers of their own.  A node refers to its lines
and a graph to its nodes, so that a change made through one reference is seen through every
other reference to the same thing.  Whoever is to have a graph of its own needs a copy, with
copies of the nodes and of their lines.
-/

namespace Parley

/-- A reference to a thing of a kind, by its number. -/
structure Ref (α : Type) where
  index : Nat
  deriving Repr

instance {α : Type} : DecidableEq (Ref α)
  | ⟨i⟩, ⟨j⟩ => decidable_of_iff (i = j) (by simp)

/-- A node with references to its lines. -/
structure NodeCell where
  title : String := ""
  lines : List (Ref Line) := []
  tags : Tags := Table.empty
  cursor : Nat := 0

/-- A graph with references to its nodes. -/
structure GraphCell where
  caseSensitive : Bool := true
  nodes : Table String (Ref Node) := Table.empty

/-- Lines, nodes and graphs, in the order in which they were made. -/
structure Store where
  lines : List Line := []
  nodes : List NodeCell := []
  graphs : List GraphCell := []

namespace Store

variable {α ρ : Type}

/-! ## What references lead to -/

def line (st : Store) (l : Ref Line) : Line :=
  st.lines.getD l.index {}

def nodeCell (st : Store) (n : Ref Node) : NodeCell :=
  st.nodes.getD n.index {}

def node (st : Store) (n : Ref Node) : Node :=
  let cell := st.nodeCell n
  { title := cell.title, lines := cell.lines.map st.line, tags := cell.tags,
    cursor := cell.cursor }

def graphCell (st : Store) (g : Ref Graph) : GraphCell :=
  st.graphs.getD g.index {}

def graph (st : Store) (g : Ref Graph) : Graph :=
  let cell := st.graphCell g
  { caseSensitive := cell.caseSensitive, nodes := cell.nodes.map st.node }

/-! ## New things -/

/-- Go through a list, collecting a reference for each element. -/
def each (f : Store → α → Store × ρ) : Store → List α → Store × List ρ
  | st, [] => (st, [])
  | st, a :: rest =>
    let (st, ref) := f st a
    let (st, refs) := each f st rest
    (st, ref :: refs)

def addLine (st : Store) (line : Line) : Store × Ref Line :=
  ({ st with lines := st.lines ++ [line] }, ⟨st.lines.length⟩)

def addNodeCell (st : Store) (cell : NodeCell) : Store × Ref Node :=
  ({ st with nodes := st.nodes ++ [cell] }, ⟨st.nodes.length⟩)

def addNode (st : Store) (node : Node) : Store × Ref Node :=
  let (st, lines) := each addLine st node.lines
  st.addNodeCell { title := node.title, lines, tags := node.tags, cursor := node.cursor }

def addGraphCell (st : Store) (cell : GraphCell) : Store × Ref Graph :=
  ({ st with graphs := st.graphs ++ [cell] }, ⟨st.graphs.length⟩)

def addGraph (st : Store) (graph : Graph) : Store × Ref Graph :=
  let (st, nodes) := each addNode st graph.nodes.values
  st.addGraphCell
    { caseSensitive := graph.caseSensitive, nodes := ⟨graph.nodes.keys.zip nodes⟩ }

/-! ## Copies -/

def copyLine (st : Store) (l : Ref Line) : Store × Ref Line :=
  st.addLine (st.line l)

/-- A copy of a node with its own lines and a fresh cursor.  The tags are never changed and
need no copy. -/
def copyNode (st : Store) (n : Ref Node) : Store × Ref Node :=
  let cell := st.nodeCell n
  let (st, lines) := each copyLine st cell.lines
  st.addNodeCell { cell with lines, cursor := 0 }

/-- A copy of a graph with its own nodes. -/
def copyGraph (st : Store) (g : Ref Graph) : Store × Ref Graph :=
  let cell := st.graphCell g
  let (st, nodes) := each copyNode st cell.nodes.values
  st.addGraphCell { cell with nodes := ⟨cell.nodes.keys.zip nodes⟩ }

/-! ## Changes in place -/

/-- Put things where references lead; what is left without a reference is added. -/
def putAll (put : Store → Ref α → α → Store) (add : Store → α → Store × Ref α) :
    Store → List (Ref α) → List α → Store × List (Ref α)
  | st, _, [] => (st, [])
  | st, [], as => each add st as
  | st, ref :: refs, a :: as =>
    let (st, rest) := putAll put add (put st ref a) refs as
    (st, ref :: rest)

def putLine (st : Store) (l : Ref Line) (line : Line) : Store :=
  { st with lines := st.lines.set l.index line }

def putNodeCell (st : Store) (n : Ref Node) (cell : NodeCell) : Store :=
  { st with nodes := st.nodes.set n.index cell }

def putNode (st : Store) (n : Ref Node) (node : Node) : Store :=
  let (st, lines) := putAll putLine addLine st (st.nodeCell n).lines node.lines
  st.putNodeCell n { title := node.title, lines, tags := node.tags, cursor := node.cursor }

def putGraphCell (st : Store) (g : Ref Graph) (cell : GraphCell) : Store :=
  { st with graphs := st.graphs.set g.index cell }

def putGraph (st : Store) (g : Ref Graph) (graph : Graph) : Store :=
  let (st, nodes) := putAll putNode addNode st (st.graphCell g).nodes.values graph.nodes.values
  st.putGraphCell g
    { caseSensitive := graph.caseSensitive, nodes := ⟨graph.nodes.keys.zip nodes⟩ }

/-- Put graphs where references lead; what is left without a reference is added. -/
def putGraphs : Store → List (Ref Graph) → List Graph → Store × List (Ref Graph) :=
  putAll putGraph addGraph

/-! ## Tables of graphs -/

/-- A reference to a graph under a key.  If the graph that the table has there is the same, it is
not stored again. -/
def keep (cached : Table String (Ref Graph)) (st : Store) (entry : String × Graph) :
    Store × (String × Ref Graph) :=
  match (cached.get? entry.1).filter fun g => st.graph g = entry.2 with
  | some g => (st, entry.1, g)
  | none =>
    let (st, g) := st.addGraph entry.2
    (st, entry.1, g)

/-- The store after all graphs of a table have been stored, and the references to them. -/
def keepAll (st : Store) (cached : Table String (Ref Graph)) (graphs : Table String Graph) :
    Store × Table String (Ref Graph) :=
  let (st, entries) := each (keep cached) st graphs.entries
  (st, ⟨entries⟩)

end Store

end Parley
