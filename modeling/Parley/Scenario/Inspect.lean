import Parley.Scenario.Answer

/-!
# Steps on lines, nodes and graphs

The operations of lines, nodes and graphs as data, each with its answer.  A step that fails
changes nothing.
-/

namespace Parley

/-! ## Lines -/

/-- A step on a line. -/
inductive LineStep where
  | setText (text : String)
  | setSpeaker (speaker : String)
  | addOption (choice : Choice)
  | removeOption (key : String)
  | addAction (action : Action)
  | removeAction (tag : String)
  | flags
  | summary
  deriving DecidableEq, Repr

namespace LineStep

def apply (line : Line) : LineStep → Line
  | setText text => { line with text }
  | setSpeaker speaker => { line with speaker }
  | addOption choice => line.addOptions [choice]
  | removeOption key => line.removeOption key
  | addAction action => line.addActions [action]
  | removeAction tag => line.removeAction tag
  | flags => line
  | summary => line

def answer (line : Line) : LineStep → Answer
  | flags => .flags [line.hasChoices, line.choicesOnly, line.hasActions]
  | summary => .text line.summary
  | _ => .nothing

end LineStep

/-! ## Nodes -/

/-- A step on a node. -/
inductive NodeStep where
  | reset
  | currentLine
  | advance
  | hasNextLine
  | hasLine (index : Int)
  | seek (index : Int)
  | tagValues (key : String)
  | size
  | summary
  | formatTags
  | view
  | line (index : Int) (edit : LineStep)
  | clone
  deriving DecidableEq, Repr

/-- The number of a line counted from the front, or from the back if negative. -/
def Node.lineNumber? (node : Node) (index : Int) : Option Nat :=
  let n := if index < 0 then index + node.size else index
  if node.hasLine n then some n.toNat else none

namespace NodeStep

/-- A step on a node: the node after it and the answer. -/
def run (node : Node) : NodeStep → Logged (Except Failure (Node × Answer))
  | reset => return .ok (node.reset, .nothing)
  | currentLine => return node.currentLine.map fun l => (node, .line l)
  | advance => return node.advance.map fun (node, l) => (node, .ofLine? l)
  | hasNextLine => return .ok (node, .flag node.hasNextLine)
  | hasLine index => return .ok (node, .flag (node.hasLine index))
  | seek index => do
    let (node, moved) ← node.seek index
    return .ok (node, .flag moved)
  | tagValues key => do
    let values ← node.tagValues key
    return .ok (node, .texts values)
  | size => return .ok (node, .number node.size)
  | summary => return .ok (node, .text node.summary)
  | formatTags => return .ok (node, .text (String.ofList (Script.formatTags node.tags)))
  | view => return .ok (node, .node node)
  | line index edit =>
    match node.lineNumber? index with
    | none => return .error .noSuchLine
    | some n =>
      return .ok (node.modifyLine n edit.apply, edit.answer (node.lines.getD n {}))
  | clone => return .ok (node, .nothing)

end NodeStep

/-! ## Several named nodes -/

/-- A step on one of several named nodes.  A clone is entered under a name of its own. -/
def stepNode (nodes : Table String Node) (on : String) (step : NodeStep)
    (cloneName : String) : Logged (Except Failure (Table String Node × Answer)) :=
  match nodes.get? on with
  | none => return .error .unknownName
  | some node =>
    if step = .clone then return .ok (nodes.insert cloneName node.clone, .nothing)
    else do
      let result ← step.run node
      return result.map fun (node, answer) => (nodes.insert on node, answer)

/-! ## Graphs -/

/-- A step on a graph. -/
inductive GraphStep where
  | get (title : String)
  | contains (title : Json.Value)
  | size
  | titles
  | nodes
  | summary
  | add (record : Record)
  | node (title : String) (step : NodeStep)
  | clone (name : String)
  deriving Repr

namespace GraphStep

/-- Whether a value is the title of a node; only texts are titles. -/
def isTitle (graph : Graph) : Json.Value → Bool
  | .string title => graph.contains title
  | _ => false

/-- A step on one of several named graphs. -/
def run (graphs : Table String Graph) (on : String) (step : GraphStep) :
    Logged (Except Failure (Table String Graph × Answer)) :=
  match graphs.get? on with
  | none => return .error .unknownName
  | some graph =>
    match step with
    | get title => return .ok (graphs, .ofNode? (graph.get? title))
    | contains title => return .ok (graphs, .flag (isTitle graph title))
    | size => return .ok (graphs, .number graph.size)
    | titles => return .ok (graphs, .texts graph.titles)
    | nodes => return .ok (graphs, .nodes graph.nodes.values)
    | summary => return .ok (graphs, .text graph.summary)
    | add record => do
      let graph ← graph.addRecord record
      return .ok (graphs.insert on graph, .nothing)
    | node title step =>
      match graph.get? title with
      | none => return .error .unknownName
      | some found => do
        let result ← step.run found
        return result.map fun (changed, answer) =>
          (graphs.insert on (graph.modify (graph.key title) fun _ => changed), answer)
    | clone name => return .ok (graphs.insert name graph.clone, .nothing)

end GraphStep

/-! ## Events -/

/-- A step on an event. -/
inductive EventStep where
  | get (key : String) (default : Json.Value)
  | item (key : String)
  | consume
  deriving Repr

def EventStep.run (event : Event Line) :
    EventStep → Event Line × Except Failure Answer
  | get key default => (event, .ok (.datum ((event.get? key).getD (.value default))))
  | item key => (event, (event.item key).map .datum)
  | consume => (event.consume, .ok .nothing)

end Parley
