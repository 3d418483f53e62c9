import Parley.Config
import Parley.Event
import Parley.Graph

/-!
# Answers

What an operation gives back to its caller.
-/

namespace Parley

/-- The result of an operation. -/
inductive Answer where
  /-- The operation gives nothing back, or what was asked for is not there. -/
  | nothing
  | flag (b : Bool)
  | flags (bs : List Bool)
  | number (n : Int)
  | text (s : String)
  | texts (ss : List String)
  | datum (d : Datum Line)
  | line (line : Line)
  | node (node : Node)
  | nodes (nodes : List Node)
  | event (event : Event Line)
  | config (config : Config)
  | replacements (values : Table String String)
  /-- The title, cursor and line texts of each node of a conversation. -/
  | outline (nodes : List (String × Nat × List String))
  /-- The title of a display, whether it shows images and how many options it can show. -/
  | display (title : String) (images : Bool) (capacity : Int)
  deriving Repr

namespace Answer

/-- A line, if there is one. -/
def ofLine? : Option Line → Answer
  | some l => line l
  | none => nothing

/-- A node, if there is one. -/
def ofNode? : Option Node → Answer
  | some n => node n
  | none => nothing

/-- A text, if there is one. -/
def ofText? : Option String → Answer
  | some s => text s
  | none => nothing

end Answer

end Parley
