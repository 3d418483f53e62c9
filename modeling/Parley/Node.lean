import Parley.Failure
import Parley.Record
import Parley.Script.Body
import Parley.Script.Tags

/-!
# Conversation nodes

A node is a titled block of dialogue: its lines in order, its tags, and a cursor that marks
the current line.  The cursor may rest one past the last line once the node is exhausted.
-/

namespace Parley

/-- A node of a conversation. -/
structure Node where
  title : String
  lines : List Line := []
  tags : Tags := Table.empty
  cursor : Nat := 0
  deriving DecidableEq, Repr, Inhabited

namespace Node

def ofRecord (record : Record) : Logged Node := do
  let lines ← Script.parseBody record.body.toList record.title
  let tags ← Script.parseTags record.tags.toList record.title
  return { title := record.title, lines, tags }

def size (node : Node) : Nat :=
  node.lines.length

/-- The node with its cursor back at the first line. -/
def reset (node : Node) : Node :=
  { node with cursor := 0 }

def currentLine (node : Node) : Except Failure Line :=
  if node.lines.isEmpty then .error (.emptyNode node.title)
  else
    match node.lines[node.cursor]? with
    | some line => .ok line
    | none => .error (.pastEnd node.title node.cursor)

/-- Whether there is a line after the current one. -/
def hasNextLine (node : Node) : Bool :=
  node.cursor + 1 < node.size

/-- Whether a number is the number of a line. -/
def hasLine (node : Node) (index : Int) : Bool :=
  0 ≤ index && index < node.size

/-- The node with its cursor one line further, but never more than one past the last. -/
def forward (node : Node) : Node :=
  if node.cursor < node.size then { node with cursor := node.cursor + 1 } else node

/-- Move the cursor one line further.  The result is the new current line, or `none` once the
node is exhausted. -/
def advance (node : Node) : Except Failure (Node × Option Line) :=
  if node.lines.isEmpty then .error (.emptyNode node.title)
  else .ok (node.forward, node.forward.lines[node.forward.cursor]?)

/-- Move the cursor to a line.  A number without a line is reported and ignored. -/
def seek (node : Node) (index : Int) : Logged (Node × Bool) :=
  if node.hasLine index then return ({ node with cursor := index.toNat }, true)
  else do
    Logged.report .warning
      ("Cannot seek to line " ++ toString index ++ " of '" ++ node.title ++ "' (" ++
        toString node.size ++ " lines); cursor left at " ++ toString node.cursor)
    return (node, false)

/-- The values of a tag; a key that the node lacks has none. -/
def tagValues (node : Node) (key : String) : Logged (List String) :=
  match node.tags.get? key with
  | some values => return values
  | none => do
    Logged.report .debug
      ("No tag key matching '" ++ key ++ "' found in node '" ++ node.title ++ "'")
    return []

/-- A copy of the node with a fresh cursor. -/
def clone (node : Node) : Node :=
  node.reset

/-- The node with one of its lines changed. -/
def modifyLine (node : Node) (index : Nat) (f : Line → Line) : Node :=
  { node with lines := node.lines.modify index f }

/-- A summary of the node for logs and debugging. -/
def summary (node : Node) : String :=
  "ConversationNode(title=" ++ Text.quoted node.title ++ ", lines=" ++
    toString node.size ++ ", cursor=" ++ toString node.cursor ++ ")"

@[simp] theorem lines_forward (node : Node) : node.forward.lines = node.lines := by
  unfold forward; split <;> rfl

theorem cursor_forward (node : Node) :
    node.forward.cursor = if node.cursor < node.size then node.cursor + 1 else node.cursor := by
  unfold forward; split <;> rfl

@[simp] theorem size_modifyLine (node : Node) (index : Nat) (f : Line → Line) :
    (node.modifyLine index f).size = node.size := by
  simp [modifyLine, size]

end Node

end Parley
