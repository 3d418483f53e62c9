import Parley.Script.Spoken

/-!
# Node bodies

A body is a sequence of rows.  A spoken row opens a new line of dialogue; a row that starts
with brackets is a trailing block, which adds options or actions to the line opened last;
blank rows are skipped.  A block before the first spoken row belongs to no line and is
reported.
-/

namespace Parley.Script

open Parley.Text

/-- What a row of a body is. -/
inductive Row where
  /-- A trailing block of options, split into its items. -/
  | options (items : List (List Char))
  /-- A trailing block of actions, split into its items. -/
  | actions (items : List (List Char))
  /-- A row of white space. -/
  | blank
  /-- A row that opens a new line of dialogue. -/
  | spoken (text : List Char)
  deriving DecidableEq, Repr

/-- The kind of a row that has been trimmed. -/
def Row.classify (row : List Char) : Row :=
  if startsWith ['[', '['] row then .options (splitOptions row)
  else if startsWith ['['] row then .actions (splitActions row)
  else if row.isEmpty then .blank
  else .spoken row

def rows (body : List Char) : List Row :=
  (pieces '\n' body).map fun row => Row.classify (trim row)

/-- The report of a block without a line to belong to. -/
def orphan (noun title : String) (number : Nat) : Logged Unit :=
  Logged.report .error
    ("Cannot have " ++ noun ++ " without a preceding line of dialogue (line " ++
      toString number ++ " of '" ++ title ++ "').")

/-- Put rows together into lines of dialogue.  `number` is the number of the first row and
`current` the line that trailing blocks belong to. -/
def assemble (title : String) : (number : Nat) → (current : Option Line) → List Row →
    Logged (List Line)
  | _, current, [] => return current.toList
  | number, some line, .options items :: rest => do
    let options ← gatherOptions title items
    assemble title (number + 1) (some (line.addOptions options)) rest
  | number, none, .options _ :: rest => do
    orphan "options" title number
    assemble title (number + 1) none rest
  | number, some line, .actions items :: rest => do
    let actions ← gatherActions title items
    assemble title (number + 1) (some (line.addActions actions)) rest
  | number, none, .actions _ :: rest => do
    orphan "actions" title number
    assemble title (number + 1) none rest
  | number, current, .blank :: rest => do
    Logged.report .debug
      ("Empty line on line " ++ toString number ++ " of '" ++ title ++ "'; skipping.")
    assemble title (number + 1) current rest
  -- The line so far is complete once the next one is opened.
  | number, current, .spoken text :: rest => do
    let line ← parseLine text title
    let lines ← assemble title (number + 1) (some line) rest
    return current.toList ++ lines

/-- Read the body of the node `title`.  An empty body has no rows at all. -/
def parseBody (body : List Char) (title : String) : Logged (List Line) :=
  if body.isEmpty then return [] else assemble title 1 none (rows body)

end Parley.Script
