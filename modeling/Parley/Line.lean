/-!
# Lines of dialogue

A line is the unit of display: who speaks, what is said, the options the player may choose
from and the actions that fire with it.
-/

namespace Parley

/-- An option offered to the player: its label and the title, or end token, it leads to. -/
structure Choice where
  key : String
  destination : String
  deriving DecidableEq, Repr, Inhabited

/-- Something the host is asked to do when a line is shown. -/
structure Action where
  tag : String
  param : String
  deriving DecidableEq, Repr, Inhabited

/-- One line of dialogue.  A line without a speaker has an empty speaker. -/
structure Line where
  speaker : String := ""
  text : String := ""
  options : List Choice := []
  actions : List Action := []
  deriving DecidableEq, Repr, Inhabited

namespace Line

def hasChoices (line : Line) : Bool :=
  !line.options.isEmpty

/-- Whether the line offers options and has no text of its own. -/
def choicesOnly (line : Line) : Bool :=
  line.text.isEmpty && line.hasChoices

def hasActions (line : Line) : Bool :=
  !line.actions.isEmpty

/-- The line with further options after its own. -/
def addOptions (line : Line) (options : List Choice) : Line :=
  { line with options := line.options ++ options }

/-- The line with further actions after its own. -/
def addActions (line : Line) (actions : List Action) : Line :=
  { line with actions := line.actions ++ actions }

/-- The line without the options of a given label. -/
def removeOption (line : Line) (key : String) : Line :=
  { line with options := line.options.filter fun choice => choice.key ≠ key }

/-- The line without the actions of a given tag. -/
def removeAction (line : Line) (tag : String) : Line :=
  { line with actions := line.actions.filter fun action => action.tag ≠ tag }

def truthWord (b : Bool) : String :=
  if b then "True" else "False"

/-- A summary of the line for logs and debugging. -/
def summary (line : Line) : String :=
  "[DialogueLine: speaker=" ++ line.speaker ++ ", text=" ++ line.text ++
    ", choices=" ++ truthWord line.hasChoices ++
    ", actions=" ++ toString line.actions.length ++ "]"

@[simp] theorem addOptions_nil (line : Line) : line.addOptions [] = line := by
  simp [addOptions]

@[simp] theorem addActions_nil (line : Line) : line.addActions [] = line := by
  simp [addActions]

end Line

end Parley
