import Parley.Line
import Parley.Log
import Parley.Script.Separator
import Parley.Text.Cut

/-!
# Options and actions in written form

An option is written `[[label|destination]]`, an action `[tag|param]` or `[tag]`.  In both
the last bar divides, so labels and tags may hold bars.  Items that cannot be read are
reported and dropped.
-/

namespace Parley.Script

open Parley.Text

/-- The characters that enclose an item: brackets and spaces. -/
def isBracket (c : Char) : Bool :=
  c == ' ' || c == '[' || c == ']'

/-- Read one option.  The destination is mandatory, the label may be empty. -/
def parseOption (raw : List Char) : Option Choice :=
  match cutLast '|' (strip isBracket raw) with
  | none => none
  | some (key, destination) =>
    if destination.all isBlank then none
    else some ⟨String.ofList (trim key), String.ofList (trim destination)⟩

/-- Read one action.  The tag is mandatory, a missing parameter is empty. -/
def parseAction (raw : List Char) : Option Action :=
  match cutLast '|' (strip isBracket raw) with
  | none =>
    if (strip isBracket raw).isEmpty then none
    else some ⟨String.ofList (strip isBracket raw), ""⟩
  | some (tag, param) =>
    if tag.all isBlank then none
    else some ⟨String.ofList (trim tag), String.ofList (trim param)⟩

/-- The report of an item that cannot be read. -/
def malformed (noun title : String) (item : List Char) : LogEntry :=
  ⟨.warning, "Malformed " ++ noun ++ " '" ++ String.ofList (trim item) ++ "' in node '" ++
    title ++ "'; dropping."⟩

/-- The items that can be read, with a report for each of the others. -/
def gather {α : Type} (read : List Char → Option α) (noun title : String)
    (items : List (List Char)) : Logged (List α) :=
  ⟨items.filterMap read,
    (items.filter fun item => (read item).isNone).map (malformed noun title)⟩

def gatherOptions (title : String) (items : List (List Char)) : Logged (List Choice) :=
  gather parseOption "option" title items

def gatherActions (title : String) (items : List (List Char)) : Logged (List Action) :=
  gather parseAction "action" title items

end Parley.Script
