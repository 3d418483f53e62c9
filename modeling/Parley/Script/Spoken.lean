import Parley.Script.Item

/-!
# Spoken rows

A spoken row is written `speaker: text | groups`.  The speaker and its colon may be missing,
and so may the bar with the groups.  The groups `options(...)` and `actions(...)` reach to
the first closing parenthesis and may come in either order; everything else after the bar is
ignored.
-/

namespace Parley.Script

open Parley.Text

/-- The contents of the first group with the given name. -/
def group? (name : String) (metadata : List Char) : Option (List Char) := do
  let inside ← after? (name.toList ++ ['(']) metadata
  let (contents, _) ← cutFirst ')' inside
  return contents

/-- The options and actions in the groups after the bar of a spoken row. -/
def parseMetadata (metadata : List Char) (title : String) :
    Logged (List Choice × List Action) := do
  let actions ← match group? "actions" metadata with
    | some contents => gatherActions title (splitActions contents)
    | none => pure []
  let options ← match group? "options" metadata with
    | some contents => gatherOptions title (splitOptions contents)
    | none => pure []
  return (options, actions)

/-- The speaker of a row and what follows the colon; without a colon there is no speaker. -/
def cutSpeaker (row : List Char) : List Char × List Char :=
  match cutFirst ':' row with
  | some (speaker, rest) => (trim speaker, rest)
  | none => ([], row)

def parseLine (row : List Char) (title : String) : Logged Line :=
  let (speaker, rest) := cutSpeaker row
  match cutFirst '|' rest with
  | none =>
    return { speaker := String.ofList speaker, text := String.ofList (trim rest) }
  | some (text, metadata) => do
    let (options, actions) ← parseMetadata metadata title
    return ⟨String.ofList speaker, String.ofList (trim text), options, actions⟩

end Parley.Script
