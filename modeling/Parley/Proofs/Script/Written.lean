import Mathlib.Data.List.Infix
import Parley.Proofs.Text.Trim
import Parley.Script.Body

/-!
# The written form of a script

`Written lines body` says that `body` is a way of writing the lines of dialogue `lines`.  There
are many ways.  A spoken row gives the speaker, the text and, after a bar, groups with options
and actions in either order; options and actions may also follow on rows of their own; blank
rows may stand anywhere; and white space may stand around every mark.

What can be written is limited by the marks: every condition below keeps a text from being
taken for one.  None of them is on commas, so items may hold commas of their own, and labels
and tags may hold bars.

Between the items of a list only spaces may stand, and not any white space: an item is
stripped of brackets and spaces alone.
-/

namespace Parley

/-! ## Texts -/

namespace Text

/-- White space within one row. -/
def IsGap (cs : List Char) : Prop :=
  ∀ c ∈ cs, isBlank c = true ∧ c ≠ '\n'

instance (cs : List Char) : Decidable (IsGap cs) :=
  List.decidableBAll (fun c => isBlank c = true ∧ c ≠ '\n') cs

/-- Spaces only. -/
def IsSpaces (cs : List Char) : Prop :=
  ∀ c ∈ cs, c = ' '

instance (cs : List Char) : Decidable (IsSpaces cs) :=
  List.decidableBAll (fun c => c = ' ') cs

/-- A text that stands in a row: trimmed, and without a line break. -/
structure IsPhrase (cs : List Char) : Prop where
  trimmed : IsTrimmed cs
  noBreak : '\n' ∉ cs

instance (cs : List Char) : Decidable (IsPhrase cs) :=
  decidable_of_iff (IsTrimmed cs ∧ '\n' ∉ cs) ⟨fun ⟨h₁, h₂⟩ => ⟨h₁, h₂⟩, fun ⟨h₁, h₂⟩ => ⟨h₁, h₂⟩⟩

/-- A text that stands in an item. -/
structure IsLabel (cs : List Char) : Prop extends IsPhrase cs where
  noOpening : '[' ∉ cs
  noClosing : ']' ∉ cs

instance (cs : List Char) : Decidable (IsLabel cs) :=
  decidable_of_iff (IsPhrase cs ∧ '[' ∉ cs ∧ ']' ∉ cs)
    ⟨fun ⟨h₁, h₂, h₃⟩ => ⟨h₁, h₂, h₃⟩, fun ⟨h₁, h₂, h₃⟩ => ⟨h₁, h₂, h₃⟩⟩

end Text

open Text

/-! ## Items -/

/-- An option that can be written.  The last bar of an option divides it, and an option needs
a destination. -/
structure Choice.Writable (choice : Choice) : Prop where
  key : IsLabel choice.key.toList
  destination : IsLabel choice.destination.toList
  destination_ne : choice.destination.toList ≠ []
  destination_noBar : '|' ∉ choice.destination.toList

instance (choice : Choice) : Decidable choice.Writable :=
  decidable_of_iff (IsLabel choice.key.toList ∧ IsLabel choice.destination.toList ∧
      choice.destination.toList ≠ [] ∧ '|' ∉ choice.destination.toList)
    ⟨fun ⟨h₁, h₂, h₃, h₄⟩ => ⟨h₁, h₂, h₃, h₄⟩, fun ⟨h₁, h₂, h₃, h₄⟩ => ⟨h₁, h₂, h₃, h₄⟩⟩

/-- An action that can be written.  The last bar of an action divides it; one without a
parameter is written without a bar. -/
structure Action.Writable (action : Action) : Prop where
  tag : IsLabel action.tag.toList
  param : IsLabel action.param.toList
  tag_ne : action.tag.toList ≠ []
  param_noBar : '|' ∉ action.param.toList
  tag_noBar : action.param.toList = [] → '|' ∉ action.tag.toList

instance (action : Action) : Decidable action.Writable :=
  decidable_of_iff (IsLabel action.tag.toList ∧ IsLabel action.param.toList ∧
      action.tag.toList ≠ [] ∧ '|' ∉ action.param.toList ∧
      (action.param.toList = [] → '|' ∉ action.tag.toList))
    ⟨fun ⟨h₁, h₂, h₃, h₄, h₅⟩ => ⟨h₁, h₂, h₃, h₄, h₅⟩,
      fun ⟨h₁, h₂, h₃, h₄, h₅⟩ => ⟨h₁, h₂, h₃, h₄, h₅⟩⟩

namespace Script

/-- An option in written form. -/
def writeChoice (choice : Choice) : List Char :=
  '[' :: '[' :: (choice.key.toList ++ '|' :: choice.destination.toList) ++ [']', ']']

/-- What stands between the brackets of an action. -/
def actionBody (action : Action) : List Char :=
  if action.param.toList = [] then action.tag.toList
  else action.tag.toList ++ '|' :: action.param.toList

/-- An action in written form. -/
def writeAction (action : Action) : List Char :=
  '[' :: actionBody action ++ [']']

/-- A list of items in written form, with commas between the items. -/
inductive WrittenList {α : Type} (write : α → List Char) : List α → List Char → Prop
  | single (a : α) : WrittenList write [a] (write a)
  | cons (a : α) {rest : List α} {before after text : List Char} (hbefore : IsSpaces before)
      (hafter : IsSpaces after) (hrest : WrittenList write rest text) :
      WrittenList write (a :: rest) (write a ++ (before ++ ',' :: (after ++ text)))

/-- Options in written form. -/
def WrittenOptions (options : List Choice) (text : List Char) : Prop :=
  WrittenList writeChoice options text ∧ ∀ choice ∈ options, choice.Writable

/-- Actions in written form. -/
def WrittenActions (actions : List Action) (text : List Char) : Prop :=
  WrittenList writeAction actions text ∧ ∀ action ∈ actions, action.Writable

/-! ## Groups -/

/-- How a group begins. -/
def groupMarker (name : String) : List Char :=
  name.toList ++ ['(']

/-- A group in written form. -/
def writeGroup (name : String) (contents : List Char) : List Char :=
  groupMarker name ++ (contents ++ [')'])

/-- What can stand in a group that is searched for the group `other` as well. -/
structure IsContents (other : String) (contents : List Char) : Prop where
  noClosing : ')' ∉ contents
  noMarker : ¬ groupMarker other <:+: contents

instance (other : String) (contents : List Char) : Decidable (IsContents other contents) :=
  decidable_of_iff (')' ∉ contents ∧ ¬ groupMarker other <:+: contents)
    ⟨fun ⟨h₁, h₂⟩ => ⟨h₁, h₂⟩, fun ⟨h₁, h₂⟩ => ⟨h₁, h₂⟩⟩

/-- The groups after the bar of a spoken row.  The first one is searched for both names. -/
inductive WrittenGroups : List Choice → List Action → List Char → Prop
  | options {options : List Choice} {text : List Char} (h : WrittenOptions options text)
      (htext : IsContents "actions" text) :
      WrittenGroups options [] (writeGroup "options" text)
  | actions {actions : List Action} {text : List Char} (h : WrittenActions actions text)
      (htext : IsContents "options" text) :
      WrittenGroups [] actions (writeGroup "actions" text)
  | optionsFirst {options : List Choice} {actions : List Action} {text more gap : List Char}
      (h : WrittenOptions options text) (htext : IsContents "actions" text)
      (hgap : IsGap gap) (h' : WrittenActions actions more) (hmore : ')' ∉ more) :
      WrittenGroups options actions
        (writeGroup "options" text ++ (gap ++ writeGroup "actions" more))
  | actionsFirst {options : List Choice} {actions : List Action} {text more gap : List Char}
      (h : WrittenActions actions text) (htext : IsContents "options" text)
      (hgap : IsGap gap) (h' : WrittenOptions options more) (hmore : ')' ∉ more) :
      WrittenGroups options actions
        (writeGroup "actions" text ++ (gap ++ writeGroup "options" more))

/-! ## Rows -/

/-- The text of a spoken row, with the groups after it if there are any. -/
inductive WrittenText : String → List Choice → List Action → List Char → Prop
  | bare (text : String) : WrittenText text [] [] text.toList
  | grouped (text : String) {options : List Choice} {actions : List Action}
      {before after groups : List Char} (hbefore : IsGap before) (hafter : IsGap after)
      (hgroups : WrittenGroups options actions groups) :
      WrittenText text options actions (text.toList ++ (before ++ '|' :: (after ++ groups)))

/-- A spoken row.  Without a speaker there must be something else in the row, and no colon. -/
inductive WrittenRow : Line → List Char → Prop
  | spoken {line : Line} {before after row : List Char}
      (hspeaker : IsPhrase line.speaker.toList) (hne : line.speaker.toList ≠ [])
      (hcolon : ':' ∉ line.speaker.toList) (hopening : line.speaker.toList.head? ≠ some '[')
      (htext : IsPhrase line.text.toList) (hbar : '|' ∉ line.text.toList)
      (hbefore : IsGap before) (hafter : IsGap after)
      (hrow : WrittenText line.text line.options line.actions row) :
      WrittenRow line (line.speaker.toList ++ (before ++ ':' :: (after ++ row)))
  | narrated {line : Line} {row : List Char} (hspeaker : line.speaker.toList = [])
      (htext : IsPhrase line.text.toList) (hbar : '|' ∉ line.text.toList)
      (hopening : line.text.toList.head? ≠ some '[')
      (hrow : WrittenText line.text line.options line.actions row)
      (hne : row ≠ []) (hcolon : ':' ∉ row) :
      WrittenRow line row

/-- The rows after a spoken row that belong to its line: blank ones, and blocks with further
options or actions. -/
inductive WrittenTail : Line → List (List Char) → Line → Prop
  | done (line : Line) : WrittenTail line [] line
  | blank {line whole : Line} {row : List Char} {rows : List (List Char)} (hrow : IsGap row)
      (h : WrittenTail line rows whole) : WrittenTail line (row :: rows) whole
  | options {line whole : Line} {options : List Choice} {before text after : List Char}
      {rows : List (List Char)} (hbefore : IsGap before) (hafter : IsGap after)
      (htext : WrittenOptions options text)
      (h : WrittenTail (line.addOptions options) rows whole) :
      WrittenTail line ((before ++ (text ++ after)) :: rows) whole
  | actions {line whole : Line} {actions : List Action} {before text after : List Char}
      {rows : List (List Char)} (hbefore : IsGap before) (hafter : IsGap after)
      (htext : WrittenActions actions text)
      (h : WrittenTail (line.addActions actions) rows whole) :
      WrittenTail line ((before ++ (text ++ after)) :: rows) whole

/-- The rows of a body. -/
inductive WrittenRows : List Line → List (List Char) → Prop
  | nil : WrittenRows [] []
  | blank {lines : List Line} {row : List Char} {rows : List (List Char)} (hrow : IsGap row)
      (h : WrittenRows lines rows) : WrittenRows lines (row :: rows)
  | line {first whole : Line} {lines : List Line} {before row after : List Char}
      {tail rows : List (List Char)} (hbefore : IsGap before) (hafter : IsGap after)
      (hrow : WrittenRow first row) (htail : WrittenTail first tail whole)
      (h : WrittenRows lines rows) :
      WrittenRows (whole :: lines) ((before ++ (row ++ after)) :: (tail ++ rows))

/-- A body that is a way of writing some lines of dialogue. -/
def Written (lines : List Line) (body : List Char) : Prop :=
  ∃ rows, WrittenRows lines rows ∧ body = join ['\n'] rows

end Script

end Parley
