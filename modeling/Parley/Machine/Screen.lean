import Parley.Machine.Basic
import Parley.Script.Replacement

/-!
# The tasks of displays

A recording display notes what it is asked to show and calls the handler of the occasion.  A
console writes it.  Closing comes in two parts: the display is asked to close, and then it is
closed and whoever asked is told; a deferred display puts the second part off.
-/

namespace Parley.Machine

def showNode (m : Machine) (d : DisplayId) (title : String) : Machine :=
  match m.world.display? d with
  | none => m
  | some display =>
    match display.kind with
    | .recording hooks _ =>
      (m.emit [.node display.name title]).push [.hook hooks.node title]
    | .console => m.emit [.out display.name ("--- " ++ title ++ " ---\n")]

/-- What a console writes for a line: the text, unless it is empty, and the options with
their numbers from one on. -/
def consoleText (values : Table String String) (line : Line) : List String :=
  let text := Script.applyReplacements values line.text
  let said := if line.speaker.isEmpty then text else line.speaker ++ ": " ++ text
  (if text.isEmpty then [] else [said ++ "\n"]) ++
    (line.options.zipIdx 1).map fun (choice, number) =>
      "  " ++ toString number ++ ") " ++ Script.applyReplacements values choice.key ++ "\n"

def showLine (m : Machine) (now : List Task) (d : DisplayId) (line : LineRef) : Machine :=
  match m.world.display? d with
  | none => m
  | some display =>
    let contents := m.world.line line
    match display.kind with
    | .recording hooks _ =>
      (m.emit [.line display.name contents]).push [.hook hooks.line contents.text]
    | .console =>
      -- The line is on the screen before its text is written.
      let values := m.world.replacementsOf (Task.heldBy m.world now) display
      (m.withWorld fun w => w.modifyDisplay d fun display =>
        { display with onScreen := some line }).emit
        ((consoleText values contents).map fun text => .out display.name text)

def clearScreen (m : Machine) (d : DisplayId) : Machine :=
  m.withWorld fun w => w.modifyDisplay d fun display => { display with onScreen := none }

/-- Tell a display that the conversation is over. -/
def showOver (m : Machine) (d : DisplayId) : Machine :=
  match m.world.display? d with
  | none => m
  | some display =>
    match display.kind with
    | .recording hooks _ => (m.emit [.ended display.name]).push [.hook hooks.ended ""]
    | .console => m.clearScreen d

def close (m : Machine) (d : DisplayId) (callback : Option Callback) : Machine :=
  match m.world.display? d with
  | none => m
  | some display =>
    match display.kind with
    | .recording hooks _ =>
      (m.emit [.close display.name]).push [.hook hooks.close "", .settle d callback]
    | .console =>
      ((m.emit [.out display.name "--- end ---\n"]).clearScreen d).push [.settle d callback]

/-- Whether a display puts off the rest of closing. -/
def isDeferred (display : Display) : Bool :=
  match display.kind with
  | .recording _ deferred => deferred
  | .console => false

def shut (m : Machine) (d : DisplayId) (callback : Option Callback) : Machine :=
  (m.withWorld fun w => w.modifyDisplay d fun display =>
    { display with isOpen := false }).push (callback.toList.map .callback)

/-- The rest of closing a display, or a note of it if the display puts it off. -/
def settle (m : Machine) (d : DisplayId) (callback : Option Callback) : Machine :=
  match m.world.display? d with
  | none => m
  | some display =>
    if isDeferred display then
      m.withWorld fun w => w.modifyDisplay d fun display =>
        { display with pending := display.pending ++ [callback] }
    else m.shut d callback

/-- Let the next noted closing of a display happen. -/
def flush (m : Machine) (d : DisplayId) (settled waiting : List (Option Callback)) :
    Machine :=
  match waiting with
  | [] => m
  | callback :: rest =>
    (m.push [.flush d (settled ++ [callback]) rest]).shut d callback

/-- Call the handler under a name, if a name is given. -/
def hook (m : Machine) (name : Option String) (text : String) : Machine :=
  match name with
  | none => m
  | some name =>
    match m.world.handlerNames.get? name with
    | none => m.fail .unknownName
    | some h => m.push [.call h text]

/-- A session takes note that its display has closed: it lets go of the display, unless
another session is attached by now, and reports the closing before the host is told. -/
def sessionClosed (m : Machine) (now : List Task) (s : SessionId)
    (onComplete : Option HandlerId) : Machine :=
  match m.world.session? s with
  | none => m.fail .unknownName
  | some session =>
    let held := Task.heldBy m.world now
    let m := m.withWorld fun w => w.modifyDisplay session.display fun display =>
      if w.attachedTo held display = some s then { display with attached := none }
      else display
    m.push (.publish (.session s) { type := .dialogue .contextClosed } ::
      onComplete.toList.map (fun h => .call h "") ++ [.hold s])

def callback (m : Machine) (now : List Task) : Callback → Machine
  | .session s onComplete => m.sessionClosed now s onComplete
  | .handler h => m.push [.call h ""]

end Parley.Machine
