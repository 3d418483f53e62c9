import Parley.Machine.Run
import Parley.Text.Digit

/-!
# A conversation in a tavern

A small conversation that is played on a console.  Where the current line offers options the
player is asked for a number, otherwise for a key press; the conversation ends on the end
token or after the last line.
-/

namespace Parley

/-- A played conversation: its world, everything seen so far, and what has been noted of its
end. -/
structure Demo where
  world : World
  trace : List TraceEntry := []
  endings : List Bool := []

namespace Demo

/-! ## The conversation -/

def record (title tags : String) (rows : List String) : Json.Value :=
  .object [("title", .string title), ("tags", .string tags),
    ("body", .string (String.intercalate "\n" rows))]

def conversation : Json.Value :=
  .array
    [record "Intro" "location[tavern, night], music[lute]"
      ["Barkeep: Evening, \x7bplayer\x7d. What'll it be? | actions([sound|door_creak])",
        "Barkeep: We've ale, and we've trouble.",
        "[[Ale, please|Ale]], [[Tell me about the trouble|Trouble]], [[Leave|END]]"],
    record "Ale" ""
      ["Barkeep: One ale for \x7bplayer\x7d. | actions([gold|-2])",
        "You drink in silence."],
    record "Trouble" ""
      ["Barkeep: Wolves on the north road. | actions([quest|wolves])",
        "| options([[I'll handle it|END]], [[Not my problem|Ale]])"]]

/-- The handlers of the demo; each writes its argument between two texts. -/
def handlers : List (String × String × String) :=
  [("sound", "  (sound: ", ")"), ("gold", "  (gold ", ")"),
    ("quest", "  (quest started: ", ")"), ("goodbye", "Goodbye.", "")]

def define (w : World) (name : String) (behaviour : Behaviour) : World :=
  let (w, h) := w.addHandler ⟨name, behaviour⟩
  { w with handlerNames := w.handlerNames.insert name h }

/-- The world in which the handlers are defined.  The one that hears of the end prints nothing. -/
def stage : World :=
  let w := handlers.foldl (fun w (name, before, after) => define w name (.printing before after)) {}
  define w "over" (.scripted [])

/-! ## Playing -/

/-- Steps enough for anything that happens in the demo at once. -/
def fuel : Nat := 10000

/-- What the handler that hears of the end notes: once for each time that it is called. -/
def noted (trace : List TraceEntry) : List Bool :=
  trace.filterMap fun entry =>
    match entry with
    | .call handler _ => if handler = "over" then some true else none
    | _ => none

def perform (demo : Demo) (step : Step) : Demo :=
  let m := Machine.run fuel { world := demo.world, agenda := [.perform step] }
  { world := m.world, trace := demo.trace ++ m.trace, endings := demo.endings ++ noted m.trace }

def write (demo : Demo) (text : String) : Demo :=
  { demo with trace := demo.trace ++ [.out "" text] }

/-- The steps that lead to the first line. -/
def opening : List Step :=
  [.newDisplay "console" "console" .console,
    .newSession "s" "console" none (.records conversation none),
    .session "s" (.registerReplacement "player" "Traveller"),
    .session "s" (.registerAction "sound" "sound"),
    .session "s" (.registerAction "gold" "gold"),
    .session "s" (.registerAction "quest" "quest"),
    .bus (.session "s") (.subscribe (.dialogue .dialogueOver) "over" 0 false false),
    .display "console" .openUp,
    .session "s" (.start "Intro")]

def session? (demo : Demo) : Option Session :=
  (demo.world.sessionNames.get? "s").bind demo.world.session?

def display? (demo : Demo) : Option Display :=
  (demo.world.displayNames.get? "console").bind demo.world.display?

/-- Where the current node lies, by its tags. -/
def location (demo : Demo) : List String :=
  (demo.session?.bind Session.currentNode?).elim [] fun node =>
    (node.tagValues "location").value

def opened : Demo :=
  let demo := opening.foldl perform { world := stage }
  demo.write ("  [location: " ++ String.intercalate ", " demo.location ++ "]\n")

/-- Whether the handler that hears of the end has been called. -/
def isOver (demo : Demo) : Bool :=
  !demo.endings.isEmpty

/-- Whether the line on the console offers options. -/
def offersChoice (demo : Demo) : Bool :=
  (demo.display?.bind Display.onScreen).elim false fun ref =>
    (demo.world.line ref).hasChoices

def promptText (demo : Demo) : String :=
  if demo.offersChoice then "> " else "(press enter)"

def prompt (demo : Demo) : Demo :=
  demo.write demo.promptText

/-- Take an answer.  At a choice only digits count; digits that are no number end the
demo. -/
def respond (demo : Demo) (answer : String) : Except Failure Demo :=
  if demo.offersChoice then
    if answer.isEmpty || !answer.toList.all Text.isDigit then .ok demo
    else
      match Text.number? answer.toList with
      | some n => .ok (demo.perform (.display "console" (.choose n)))
      | none => .error (.notNumber answer)
  else .ok (demo.perform (.display "console" .proceed))

def finish (demo : Demo) : Demo :=
  demo.perform (.session "s" (.finish (some "goodbye")))

/-- Play with the given answers until the conversation is over or something fails. -/
def play (demo : Demo) : List String → Demo × Except Failure Unit
  | [] => if demo.isOver then (demo.finish, .ok ()) else (demo.prompt, .error .endOfInput)
  | answer :: rest =>
    if demo.isOver then (demo.finish, .ok ())
    else
      match demo.prompt.respond answer with
      | .ok next => play next rest
      | .error failure => (demo.prompt, .error failure)

def textOf (trace : List TraceEntry) : String :=
  String.join (trace.filterMap fun entry =>
    match entry with
    | .out _ text => some text
    | _ => none)

def output (demo : Demo) : String :=
  textOf demo.trace

def log (demo : Demo) : List TraceEntry :=
  demo.trace.filter fun entry =>
    match entry with
    | .log .. => true
    | _ => false

end Demo

end Parley
