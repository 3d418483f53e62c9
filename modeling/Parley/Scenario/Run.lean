import Parley.Machine.Run

/-!
# Scenarios

A scenario defines the handlers of a host and lists its steps.  The steps are performed one
after the other in the same world; one that fails does not keep the next from being
performed.  After each step the world is looked over.
-/

namespace Parley

/-- The first sight of a world: its sessions and displays by the names of the host. -/
structure Overview where
  /-- Phase, whether finished, and title and cursor of the current node. -/
  sessions : List (String × String × Bool × Option (String × Nat))
  /-- Whether open, and the name of the attached session. -/
  displays : List (String × Bool × Option String)
  deriving DecidableEq, Repr

/-- What a step came to. -/
structure StepReport where
  result : Except Failure Answer
  trace : List TraceEntry
  overview : Overview

namespace World

def overview (w : World) : Overview where
  sessions := w.sessionNames.entries.filterMap fun (name, s) =>
    (w.session? s).map fun session =>
      (name, session.phase.name, session.finished,
        session.currentNode?.map fun node => (node.title, node.cursor))
  displays := w.displayNames.entries.filterMap fun (name, d) =>
    (w.display? d).map fun display =>
      (name, display.isOpen, (w.attachedTo {} display).map w.labelOf)

/-- A world in which some handlers are defined. -/
def ofHandlers (handlers : List (String × List (Nat × List Step))) : World :=
  handlers.foldl (fun w (name, rounds) =>
    let (w, h) := w.addHandler ⟨name, .scripted rounds⟩
    { w with handlerNames := w.handlerNames.insert name h }) {}

end World

namespace Scenario

/-- Perform one step in a world.  Without enough fuel there is no report. -/
def performStep (fuel : Nat) (w : World) (step : Step) : Option (World × StepReport) :=
  let m := Machine.run fuel { world := w, agenda := [.perform step] }
  if m.isDone then some (m.world, ⟨m.result, m.trace, m.world.overview⟩) else none

/-- Perform steps one after the other. -/
def performSteps (fuel : Nat) : World → List Step → Option (List StepReport)
  | _, [] => some []
  | w, step :: rest => do
    let (w, report) ← performStep fuel w step
    let reports ← performSteps fuel w rest
    return report :: reports

end Scenario

end Parley
