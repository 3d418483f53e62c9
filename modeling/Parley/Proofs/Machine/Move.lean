import Parley.Proofs.Machine.Routine

/-!
# What a move does to the world

Three tasks carry out the moves of a session: one starts at a node, one goes on, one follows an
option.  Whatever becomes of the move, the session is all that is put back into the world
(`world_exec_of_moves`).  A property of worlds that putting a session back keeps is thus kept by
all three.
-/

namespace Parley

/-- A task that carries out a move of a session. -/
inductive Task.Moves (s : SessionId) : Task → Prop
  | start (title : String) : Moves s (.start s title)
  | proceed : Moves s (.proceed s)
  | follow (key destination : String) : Moves s (.follow s key destination)

namespace Machine

variable {m : Machine} {s : SessionId} {task : Task}

theorem world_carryOut (refused : Option Answer) (move : Session.Move)
    {shown : Session → LineRef → Machine → Machine}
    (hshown : ∀ moved line m', (shown moved line m').world = m'.world) :
    (m.carryOut s refused move shown).world = m.world ∨
      ∃ moved, (m.carryOut s refused move shown).world = (m.setSession s moved).world := by
  cases move with
  | refuse entry =>
      left
      cases refused <;> rfl
  | fail moved failure => exact .inr ⟨moved, world_fail _ failure⟩
  | display moved key index => exact .inr ⟨moved, hshown ..⟩
  | ended moved => exact .inr ⟨moved, rfl⟩

theorem world_exec_of_moves (htask : task.Moves s) (now : List Task) :
    (m.exec now task).world = m.world ∨
      ∃ moved, (m.exec now task).world = (m.setSession s moved).world := by
  cases htask with
  | start _ | proceed | follow _ _ =>
      dsimp only [exec, start, proceed, follow]
      split
      · exact .inl (world_fail m _)
      · exact world_carryOut _ _ fun _ _ _ => rfl

end Machine

end Parley
