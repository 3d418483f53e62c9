import Parley.Machine.Perform

/-!
# Running a machine

One step of a machine carries out the first task of its agenda.  A run takes steps until the
agenda is empty.  Because a handler may call for ever on what calls it, a run is given an
amount of fuel; running out of it is told apart from every other outcome.
-/

namespace Parley.Machine

/-- Carry out one task.  `now` is the agenda with the task still in front. -/
def exec (m : Machine) (now : List Task) : Task → Machine
  | .start s title => m.start s title
  | .proceed s => m.proceed s
  | .follow s key destination => m.follow s key destination
  | .present s line => m.present s line
  | .fireShown s line => m.fireShown s line
  | .load s data start => m.load s data start
  | .finish s onComplete => m.finish s onComplete
  | .handleAction s tag param => m.handleAction s tag param
  | .actions sink course => m.actions sink course
  | .multicast called waiting param => m.multicast called waiting param
  | .leave _ => m
  | .showNode d title => m.showNode d title
  | .showLine d line => m.showLine now d line
  | .showOver d => m.showOver d
  | .close d callback => m.close d callback
  | .settle d callback => m.settle d callback
  | .flush d settled waiting => m.flush d settled waiting
  | .hook name text => m.hook name text
  | .callback c => m.callback now c
  | .publish b event => m.publish b event
  | .dispatch b => m.dispatch now b
  | .drain b event holds => m.drain b event holds
  | .deliver b listener => m.deliver b listener
  | .call h param => m.runHandler h none (.text param)
  | .callWith h b => m.callWith h b
  | .script h source steps => m.script h source steps
  | .returned h step => m.returned h step
  | .launch id graph d title node name => m.launch id graph d title node name
  | .forget id => m.forget id
  | .perform step => m.perform now step
  | .adopt s name answer => (m.withWorld fun w => w.adopt s name).give answer
  | .answer a => m.give a
  | .hold _ => m

/-- One step of a machine; a machine without tasks stays as it is. -/
def step (m : Machine) : Machine :=
  match m.agenda with
  | [] => m
  | task :: rest => { m with agenda := rest }.exec m.agenda task

/-- Whether a machine has nothing left to do. -/
def isDone (m : Machine) : Bool :=
  m.agenda.isEmpty

/-- Take steps until nothing is left to do, or the fuel is used up. -/
def run : (fuel : Nat) → Machine → Machine
  | 0, m => m
  | fuel + 1, m => if m.isDone then m else run fuel m.step

/-! ## Fuel beyond the end changes nothing -/

theorem step_of_isDone {m : Machine} (h : m.isDone = true) : m.step = m := by
  obtain ⟨world, agenda, trace, result⟩ := m
  cases agenda with
  | nil => rfl
  | cons task rest => simp [isDone] at h

theorem run_of_isDone {m : Machine} (h : m.isDone = true) (fuel : Nat) : run fuel m = m := by
  cases fuel with
  | zero => rfl
  | succ fuel => simp [run, h]

theorem run_add (fuel more : Nat) (m : Machine) :
    run (fuel + more) m = run more (run fuel m) := by
  induction fuel generalizing m with
  | zero => simp [run]
  | succ fuel ih =>
    by_cases h : m.isDone = true
    · simp [run_of_isDone h]
    · rw [Nat.succ_add]
      simp only [run, h]
      exact ih m.step

/-- Once a run is done, more fuel gives the same machine. -/
theorem run_eq_of_le {m : Machine} {fuel larger : Nat} (hle : fuel ≤ larger)
    (h : (run fuel m).isDone = true) : run larger m = run fuel m := by
  obtain ⟨more, rfl⟩ := Nat.exists_eq_add_of_le hle
  rw [run_add, run_of_isDone h]

end Parley.Machine
