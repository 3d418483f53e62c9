import Mathlib.Logic.Function.Iterate
import Parley.Proofs.Bus.Sound
import Parley.Scenario.Run

/-!
# Executions

A host performs one step after the other; in between the machine works off its agenda.  An
execution is any such course of machines from one whose buses have never been used, and a
machine is reachable if it occurs in one.  Every reachable machine is sound.
-/

namespace Parley

namespace Machine

/-- A machine at rest whose buses have never been used. -/
structure Initial (m : Machine) : Prop where
  agenda : m.agenda = []
  bus : ∀ b, m.world.bus b = {}

/-- What may come after a machine: its own step, or one of the host once it is at rest. -/
inductive Next (m : Machine) : Machine → Prop
  | step : Next m m.step
  | host (h : m.agenda = []) (step : Step) :
      Next m { world := m.world, agenda := [.perform step] }

inductive Reachable : Machine → Prop
  | initial {m : Machine} (h : Initial m) : Reachable m
  | next {m m' : Machine} (h : Reachable m) (hnext : Next m m') : Reachable m'

structure Execution (x : ℕ → Machine) : Prop where
  initial : Initial (x 0)
  next : ∀ i, Next (x i) (x (i + 1))

variable {x : ℕ → Machine}

theorem Execution.reachable (h : Execution x) (i : ℕ) : Reachable (x i) := by
  induction i with
  | zero => exact .initial h.initial
  | succ i ih => exact ih.next (h.next i)

/-- The host waits while the machine is at work. -/
theorem Execution.eq_step (h : Execution x) {i : ℕ} (hagenda : (x i).agenda ≠ []) :
    x (i + 1) = (x i).step := by
  generalize hm : x (i + 1) = m
  cases (hm ▸ h.next i : Next (x i) m) with
  | step => rfl
  | host hnil step => exact absurd hnil hagenda

/-- The next `n` machines of an execution, from a time on. -/
def stretch (x : ℕ → Machine) (i n : ℕ) : List Machine :=
  (List.range n).map fun k => x (i + k)

theorem stretch_succ (x : ℕ → Machine) (i n : ℕ) :
    stretch x i (n + 1) = x i :: stretch x (i + 1) n := by
  have hshift : ((fun k => x (i + k)) ∘ Nat.succ) = fun k => x (i + 1 + k) := by
    funext k
    rw [Function.comp_apply, Nat.succ_eq_add_one, Nat.add_comm k 1, Nat.add_assoc]
  rw [stretch, List.range_succ_eq_map, List.map_cons, List.map_map, hshift]
  rfl

theorem stretch_add_one (x : ℕ → Machine) (i n : ℕ) :
    stretch x i (n + 1) = stretch x i n ++ [x (i + n)] := by
  rw [stretch, List.range_succ, List.map_append]
  rfl

/-! ## Soundness -/

theorem Initial.sound {m : Machine} (h : Initial m) : Sound m := by
  have hagenda := h.agenda
  refine ⟨by simp [hagenda], hagenda ▸ .below .nil, fun b => ⟨?_, ?_, ?_⟩⟩
  · rw [hagenda, h.bus b]
    rfl
  · rw [h.bus b]
    exact fun hne => absurd rfl hne
  · rw [hagenda]
    rintro ⟨event, holds, hhead⟩
    exact absurd hhead (by simp)

theorem Sound.host {m : Machine} (h : Sound m) (hagenda : m.agenda = []) (step : Step) :
    Sound { world := m.world, agenda := [.perform step] } := by
  have hidle : ∀ b, (m.world.bus b).isPublishing = false := by
    intro b
    have hdepth := (h.accounted b).depth
    rw [hagenda] at hdepth
    cases hpub : (m.world.bus b).isPublishing with
    | false => rfl
    | true => simp [hpub] at hdepth
  have hempty : ∀ b, ¬ Task.Draining b m.agenda := by
    rintro b ⟨event, holds, hhead⟩
    exact absurd hhead (by simp [hagenda])
  refine ⟨by simp, .below ⟨.singleton _, by simp⟩, fun b => ⟨?_, ?_, ?_⟩⟩
  · dsimp only
    rw [hidle b]
    rfl
  · exact fun hne => absurd ((h.accounted b).queue_eq_nil (hidle b) (hempty b)) hne
  · exact fun hdraining => absurd hdraining (not_draining_cons (by simp) [])

theorem Sound.iterate {m : Machine} (h : Sound m) (n : ℕ) : Sound (Machine.step^[n] m) := by
  induction n with
  | zero => exact h
  | succ n ih =>
      rw [Function.iterate_succ_apply']
      exact ih.step

theorem Reachable.sound {m : Machine} (h : Reachable m) : Sound m := by
  induction h with
  | initial h => exact h.sound
  | next h hnext ih =>
      cases hnext with
      | step => exact ih.step
      | host hagenda step => exact ih.host hagenda step

/-! ## Graphs that no session holds -/

/-- A graph that a manager has cached at one time is the same at all later times. -/
theorem Execution.graph_of_cached (h : Execution x) {i j : ℕ} (hij : i ≤ j) {id : ManagerId}
    {conversation : String} {g : Ref Graph}
    (hcached : (x i).world.cached? id conversation = some g) :
    (x j).world.graph g = (x i).world.graph g := by
  suffices hspares : (x i).world.memory.Spares (x j).world.memory from
    (hspares g (World.unheld_of_cached hcached)).2
  induction j, hij using Nat.le_induction with
  | base => exact .refl _
  | succ j hij ih =>
      refine ih.trans ?_
      generalize hm : x (j + 1) = m
      cases (hm ▸ h.next j : Next (x j) m) with
      | step => exact (h.reachable j).sound.spares_memory
      | host hagenda step => exact .refl _

/-! ## Runs -/

theorem run_eq_iterate (fuel : ℕ) (m : Machine) : run fuel m = step^[fuel] m := by
  induction fuel generalizing m with
  | zero => rfl
  | succ fuel ih =>
      rw [run, Function.iterate_succ_apply, ← ih]
      split
      · rename_i hdone
        rw [step_of_isDone hdone, run_of_isDone hdone]
      · rfl

/-! ## The course of a host -/

/-- The world in which handlers are defined has no buses in use. -/
theorem initial_ofHandlers (handlers : List (String × List (Nat × List Step))) :
    Initial { world := World.ofHandlers handlers } := by
  have hbuses : World.SameBuses {} (World.ofHandlers handlers) := by
    apply World.sameBuses_foldl
    intro w handler
    exact World.sameBuses_of_eq rfl rfl rfl (.refl _)
  refine ⟨rfl, fun b => ?_⟩
  rw [hbuses.bus b]
  cases b <;> rfl

/-- One moment in the course of a host: a step of the machine, or the next step of the host
once the machine is at rest. -/
def advance : Machine × List Step → Machine × List Step
  | (m, steps) =>
    match m.agenda, steps with
    | [], step :: rest => ({ world := m.world, agenda := [.perform step] }, rest)
    | _, _ => (m.step, steps)

/-- The course of a host that performs the given steps. -/
def course (m : Machine) (steps : List Step) (i : ℕ) : Machine :=
  (advance^[i] (m, steps)).1

theorem execution_course {m : Machine} (h : Initial m) (steps : List Step) :
    Execution (course m steps) := by
  refine ⟨h, fun i => ?_⟩
  rw [course, course, Function.iterate_succ_apply']
  obtain ⟨now, left⟩ := advance^[i] (m, steps)
  cases hagenda : now.agenda with
  | cons task rest =>
      simp only [advance, hagenda]
      exact .step
  | nil =>
      cases left with
      | nil =>
          simp only [advance, hagenda]
          exact .step
      | cons step rest =>
          simp only [advance, hagenda]
          exact .host hagenda step

/-- A host that has performed its last step stays at rest. -/
theorem course_of_le {m : Machine} {steps : List Step} {i j : ℕ}
    (hagenda : (course m steps i).agenda.isEmpty = true)
    (hsteps : (advance^[i] (m, steps)).2.isEmpty = true) (hij : i ≤ j) :
    course m steps j = course m steps i := by
  obtain ⟨k, rfl⟩ := Nat.exists_eq_add_of_le' hij
  rw [course, Function.iterate_add_apply]
  rw [course] at hagenda ⊢
  generalize advance^[i] (m, steps) = state at hagenda hsteps ⊢
  obtain ⟨now, left⟩ := state
  obtain rfl : left = [] := List.isEmpty_iff.mp hsteps
  have hnil : now.agenda = [] := List.isEmpty_iff.mp hagenda
  have hstays : advance (now, []) = (now, []) := by
    simp only [advance, hnil, step_of_agenda_eq_nil hnil]
  rw [Function.iterate_fixed hstays]

end Machine

end Parley
