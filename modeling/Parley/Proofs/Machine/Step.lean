import Parley.Proofs.Machine.RoutineSteps

/-!
# What a step does

A step carries out the first task.  Unless that task publishes, dispatches or drains, the step
is routine: every bus changes calmly, and the rest of the agenda either stays below some
ordinary tasks or is cut down to its first dispatch (`calm_step` and `continues_step`).
-/

namespace Parley

namespace Task

/-- Whether a task carries out the work of a bus. -/
def worksBus : Task → Bool
  | .publish .. | .dispatch _ | .drain .. => true
  | _ => false

/-- What the routine work of a task makes of the rest of an agenda. -/
inductive Continues (task : Task) (w : World) (rest : List Task) : List Task → Prop
  | push {tasks : List Task} {f : Task → Task}
      (htasks : ∀ t ∈ tasks, t.Ordinary w ∧ task.Yields t) (hf : KeepsFrames f) :
      Continues task w rest (tasks ++ rest.map f)
  | cut {before after : List Task} {f : Task → Task} (hf : KeepsFrames f)
      (heq : rest.map f = before ++ after) (hbefore : ∀ b, .dispatch b ∉ before)
      (hafter : after = [] ∨ ∃ b below, after = .dispatch b :: below) :
      Continues task w rest after

end Task

namespace Machine

/-! ## Giving up -/

theorem unwind_cons_of_ne {task : Task} (h : ∀ b, task ≠ .dispatch b) (agenda : List Task) :
    unwind (task :: agenda) = unwind agenda := by
  cases task with
  | dispatch b => exact absurd rfl (h b)
  | _ => rfl

theorem unwind_append {tasks : List Task} (h : ∀ b, .dispatch b ∉ tasks) (agenda : List Task) :
    unwind (tasks ++ agenda) = unwind agenda := by
  induction tasks with
  | nil => rfl
  | cons task tasks ih =>
      simp only [List.mem_cons, not_or] at h
      rw [List.cons_append, unwind_cons_of_ne fun b => Ne.symm (h b).1, ih fun b => (h b).2]

/-- What is left of an agenda that is cut down to its first dispatch. -/
theorem exists_eq_append_unwind (agenda : List Task) :
    ∃ before, agenda = before ++ (unwind agenda).elim [] Prod.snd ∧
      (∀ b, .dispatch b ∉ before) ∧
      ((unwind agenda).elim [] Prod.snd = [] ∨
        ∃ b below, (unwind agenda).elim [] Prod.snd = .dispatch b :: below) := by
  induction agenda with
  | nil => exact ⟨[], rfl, by simp, .inl rfl⟩
  | cons task agenda ih =>
      by_cases hdispatch : ∃ b, task = .dispatch b
      · obtain ⟨b, rfl⟩ := hdispatch
        exact ⟨[], rfl, by simp, .inr ⟨b, agenda, rfl⟩⟩
      · rw [not_exists] at hdispatch
        obtain ⟨before, heq, hbefore, hafter⟩ := ih
        rw [unwind_cons_of_ne hdispatch]
        refine ⟨task :: before, by rw [List.cons_append, ← heq], fun b hmem => ?_, hafter⟩
        rcases List.mem_cons.mp hmem with rfl | hmem
        exacts [hdispatch b rfl, hbefore b hmem]

theorem agenda_fail (m : Machine) (failure : Failure) :
    (m.fail failure).agenda = (unwind m.agenda).elim [] Prod.snd := by
  unfold fail
  split <;> rename_i h <;> rw [h] <;> rfl

/-! ## Routine steps -/

variable {task : Task} {rest : List Task} {m m' : Machine}

theorem RoutineOrFail.calm (h : RoutineOrFail task m m') : m.world.Calm m'.world := by
  cases h with
  | routine h => exact h.world
  | fail h failure =>
      rw [world_fail]
      exact h.world

theorem RoutineOrFail.steady (h : RoutineOrFail task m m') (hplain : task.isPlain = true) :
    m.world.Steady m'.world := by
  cases h with
  | routine h => exact h.steady hplain
  | fail h failure =>
      rw [world_fail]
      exact h.steady hplain

theorem RoutineOrFail.retains (h : RoutineOrFail task m m') {b : BusId}
    (hends : task.unsubscribes b = false) : (m.world.bus b).Retains (m'.world.bus b) := by
  cases h with
  | routine h => exact h.retains b hends
  | fail h failure =>
      rw [world_fail]
      exact h.retains b hends

theorem RoutineOrFail.admits (h : RoutineOrFail task m m') (b : BusId) :
    (m.world.bus b).Admits (task.Seats m.world b) (m'.world.bus b) := by
  cases h with
  | routine h => exact h.admits b
  | fail h failure =>
      rw [world_fail]
      exact h.admits b

theorem RoutineOrFail.continues (h : RoutineOrFail task m m') :
    Task.Continues task m'.world m.agenda m'.agenda := by
  cases h with
  | routine h =>
      obtain ⟨tasks, f, htasks, hf, -, heq⟩ := h.agenda
      rw [heq]
      exact .push htasks hf.keepsFrames
  | fail h failure =>
      obtain ⟨tasks, f, htasks, hf, -, heq⟩ := h.agenda
      have hnone : ∀ b, .dispatch b ∉ tasks := fun b hmem =>
        absurd (htasks _ hmem).1.isFrame (by simp)
      rw [agenda_fail, heq, unwind_append hnone]
      obtain ⟨before, hcut, hbefore, hafter⟩ := exists_eq_append_unwind (m.agenda.map f)
      exact .cut hf.keepsFrames hcut hbefore hafter

theorem RoutineOrFail.registries (h : RoutineOrFail task m m')
    (hkeeps : task.rewritesActions = false) : m.world.SameRegistries m'.world := by
  cases h with
  | routine h => exact h.registries hkeeps
  | fail h failure =>
      rw [world_fail]
      exact h.registries hkeeps

/-- How the step of a task in a world ends for what was below it: there are tasks to be done first,
or there would be but for a failure. -/
inductive LeavesBelow (task : Task) (w : World) (rest : List Task) : Machine → Prop
  | on {m : Machine} {tasks : List Task} {f : Task → Task} (hf : Task.Loosens w f)
      (hcuts : task.cutsLoops = false → f = id) (hagenda : m.agenda = tasks ++ rest.map f) :
      LeavesBelow task w rest m
  | failed {m : Machine} {tasks : List Task} {f : Task → Task} (hf : Task.Loosens w f)
      (hcuts : task.cutsLoops = false → f = id) (htasks : ∀ b, .dispatch b ∉ tasks)
      (hagenda : m.agenda = tasks ++ rest.map f) (failure : Failure) :
      LeavesBelow task w rest (m.fail failure)

theorem RoutineOrFail.leavesBelow (h : RoutineOrFail task m m') :
    LeavesBelow task m.world m.agenda m' := by
  cases h with
  | routine h =>
      obtain ⟨tasks, f, -, hf, hcuts, heq⟩ := h.agenda
      exact .on hf hcuts heq
  | fail h failure =>
      obtain ⟨tasks, f, htasks, hf, hcuts, heq⟩ := h.agenda
      exact .failed hf hcuts (fun b hmem => absurd (htasks _ hmem).1.isFrame (by simp)) heq failure

theorem step_eq (h : m.agenda = task :: rest) :
    m.step = exec { m with agenda := rest } (task :: rest) task := by
  rw [step, h]

theorem step_of_agenda_eq_nil (h : m.agenda = []) : m.step = m := by
  rw [step, h]

/-- A step is routine unless its task carries out the work of a bus. -/
theorem routineOrFail_step (h : m.agenda = task :: rest) (hknown : task.Known m.world)
    (htask : task.worksBus = false) : RoutineOrFail task { m with agenda := rest } m.step := by
  rw [step_eq h]
  cases task with
  | start s title => exact routineOrFail_start s title
  | proceed s => exact routineOrFail_proceed s
  | follow s key destination => exact routineOrFail_follow s key destination
  | present s line => exact routineOrFail_present s line
  | fireShown s line => exact routineOrFail_fireShown s line
  | load s data start => exact routineOrFail_load s data start
  | finish s onComplete => exact routineOrFail_finish s onComplete
  | handleAction s tag param => exact routineOrFail_handleAction s tag param
  | actions sink course => exact routineOrFail_actions hknown
  | multicast called waiting param => exact routineOrFail_multicast called waiting param
  | leave s => exact (Routine.refl _).toFail
  | showNode d title => exact routineOrFail_showNode d title
  | showLine d line => exact routineOrFail_showLine _ d line
  | showOver d => exact routineOrFail_showOver d
  | close d callback => exact routineOrFail_close d callback
  | settle d callback => exact routineOrFail_settle d callback
  | flush d settled waiting => exact routineOrFail_flush d settled waiting
  | hook name text => exact routineOrFail_hook name text
  | callback c => exact routineOrFail_callback _ c
  | publish b event => exact absurd htask (by simp [Task.worksBus])
  | dispatch b => exact absurd htask (by simp [Task.worksBus])
  | drain b event holds => exact absurd htask (by simp [Task.worksBus])
  | deliver b listener => exact routineOrFail_deliver b listener
  | call handler param => exact routineOrFail_runHandler handler none _
  | callWith handler b => exact routineOrFail_callWith handler b
  | script handler source steps => exact routineOrFail_script handler source steps
  | returned handler step => exact routineOrFail_returned handler step
  | launch id graph d title node name => exact routineOrFail_launch id graph d title node name
  | forget id => exact routineOrFail_forget id
  | perform step => exact routineOrFail_perform _ step
  | adopt s name answer => exact routineOrFail_adopt s name answer
  | answer a => exact ((Routine.refl _).give a).toFail
  | hold s => exact (Routine.refl _).toFail

theorem calm_step (h : m.agenda = task :: rest) (hknown : task.Known m.world)
    (htask : task.worksBus = false) : m.world.Calm m.step.world :=
  (routineOrFail_step h hknown htask).calm

theorem continues_step (h : m.agenda = task :: rest) (hknown : task.Known m.world)
    (htask : task.worksBus = false) : Task.Continues task m.step.world rest m.step.agenda :=
  (routineOrFail_step h hknown htask).continues

end Machine

end Parley
