import Parley.Proofs.Bus.Queue

/-!
# The cascade of a published event

An event published on an idle bus may make its listeners publish more, and those more again.
When the first publishing returns, all these events have been dispatched, one after the other
and in the order in which they were published (`cascade`).

## Strategy

That nothing is lost or reordered is a matter of the queue (`queue_trail`).  What remains is
that the call ends with the queue empty.  It is followed on the agenda: until it returns, what
it has put there ends in its dispatch and the drains behind it (`InCall`), so a failing
listener cuts nothing off below.
-/

namespace Parley

/-! ## The call on the agenda -/

namespace Task

/-- A list of drains of a bus. -/
def Drains (b : BusId) (drains : List Task) : Prop :=
  ∀ task ∈ drains, ∃ event holds, task = .drain b event holds

/-- What an outermost call of publishing has put on the agenda, above `rest`: its dispatch with
the work of a listener before it and drains behind it, or drains alone. -/
inductive InCall (b : BusId) (rest : List Task) : List Task → Prop
  | calling (before : List Task) {drains : List Task} {f : Task → Task}
      (hdrains : Drains b drains) (hf : KeepsFrames f) :
      InCall b rest (before ++ .dispatch b :: (drains ++ rest.map f))
  | draining {drains : List Task} {f : Task → Task} (hdrains : Drains b drains)
      (hne : drains ≠ []) (hf : KeepsFrames f) : InCall b rest (drains ++ rest.map f)

variable {b : BusId} {rest : List Task}

theorem InCall.length_lt {agenda : List Task} (h : InCall b rest agenda) :
    rest.length < agenda.length := by
  cases h with
  | calling before hdrains hf => simp; omega
  | draining hdrains hne hf =>
      have := List.length_pos_of_ne_nil hne
      simp
      omega

/-- A dispatch that has just begun on an idle bus. -/
theorem inCall_dispatch (b : BusId) (rest : List Task) : InCall b rest (.dispatch b :: rest) := by
  have hbegun : InCall b rest ([] ++ .dispatch b :: ([] ++ rest.map id)) :=
    .calling [] (by simp [Drains]) keepsFrames_id
  rwa [List.map_id] at hbegun

theorem Drains.map {drains : List Task} (h : Drains b drains) {f : Task → Task}
    (hf : KeepsFrames f) : drains.map f = drains := by
  refine (List.map_congr_left fun task ht => ?_).trans drains.map_id
  obtain ⟨event, holds, rfl⟩ := h task ht
  exact hf.eq_of_isFrame (by rw [hf.isFrame]; rfl)

/-- Routine work of a listener stays within the call. -/
theorem Continues.inCall {task : Task} {w : World} {before drains agenda : List Task}
    {f : Task → Task}
    (h : Continues task w (before ++ .dispatch b :: (drains ++ rest.map f)) agenda)
    (hdrains : Drains b drains) (hf : KeepsFrames f) : InCall b rest agenda := by
  have hmap : ∀ {g : Task → Task}, KeepsFrames g →
      (before ++ .dispatch b :: (drains ++ rest.map f)).map g =
        before.map g ++ .dispatch b :: (drains ++ rest.map (g ∘ f)) := by
    intro g hg
    have hdispatch : g (.dispatch b) = .dispatch b :=
      hg.eq_of_isFrame (by rw [hg.isFrame]; rfl)
    simp [hdispatch, hdrains.map hg]
  cases h with
  | @push tasks g htasks hg =>
      rw [hmap hg, ← List.append_assoc]
      exact .calling _ hdrains (hf.comp hg)
  | @cut cutOff _ g hg heq hcutOff hafter =>
      rw [hmap hg] at heq
      rcases List.append_eq_append_iff.mp heq with ⟨gap, hgap, htail⟩ | ⟨gap, hgap, rfl⟩
      · cases gap with
        | nil =>
            rw [List.nil_append] at htail
            rw [← htail]
            exact .calling [] hdrains (hf.comp hg)
        | cons task gap =>
            obtain ⟨rfl, -⟩ := List.cons.inj htail
            exact absurd (hgap ▸ by simp) (hcutOff b)
      · exact .calling gap hdrains (hf.comp hg)

end Task

namespace Machine

variable {m : Machine} {b : BusId} {rest : List Task}

/-- A step of the call stays within the call or returns from it. -/
theorem inCall_step (h : Sound m) (hcall : Task.InCall b rest m.agenda) :
    Task.InCall b rest m.step.agenda ∨
      ∃ f, Task.KeepsFrames f ∧ m.step.agenda = rest.map f := by
  generalize hagenda : m.agenda = agenda at hcall
  cases hcall with
  | @calling before drains f hdrains hf =>
      left
      cases before with
      | nil =>
          rw [List.nil_append] at hagenda
          obtain ⟨d, hd⟩ := h.exists_dispatching hagenda
          cases hcalling : (m.reached d).calling with
          | some sub =>
              obtain ⟨-, hstep⟩ := step_dispatch_of_calling hagenda hd hcalling
              rw [hstep]
              exact .calling [.deliver b sub.listener] hdrains hf
          | none =>
              obtain ⟨-, hstep⟩ := step_dispatch_of_done hagenda hd hcalling
              rw [hstep, ← List.cons_append]
              exact .draining (List.forall_mem_cons.mpr ⟨⟨_, _, rfl⟩, hdrains⟩) (by simp) hf
      | cons task before =>
          rw [List.cons_append] at hagenda
          cases hworks : task.worksBus with
          | false =>
              have hknown : task.Known m.world := h.known task (by simp [hagenda])
              exact (continues_step hagenda hknown hworks).inCall hdrains hf
          | true =>
              -- A bus task puts its own tasks in place of itself.
              obtain ⟨tasks, -, hstep⟩ := h.exists_step_agenda_eq hagenda hworks
              rw [hstep, ← List.append_assoc]
              exact .calling _ hdrains hf
  | @draining drains f hdrains hne hf =>
      obtain ⟨task, drains, rfl⟩ := List.exists_cons_of_ne_nil hne
      rw [Task.Drains, List.forall_mem_cons] at hdrains
      obtain ⟨⟨event, holds, rfl⟩, hlater⟩ := hdrains
      rw [List.cons_append] at hagenda
      cases hqueue : (m.world.bus b).queue with
      | nil =>
          obtain ⟨-, hstep⟩ := step_drain_of_empty hagenda hqueue
          rw [hstep]
          by_cases hnil : drains = []
          · exact .inr ⟨f, hf, by rw [hnil, List.nil_append]⟩
          · exact .inl (.draining hlater hnil hf)
      | cons first more =>
          obtain ⟨-, hstep⟩ := step_drain_of_cons hagenda hqueue
          rw [hstep, ← List.cons_append]
          exact .inl (.calling []
            (List.forall_mem_cons.mpr ⟨⟨event, holds, rfl⟩, hlater⟩) hf)

/-! ## Returning -/

/-- The task in front of the agenda is done after `n` steps and not before. -/
structure Returns (m : Machine) (n : ℕ) : Prop where
  running : ∀ i < n, m.agenda.length ≤ (step^[i] m).agenda.length
  returned : (step^[n] m).agenda.length < m.agenda.length

/-- Publishing on an idle bus leaves the agenda below it in place when it returns. -/
theorem exists_map_of_returns {event : Event LineRef} {n : ℕ} (h : Sound m)
    (hagenda : m.agenda = .publish b event :: rest)
    (hidle : (m.world.bus b).isPublishing = false) (hn : Returns m n) :
    ∃ f, Task.KeepsFrames f ∧ (step^[n] m).agenda = rest.map f := by
  have hlength : m.agenda.length = rest.length + 1 := by rw [hagenda, List.length_cons]
  -- Each step stays within the call, unless it returns; and it does not return before `n`.
  have hcall : ∀ i, i < n → Task.InCall b rest (step^[i + 1] m).agenda ∨
      ∃ f, Task.KeepsFrames f ∧ (step^[i + 1] m).agenda = rest.map f := by
    intro i hi
    induction i with
    | zero =>
        obtain ⟨-, hstep⟩ := step_publish_of_idle hagenda hidle
        rw [Function.iterate_one, hstep]
        exact .inl (Task.inCall_dispatch b rest)
    | succ i ih =>
        rw [Function.iterate_succ_apply']
        rcases ih (by omega) with hcall | ⟨f, hf, heq⟩
        · exact inCall_step (h.iterate _) hcall
        · have := hn.running (i + 1) hi
          rw [heq, List.length_map] at this
          omega
  cases n with
  | zero => exact absurd hn.returned (by simp)
  | succ n =>
      rcases hcall n (by omega) with hlast | hdone
      · have := hlast.length_lt
        have := hn.returned
        omega
      · exact hdone

/-- All events published in the course of a call are dispatched, each once and in the order in
which they were published; a listener is called only while no other dispatch of the bus is
under way; and in the end the bus is idle, its queue is empty, and the call has returned. -/
theorem cascade {event : Event LineRef} {n : ℕ} (h : Reachable m)
    (hagenda : m.agenda = .publish b event :: rest)
    (hidle : (m.world.bus b).isPublishing = false) (hn : Returns m n) :
    (trail n m).flatMap (begun b) = (trail n m).flatMap (published b) ∧
      (∀ m' ∈ trail n m, ∀ listener tasks, m'.agenda = .deliver b listener :: tasks →
        ∃ below, tasks = .dispatch b :: below ∧ .dispatch b ∉ below) ∧
      ((step^[n] m).world.bus b).queue = [] ∧
      ((step^[n] m).world.bus b).isPublishing = false ∧
      (step^[n] m).agenda.length = rest.length := by
  have hsound := h.sound
  obtain ⟨f, hf, hdone⟩ := exists_map_of_returns hsound hagenda hidle hn
  obtain ⟨-, hfirst⟩ := (hagenda ▸ hsound.stacked :
    Task.Stacked (.publish b event :: rest)).below_rest (by simp) (by simp)
  have hlast := (hsound.iterate n).accounted b
  have hidleLast : ((step^[n] m).world.bus b).isPublishing = false := by
    have hnone := (hsound.accounted b).depth
    rw [hidle, hagenda, List.countP_cons_of_neg (by simp [Task.dispatches])] at hnone
    have hdepth := hlast.depth
    rw [hdone, Task.countP_dispatches_map hf, hnone] at hdepth
    cases hpub : ((step^[n] m).world.bus b).isPublishing with
    | false => rfl
    | true => simp [hpub] at hdepth
  have hqueue : (m.world.bus b).queue = [] :=
    (hsound.accounted b).queue_eq_nil hidle (hagenda ▸ not_draining_cons (by simp) rest)
  have hqueueLast : ((step^[n] m).world.bus b).queue = [] := by
    refine hlast.queue_eq_nil hidleLast ?_
    rw [hdone]
    exact (hfirst.map hf).not_draining b
  have htrail := queue_trail hsound b n
  rw [hqueue, hqueueLast, List.nil_append, List.append_nil] at htrail
  refine ⟨htrail.symm, ?_, hqueueLast, hidleLast, by rw [hdone, List.length_map]⟩
  rintro m' hm' listener tasks hdeliver
  obtain ⟨i, -, rfl⟩ := mem_trail.mp hm'
  have hsoundNow := hsound.iterate i
  obtain ⟨below, rfl⟩ := (hdeliver ▸ hsoundNow.stacked).exists_dispatch
  exact ⟨below, rfl, (hsoundNow.accounted b).dispatch_notMem_below hdeliver⟩

/-- A host with a handler that publishes two more events when it is first called and fails when
it is called again. -/
def echo : Machine :=
  course { world := World.ofHandlers [("echo",
      [(1, [.bus (.free "bus") (.publish (.dialogue .lineDisplayed) []),
        .bus (.free "bus") (.publish (.dialogue .dialogueOver) [])]), (2, [.fail "" ""])])] }
    [.bus (.free "bus") (.subscribe (.dialogue .nodeEntered) "echo" 0 false true),
      .bus (.free "bus") (.subscribe (.dialogue .lineDisplayed) "echo" 0 false true),
      .bus (.free "bus") (.publish (.dialogue .nodeEntered) [])] 6

theorem cascade_echo :
    Reachable echo ∧ Returns echo 25 ∧
      ((trail 25 echo).flatMap (begun (.free "bus"))).map Event.type =
        [.dialogue .nodeEntered, .dialogue .lineDisplayed, .dialogue .dialogueOver] ∧
      ((step^[25] echo).world.bus (.free "bus")).queue = [] := by
  have hreachable : Reachable echo := (execution_course (initial_ofHandlers _) _).reachable 6
  have hreturns : Returns echo 25 := ⟨by decide +kernel, by decide +kernel⟩
  have hagenda : echo.agenda =
      [.publish (.free "bus") { type := .dialogue .nodeEntered }] := rfl
  obtain ⟨hbegun, -, hqueue, -⟩ := cascade hreachable hagenda (by decide +kernel) hreturns
  exact ⟨hreachable, hreturns, hbegun ▸ by decide +kernel, hqueue⟩

end Machine

end Parley
