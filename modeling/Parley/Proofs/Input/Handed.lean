import Parley.Proofs.Input.Stage

/-!
# From a report to the session

Input that is reported while the bus of a display is idle is at its session in three steps, if the
session alone listens to the display and is alive: a dispatch begins (`Idle.begun_step`), it comes
to the session (`Begun.handed_step`), and the session reads its operation from the event
(`Handed.step`).  Until then nothing has changed but that bus (`Execution.in_hand`).
-/

namespace Parley.Machine

variable {x : ℕ → Machine} {m : Machine} {d : DisplayId} {s : SessionId} {event : Event LineRef}
  {kind : ContextEvent} {rest : List Task} {i : ℕ}

/-- Nothing is published on the bus of a display, and nothing waits there. -/
structure Idle (d : DisplayId) (m : Machine) : Prop where
  publishing : (m.world.bus (.display d)).isPublishing = false
  queue : (m.world.bus (.display d)).queue = []

theorem Sound.idle_of_agenda (h : Sound m)
    (hpublishing : (m.world.bus (.display d)).isPublishing = false)
    (hdrain : ∀ event holds, m.agenda.head? ≠ some (.drain (.display d) event holds)) :
    Idle d m := by
  refine ⟨hpublishing, (h.accounted (.display d)).queue_eq_nil hpublishing ?_⟩
  rintro ⟨event, holds, hhead⟩
  exact hdrain event holds hhead

/-- The dispatch of an event has begun that a session alone may hear, and nothing waits behind
it. -/
structure Begun (s : SessionId) (d : DisplayId) (event : Event LineRef) (rest : List Task)
    (m : Machine) : Prop where
  agenda : m.agenda = .dispatch (.display d) :: rest
  dispatching : (m.world.bus (.display d)).dispatching =
    ((World.listen s {}).beginDispatch event).dispatching
  queue : (m.world.bus (.display d)).queue = []

/-- A session is about to be handed an input, and nothing waits behind it. -/
structure Handed (s : SessionId) (d : DisplayId) (event : Event LineRef) (kind : ContextEvent)
    (rest : List Task) (m : Machine) : Prop where
  agenda : m.agenda =
    .deliver (.display d) (.input s kind) :: .dispatch (.display d) :: rest
  dispatch : ∃ dispatch, (m.world.bus (.display d)).dispatching = some dispatch ∧
    Heard s kind dispatch ∧ dispatch.event = event
  queue : (m.world.bus (.display d)).queue = []

theorem Idle.begun_step (hidle : Idle d m) (hears : m.world.Hears d s)
    (hagenda : m.agenda = .publish (.display d) event :: rest) :
    Begun s d event rest m.step ∧ m.step.world.hush d = m.world.hush d := by
  obtain ⟨hstep, hrest⟩ := step_publish_of_idle hagenda hidle.publishing
  have hsubs : (m.world.bus (.display d)).subscriptions =
      (World.listen s {}).subscriptions := hears
  have hbus := World.bus_modifyBus_self hears.hasBus fun bus => bus.beginDispatch event
  rw [← hstep] at hbus
  refine ⟨⟨hrest, ?_, ?_⟩, by rw [hstep, World.hush_modifyBus_self]⟩
  · rw [hbus, Bus.beginDispatch, Bus.beginDispatch, hsubs]
  · exact (congrArg Bus.queue hbus).trans hidle.queue

theorem Begun.handed_step (h : Begun s d event rest m) (hd : m.world.HasBus (.display d))
    (halive : m.world.sessionAlive {} s = true) (htype : event.type = .context kind) :
    Handed s d event kind rest m.step ∧ m.step.world.hush d = m.world.hush d := by
  obtain ⟨dispatch, hdispatch⟩ : ∃ dispatch,
      ((World.listen s {}).beginDispatch event).dispatching = some dispatch := ⟨_, rfl⟩
  have hdispatching := h.dispatching.trans hdispatch
  obtain ⟨hevent, hcalling, heard⟩ := reached_begun (m := m) halive htype hdispatch.symm
  obtain ⟨hstep, hrest⟩ := step_dispatch_of_calling h.agenda hdispatching hcalling
  have hbus := World.bus_modifyBus_self hd
    fun bus => bus.modifyDispatch fun _ => m.reached dispatch
  rw [← hstep] at hbus
  refine ⟨⟨hrest, ⟨m.reached dispatch, ?_, heard, hevent⟩, ?_⟩,
    by rw [hstep, World.hush_modifyBus_self]⟩
  · rw [hbus, Bus.modifyDispatch, hdispatching]
    rfl
  · exact (congrArg Bus.queue hbus).trans h.queue

theorem Handed.step (h : Handed s d event kind rest m) :
    m.step.agenda = input s event kind :: .leave s :: .dispatch (.display d) :: rest ∧
      m.step.world = m.world := by
  obtain ⟨dispatch, hdispatching, -, rfl⟩ := h.dispatch
  have hstep := step_eq h.agenda
  dsimp only [exec, deliver] at hstep
  rw [hdispatching] at hstep
  rw [hstep]
  exact ⟨rfl, rfl⟩

end Parley.Machine
