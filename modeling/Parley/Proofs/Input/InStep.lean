import Parley.Proofs.Input.BesideSteps

/-!
# In step

Each step of a session at work on an input is matched by steps of the operation called directly
(`Twin.step`).  All but one of the tasks take one step on both sides.  Input that is reported on
the way waits in the queue of the bus on one side; on the other it is dispatched at once, to
nobody.
-/

namespace Parley.Machine

variable {d : DisplayId} {s : SessionId} {earlier : List TraceEntry} {m m' : Machine}
  {now now' work below : List Task} {task : Task}

/-! ## The work of other buses -/

theorem Twin.publish (h : Twin d s earlier m m') {b : BusId} (hb : b ≠ .display d)
    (event : Event LineRef) : Beside d s earlier (m.publish b event) (m'.publish b event) := by
  unfold Machine.publish
  rw [h.bus hb]
  split
  · exact ((h.withWorld (World.hush_modifyBus_of_ne hb _)).give _ _).beside
  · exact ((h.withWorld (World.hush_modifyBus_of_ne hb _)).push (by simpa using hb)).beside

theorem Twin.dispatch (h : Twin d s earlier m m') (hlife : SameLife now now' m m') {b : BusId}
    (hb : b ≠ .display d) : Beside d s earlier (m.dispatch now b) (m'.dispatch now' b) := by
  unfold Machine.dispatch
  rw [h.bus hb, hlife]
  split
  · exact h.beside
  · dsimp only
    split
    · exact ((h.withWorld (World.hush_modifyBus_of_ne hb _)).push (by simpa using hb)).beside
    · exact ((h.withWorld (World.hush_modifyBus_of_ne hb _)).push (by simpa using hb)).beside

theorem Twin.drain (h : Twin d s earlier m m') {b : BusId} (hb : b ≠ .display d)
    (event : Event LineRef) (holds : List Listener) :
    Beside d s earlier (m.drain b event holds) (m'.drain b event holds) := by
  unfold Machine.drain
  rw [h.bus hb]
  split
  · exact (h.give _ _).beside
  · exact ((h.withWorld (World.hush_modifyBus_of_ne hb _)).push (by simpa using hb)).beside

/-! ## One task -/

theorem Twin.exec (h : Twin d s earlier m m') (hlife : SameLife now now' m m')
    (hd : m.world.HasBus (.display d)) (hs : s.index < m.world.sessions.length)
    (htask : task.Beyond d) (hpublish : ∀ event, task ≠ .publish (.display d) event)
    (hears : (m.exec now task).world.Hears d s) :
    Beside d s earlier (m.exec now task) (m'.exec now' task) := by
  cases task with
  | start t title => exact h.start t title
  | proceed t => exact h.proceed t
  | follow t key destination => exact h.follow t key destination
  | present t line => exact h.present t line
  | fireShown t line => exact h.fireShown t line
  | load t data start => exact h.load t data start
  | finish t onComplete => exact h.finish t onComplete
  | handleAction t tag param => exact h.handleAction t tag param
  | actions sink course => exact h.actions sink course
  | multicast called waiting param => exact h.multicast called waiting param
  | leave t => exact h.beside
  | showNode e title => exact h.showNode e title
  | showLine e line => exact h.showLine hlife e line
  | showOver e => exact h.showOver e
  | close e callback => exact h.close e callback
  | settle e callback => exact h.settle e callback
  | flush e settled waiting => exact h.flush e settled waiting
  | hook name text => exact h.hook name text
  | callback c => exact h.callback hlife c
  | publish b event => exact h.publish (fun hb => hpublish event (hb ▸ rfl)) event
  | dispatch b => exact h.dispatch hlife htask
  | drain b event holds => exact h.drain htask event holds
  | deliver b listener => exact h.deliver htask listener
  | call handler param => exact h.runHandler handler (by simp) _
  | callWith handler b => exact h.callWith handler htask
  | script handler source steps => exact h.script handler htask steps
  | returned handler step => exact h.returned handler step
  | launch id graph e title node name => exact h.launch hd hs id graph e title node name hears
  | forget id => exact h.forget id
  | perform step => exact h.perform hd hs step hears
  | adopt t name answer => exact h.adopt t name answer
  | answer a => exact (h.give _ _).beside
  | hold t => exact h.beside

/-! ## Input that is reported on the way -/

/-- With its display hushed, an event is dispatched to nobody. -/
theorem publish_hushed {w : World} {event : Event LineRef} {rest : List Task}
    (hd : w.HasBus (.display d)) (hworld : m.world = w.hush d)
    (hagenda : m.agenda = .publish (.display d) event :: rest) :
    ∃ answer, step^[3] m = { m with agenda := rest, result := .ok answer } := by
  have hbus : m.world.bus (.display d) = {} := by rw [hworld, World.bus_hush_self]
  have hd : m.world.HasBus (.display d) := hworld ▸ World.hasBus_modifyDisplay.mpr hd
  let nobody : Dispatch := { event, snapshot := [], waiting := [] }
  have hbegun : m.step = { m with
      world := m.world.modifyBus (.display d) fun bus => bus.beginDispatch event
      agenda := .dispatch (.display d) :: rest } := by
    rw [step_eq hagenda]
    dsimp only [exec, publish]
    rw [hbus]
    rfl
  have hdispatching : (m.step.world.bus (.display d)).dispatching = some nobody := by
    rw [hbegun, World.bus_modifyBus_self hd, hbus]
    rfl
  have hended : m.step.step = { m with
      world := m.step.world.modifyBus (.display d) fun bus => bus.endDispatch nobody
      agenda := .drain (.display d) event [] :: rest } := by
    rw [step_eq (m := m.step) (by rw [hbegun])]
    dsimp only [exec, dispatch]
    rw [hdispatching, hbegun]
    rfl
  have hkept : m.step.step.world = m.world := by
    rw [hended, hbegun, World.modifyBus_modifyBus, hworld]
    exact World.modifyBus_hush_self rfl
  have hdrained : m.step.step.step = { m with
      agenda := rest, result := .ok (.event (m.world.written event)) } := by
    have hrest : { m.step.step with agenda := rest } = { m with agenda := rest } := by
      rw [← hkept]
      rw [hended]
    rw [step_eq (m := m.step.step) (by rw [hended]), hrest]
    dsimp only [exec, drain]
    rw [hbus]
    rfl
  exact ⟨_, hdrained⟩

/-! ## Every step -/

/-- The conditions under which an input of a display is worked on. -/
structure Operating (d : DisplayId) (s : SessionId) (m : Machine) : Prop where
  hears : m.world.Hears d s
  keeps : KeepsOnly d s m.world
  publishing : (m.world.bus (.display d)).isPublishing = true
  there : s.index < m.world.sessions.length

theorem Twin.step_publish (h : Twin d s earlier m m') (ho : Operating d s m)
    {event : Event LineRef}
    (hagenda : m.agenda = .publish (.display d) event :: (work ++
      .leave s :: .dispatch (.display d) :: below))
    (hagenda' : m'.agenda =
      .publish (.display d) event :: (work ++ [.leave s, .answer .nothing]))
    (hwork : ∀ task ∈ work, task.Beyond d) (hbelow : ∀ task ∈ below, task.Reports d s) :
    Twin d s earlier m.step (Machine.step^[3] m') := by
  obtain ⟨answer, hafter⟩ := publish_hushed ho.hears.hasBus h.world hagenda'
  have hqueued : m.step = ({ m with
      agenda := work ++ Task.leave s :: Task.dispatch (.display d) :: below }.withWorld fun w =>
        w.modifyBus (.display d) fun bus => bus.enqueue event).give
          (.event (m.world.written event)) := by
    rw [step_eq hagenda]
    dsimp only [Machine.exec, Machine.publish]
    rw [if_pos ho.publishing]
  rw [hqueued, hafter]
  refine ⟨?_, h.seen, ⟨answer, rfl⟩, work, below, rfl, rfl, hwork, hbelow⟩
  exact h.world.trans (World.hush_modifyBus_self _).symm

theorem Twin.step_leave (h : Twin d s earlier m m')
    (hagenda : m.agenda = .leave s :: .dispatch (.display d) :: below)
    (hagenda' : m'.agenda = [.leave s, .answer .nothing])
    (hbelow : ∀ task ∈ below, task.Reports d s) :
    Beside d s earlier m.step (Machine.step^[2] m') := by
  have hleft : m.step = { m with agenda := .dispatch (.display d) :: below } := step_eq hagenda
  have hleft' : m'.step = { m' with agenda := [.answer .nothing] } := step_eq hagenda'
  have hdone : m'.step.step = { m' with agenda := [], result := .ok .nothing } := by
    rw [hleft']
    rfl
  have htwice : Machine.step^[2] m' = m'.step.step := rfl
  rw [htwice, hleft, hdone]
  refine .ended h.world ?_ ⟨below, rfl, hbelow⟩ rfl
  rw [logged, List.append_nil]
  exact h.seen

theorem Twin.step (h : Twin d s earlier m m') (ho : Operating d s m)
    (hears : m.step.world.Hears d s) : ∃ j, Beside d s earlier m.step (Machine.step^[j] m') := by
  obtain ⟨work, below, hagenda, hagenda', hwork, hbelow⟩ := h.agenda
  have hlife := h.sameLife ho.hears ho.keeps
  cases work with
  | nil => exact ⟨2, h.step_leave hagenda hagenda' hbelow⟩
  | cons task work =>
      rw [List.forall_mem_cons] at hwork
      rw [List.cons_append] at hagenda hagenda'
      by_cases hpublish : ∃ event, task = .publish (.display d) event
      · obtain ⟨event, rfl⟩ := hpublish
        exact ⟨3, (h.step_publish ho hagenda hagenda' hwork.2 hbelow).beside⟩
      · refine ⟨1, ?_⟩
        have hpopped : Twin d s earlier
            { m with agenda := work ++ .leave s :: .dispatch (.display d) :: below }
            { m' with agenda := work ++ [.leave s, .answer .nothing] } :=
          ⟨h.world, h.seen, h.result, work, below, rfl, rfl, hwork.2, hbelow⟩
        rw [Function.iterate_one]
        rw [step_eq hagenda] at hears ⊢
        rw [step_eq hagenda']
        rw [hagenda, hagenda'] at hlife
        exact hpopped.exec hlife ho.hears.hasBus ho.there hwork.1
          (fun event heq => hpublish ⟨event, heq⟩) hears

end Parley.Machine
