import Parley.Proofs.Machine.Execution

/-!
# What a step does to a bus

Seen from one bus, most steps only change it calmly.  The others enqueue an event, begin a
dispatch, go on to a listener, or end the dispatch.  `Sound.turn` says so once, with all that
such a step does to the bus, so that what follows need not look at tasks again.
-/

namespace Parley.Machine

variable {m : Machine} {b c : BusId} {task : Task} {rest : List Task}

/-! ## What can be seen of a step -/

/-- The event that the next step publishes on a bus, if it does. -/
def published (b : BusId) (m : Machine) : List (Event LineRef) :=
  match m.agenda with
  | .publish c event :: _ => if c = b then [event] else []
  | _ => []

/-- Whether the next step goes on with the dispatch of a bus. -/
def goesOn (b : BusId) (m : Machine) : Bool :=
  m.agenda.head?.any (Task.dispatches b)

/-- The listener that the next step hands the event of a bus to, if it does. -/
def delivered (b : BusId) (m : Machine) : Option Listener :=
  match m.agenda with
  | .deliver c listener :: _ => if c = b then some listener else none
  | _ => none

/-- The event that the next step begins to dispatch on a bus, if it does. -/
def begun (b : BusId) (m : Machine) : List (Event LineRef) :=
  match (m.world.bus b).dispatching, (m.step.world.bus b).dispatching with
  | none, some d => [d.event]
  | _, _ => []

theorem published_of_ne (h : m.agenda = task :: rest)
    (htask : ∀ event, task ≠ .publish b event) : published b m = [] := by
  rw [published, h]
  cases task with
  | publish c event =>
      have hc : c ≠ b := fun heq => htask event (heq ▸ rfl)
      simp [hc]
  | _ => rfl

theorem goesOn_cons (h : m.agenda = task :: rest) : goesOn b m = task.dispatches b := by
  rw [goesOn, h]
  rfl

theorem delivered_of_below (h : Task.Below m.agenda) : delivered b m = none := by
  unfold delivered
  split
  · rename_i c listener rest hagenda
    exact absurd (hagenda ▸ List.mem_cons_self) (h.deliver c listener)
  · rfl

/-! ## The turns of a bus -/

/-- What the next step does to a bus. -/
inductive Turn (b : BusId) (m : Machine) : Prop
  | aside (hpublished : published b m = []) (hgoes : goesOn b m = false)
      (hdelivered : delivered b m.step = none) (h : (m.world.bus b).Calm (m.step.world.bus b))
  | enqueues {event : Event LineRef} (hpublished : published b m = [event])
      (hgoes : goesOn b m = false) (hdelivered : delivered b m.step = none)
      (hpub : (m.world.bus b).isPublishing = true)
      (h : m.step.world.bus b = (m.world.bus b).enqueue event)
  | begins {event : Event LineRef} {more : List (Event LineRef)}
      (hpublished : (m.world.bus b).queue ++ published b m = event :: more)
      (hgoes : goesOn b m = false) (hdelivered : delivered b m.step = none)
      (hidle : (m.world.bus b).isPublishing = false)
      (h : m.step.world.bus b = { m.world.bus b with queue := more }.beginDispatch event)
  | calls {d : Dispatch} {sub : Subscription} (hpublished : published b m = [])
      (hgoes : goesOn b m = true) (hdelivered : delivered b m.step = some sub.listener)
      (hd : (m.world.bus b).dispatching = some d)
      (hcalling : (m.reached d).calling = some sub)
      (h : m.step.world.bus b = (m.world.bus b).modifyDispatch fun _ => m.reached d)
  | ends {d : Dispatch} (hpublished : published b m = []) (hgoes : goesOn b m = true)
      (hdelivered : delivered b m.step = none) (hd : (m.world.bus b).dispatching = some d)
      (hdone : (m.reached d).calling = none)
      (h : m.step.world.bus b = (m.world.bus b).endDispatch (m.reached d))

/-- A step that works on another bus. -/
theorem Turn.of_ne {f : Bus → Bus} (hagenda : m.agenda = task :: rest)
    (hworld : m.step.world = m.world.modifyBus c f) (hb : b ≠ c)
    (hpublish : ∀ event, task ≠ .publish b event) (hdispatch : task ≠ .dispatch b)
    (hdelivered : delivered b m.step = none) : Turn b m := by
  refine .aside (published_of_ne hagenda hpublish) ?_ hdelivered ?_
  · rw [goesOn_cons hagenda, Bool.eq_false_iff]
    exact fun htrue => hdispatch (Task.dispatches_eq_true_iff.mp htrue)
  · rw [hworld, World.bus_modifyBus_of_ne hb]
    exact .refl _

theorem Sound.turn_routine (h : Sound m) (hagenda : m.agenda = task :: rest)
    (htask : task.worksBus = false) (b : BusId) : Turn b m := by
  have hknown : task.Known m.world := h.known task (by simp [hagenda])
  obtain ⟨hbelow, -⟩ := h.below_step hagenda htask
  refine .aside (published_of_ne hagenda ?_) ?_ (delivered_of_below hbelow)
    ((calm_step hagenda hknown htask).bus b)
  · rintro event rfl
    simp [Task.worksBus] at htask
  · rw [goesOn_cons hagenda, Bool.eq_false_iff]
    intro htrue
    rw [Task.dispatches_eq_true_iff.mp htrue] at htask
    simp [Task.worksBus] at htask

theorem Sound.turn_publish {event : Event LineRef} (h : Sound m)
    (hagenda : m.agenda = .publish c event :: rest) (b : BusId) : Turn b m := by
  have hbus := h.hasBus_of_publish hagenda
  obtain ⟨hbelow, -⟩ :=
    (hagenda ▸ h.stacked : Task.Stacked (.publish c event :: rest)).below_rest (by simp) (by simp)
  have hgoes : goesOn b m = false := goesOn_cons hagenda
  cases hpub : (m.world.bus c).isPublishing with
  | true =>
      obtain ⟨hworld, hstep⟩ := step_publish_of_isPublishing hagenda hpub
      have hdelivered : delivered b m.step = none := delivered_of_below (hstep ▸ hbelow)
      by_cases hb : b = c
      · subst hb
        have hpublished : published b m = [event] := by simp [published, hagenda]
        refine .enqueues hpublished hgoes hdelivered hpub ?_
        rw [hworld, World.bus_modifyBus_self hbus]
      · exact .of_ne hagenda hworld hb (by simp [Ne.symm hb]) (by simp) hdelivered
  | false =>
      obtain ⟨hworld, hstep⟩ := step_publish_of_idle hagenda hpub
      have hdelivered : delivered b m.step = none := by rw [delivered, hstep]
      by_cases hb : b = c
      · subst hb
        -- An idle bus that is not about to drain has nothing waiting before this event.
        have hqueue : (m.world.bus b).queue = [] :=
          (h.accounted b).queue_eq_nil hpub (hagenda ▸ not_draining_cons (by simp) rest)
        have hpublished : (m.world.bus b).queue ++ published b m = [event] := by
          simp [hqueue, published, hagenda]
        refine .begins hpublished hgoes hdelivered hpub ?_
        rw [hworld, World.bus_modifyBus_self hbus, ← hqueue]
      · exact .of_ne hagenda hworld hb (by simp [Ne.symm hb]) (by simp) hdelivered

theorem Sound.turn_dispatch (h : Sound m) (hagenda : m.agenda = .dispatch c :: rest)
    (b : BusId) : Turn b m := by
  have hbus : m.world.HasBus c := h.known (.dispatch c) (by simp [hagenda])
  have hpublished : published b m = [] := published_of_ne hagenda (by simp)
  have hgoes : b = c → goesOn b m = true := by
    rintro rfl
    rw [goesOn_cons hagenda, Task.dispatches_eq_true_iff]
  obtain ⟨d, hd⟩ := h.exists_dispatching hagenda
  cases hcalling : (m.reached d).calling with
  | some sub =>
      obtain ⟨hworld, hstep⟩ := step_dispatch_of_calling hagenda hd hcalling
      by_cases hb : b = c
      · subst hb
        refine .calls hpublished (hgoes rfl) (by simp [delivered, hstep]) hd hcalling ?_
        rw [hworld, World.bus_modifyBus_self hbus]
      · exact .of_ne hagenda hworld hb (by simp) (by simp [Ne.symm hb])
          (by simp [delivered, hstep, Ne.symm hb])
  | none =>
      obtain ⟨hworld, hstep⟩ := step_dispatch_of_done hagenda hd hcalling
      have hdelivered : delivered b m.step = none := by rw [delivered, hstep]
      by_cases hb : b = c
      · subst hb
        refine .ends hpublished (hgoes rfl) hdelivered hd hcalling ?_
        rw [hworld, World.bus_modifyBus_self hbus]
      · exact .of_ne hagenda hworld hb (by simp) (by simp [Ne.symm hb]) hdelivered

theorem Sound.turn_drain {event : Event LineRef} {holds : List Listener} (h : Sound m)
    (hagenda : m.agenda = .drain c event holds :: rest) (b : BusId) : Turn b m := by
  have hbus : m.world.HasBus c := h.known (.drain c event holds) (by simp [hagenda])
  have hbelow : Task.Below (.drain c event holds :: rest) :=
    (hagenda ▸ h.stacked : Task.Stacked (.drain c event holds :: rest)).below_of_ne (by simp)
  have hpublished : published b m = [] := published_of_ne hagenda (by simp)
  have hgoes : goesOn b m = false := goesOn_cons hagenda
  cases hqueue : (m.world.bus c).queue with
  | nil =>
      obtain ⟨hworld, hstep⟩ := step_drain_of_empty hagenda hqueue
      refine .aside hpublished hgoes (delivered_of_below (hstep ▸ hbelow.tail)) ?_
      rw [hworld]
      exact .refl _
  | cons first more =>
      obtain ⟨hworld, hstep⟩ := step_drain_of_cons hagenda hqueue
      have hdelivered : delivered b m.step = none := by rw [delivered, hstep]
      by_cases hb : b = c
      · subst hb
        have hidle := (h.accounted b).draining (hagenda ▸ ⟨event, holds, rfl⟩)
        refine .begins (by rw [hpublished, hqueue, List.append_nil]) hgoes hdelivered hidle ?_
        rw [hworld, World.bus_modifyBus_self hbus]
      · exact .of_ne hagenda hworld hb (by simp) (by simp) hdelivered

/-- Every step takes one of these turns, for each bus. -/
theorem Sound.turn (h : Sound m) (b : BusId) : Turn b m := by
  cases hagenda : m.agenda with
  | nil =>
      have hstep := step_of_agenda_eq_nil hagenda
      refine .aside (by rw [published, hagenda]) (by rw [goesOn, hagenda]; rfl)
        (by rw [delivered, hstep, hagenda]) ?_
      rw [hstep]
      exact .refl _
  | cons task rest =>
      cases hworks : task.worksBus with
      | false => exact h.turn_routine hagenda hworks b
      | true =>
          cases task with
          | publish c event => exact h.turn_publish hagenda b
          | dispatch c => exact h.turn_dispatch hagenda b
          | drain c event holds => exact h.turn_drain hagenda b
          | _ => exact absurd hworks (by simp [Task.worksBus])

/-! ## What has begun -/

theorem begun_of_isPublishing (h : (m.world.bus b).isPublishing = true) : begun b m = [] := by
  obtain ⟨d, hd⟩ := Option.isSome_iff_exists.mp h
  simp [begun, hd]

/-- A dispatch begins on a bus that is idle. -/
theorem idle_of_begun {event : Event LineRef} (h : begun b m = [event]) :
    (m.world.bus b).isPublishing = false := by
  by_contra hpub
  rw [begun_of_isPublishing (by simpa using hpub)] at h
  exact absurd h (by simp)

theorem begun_of_isPublishing_eq
    (h : (m.step.world.bus b).isPublishing = (m.world.bus b).isPublishing) : begun b m = [] := by
  cases hpub : (m.world.bus b).isPublishing with
  | true => exact begun_of_isPublishing hpub
  | false =>
      have hnone : (m.step.world.bus b).dispatching = none := by
        simpa [Bus.isPublishing] using h.trans hpub
      unfold begun
      rw [hnone]
      split
      · rename_i heq
        exact absurd heq (by simp)
      · rfl

theorem begun_of_beginDispatch {bus : Bus} {event : Event LineRef}
    (hidle : (m.world.bus b).isPublishing = false)
    (hbus : m.step.world.bus b = bus.beginDispatch event) : begun b m = [event] := by
  have hnone : (m.world.bus b).dispatching = none := by simpa [Bus.isPublishing] using hidle
  simp [begun, hnone, hbus, Bus.beginDispatch]

end Parley.Machine
