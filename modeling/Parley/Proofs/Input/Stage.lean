import Parley.Proofs.Bus.Queue
import Parley.Proofs.Input.InStep

/-!
# The stages of an input

While a host reports input and nothing else, the work on a display is at one of a few stages: the
input is reported or waits, its dispatch begins, it is handed to the session, the session works on
it, or the session has returned (`Stage`).  A step leads from one stage to the next, and a session
that works on an input does what it would do if its operation were called directly
(`Stage.step`).
-/

namespace Parley

/-- Whether an event is input of a display. -/
def Event.isInput (event : Event LineRef) : Bool :=
  match event.type with
  | .context _ => true
  | .dialogue _ => false

theorem Event.isInput_of_type {event : Event LineRef} {kind : ContextEvent}
    (h : event.type = .context kind) : event.isInput = true := by
  rw [isInput, h]

namespace Machine

variable {d : DisplayId} {s : SessionId} {earlier : List TraceEntry} {m m' : Machine}
  {w : World} {event : Event LineRef} {kind : ContextEvent} {owed : List (Event LineRef)}

/-! ## Calling an operation directly -/

/-- A world in which a session is about to carry out the operation that an input asks for; the
agenda is that of a host that calls the operation (`performSession`). -/
def directly (s : SessionId) (event : Event LineRef) (kind : ContextEvent) (w : World) :
    Machine :=
  ({ world := w } : Machine).push [input s event kind, .leave s, .answer .nothing]

/-- What is seen of an operation that has ended.  Its failure is noted like that of a listener
that was called with the event. -/
def account (event : Event LineRef) (m : Machine) : List TraceEntry :=
  seen m.trace ++
    match m.result with
    | .ok _ => []
    | .error failure =>
      [.log .error ("Error in event handler for " ++ event.type.name) (some failure)]

/-! ## Stages -/

/-- A dispatch that has reached its only listener, a session. -/
structure Heard (s : SessionId) (kind : ContextEvent) (dispatch : Dispatch) : Prop where
  type : dispatch.event.type = .context kind
  waiting : dispatch.waiting = []
  holds : ∀ listener ∈ dispatch.holds, ∃ kind, listener = .input s kind

/-- Whether a step on a display reports input. -/
def isReport (w : World) (display : Display) : DisplayStep → Bool
  | .proceed | .select .. | .action .. | .actions .. => true
  | .choose number =>
    (display.onScreen.bind fun line => optionAt? (w.line line) number).isSome
  | _ => false

/-- Whether a step on a bus publishes an event. -/
def isPublication : BusStep → Bool
  | .publish .. | .publishEvent .. => true
  | _ => false

/-- Whether a step of a host reports input of a display. -/
def reportsInput (d : DisplayId) (w : World) : Step → Bool
  | .display name step =>
    w.displayNames.get? name = some d && (w.display? d).any fun display => isReport w display step
  | .bus (.display name) step => w.displayNames.get? name = some d && isPublication step
  | _ => false

/-- How far the work on the input of a display has got: what has been seen since it was at rest,
the world that the session had worked on when it was last called, and the event that is yet to be
worked on. -/
inductive Stage (d : DisplayId) (s : SessionId) (earlier : List TraceEntry) (w : World)
    (m : Machine) : List (Event LineRef) → Prop
  | asked {step : Step} (hagenda : m.agenda = [.perform step])
      (hstep : reportsInput d m.world step = true) (hworld : m.world.hush d = w)
      (hseen : seen m.trace = earlier) : Stage d s earlier w m []
  | aside (hagenda : ∀ task ∈ m.agenda, task.Reports d s) (hworld : m.world.hush d = w)
      (hseen : seen m.trace = earlier) : Stage d s earlier w m []
  | begun {event : Event LineRef} {below : List Task}
      (hagenda : m.agenda = .dispatch (.display d) :: below)
      (hbelow : ∀ task ∈ below, task.Reports d s)
      (hdispatching : (m.world.bus (.display d)).dispatching =
        ((World.listen s {}).beginDispatch event).dispatching)
      (hworld : m.world.hush d = w) (hseen : seen m.trace = earlier) :
      Stage d s earlier w m ([event].filter Event.isInput)
  | called {kind : ContextEvent} {below : List Task} {dispatch : Dispatch}
      (hagenda : m.agenda =
        .deliver (.display d) (.input s kind) :: .dispatch (.display d) :: below)
      (hbelow : ∀ task ∈ below, task.Reports d s)
      (hdispatching : (m.world.bus (.display d)).dispatching = some dispatch)
      (heard : Heard s kind dispatch) (hworld : m.world.hush d = w)
      (hseen : seen m.trace = earlier) : Stage d s earlier w m [dispatch.event]
  | working {event : Event LineRef} {kind : ContextEvent} {dispatch : Dispatch} {j : ℕ}
      (htype : event.type = .context kind)
      (htwin : Twin d s earlier m (step^[j] (directly s event kind w)))
      (hdispatching : (m.world.bus (.display d)).dispatching = some dispatch)
      (heard : Heard s kind dispatch) : Stage d s earlier w m [event]
  | answered {kind : ContextEvent} {below : List Task} {dispatch : Dispatch}
      (hagenda : m.agenda = .dispatch (.display d) :: below)
      (hbelow : ∀ task ∈ below, task.Reports d s)
      (hdispatching : (m.world.bus (.display d)).dispatching = some dispatch)
      (heard : Heard s kind dispatch) (hworld : m.world.hush d = w)
      (hseen : seen m.trace = earlier) : Stage d s earlier w m []

/-- What a step leads to: the work goes on, or an operation that was called directly at its
beginning has ended as well. -/
inductive Advance (d : DisplayId) (s : SessionId) (earlier : List TraceEntry) (w : World)
    (m : Machine) (owed : List (Event LineRef)) : Prop
  | goes (h : Stage d s earlier w m.step
      (owed ++ (begun (.display d) m).filter Event.isInput))
  | ends {event : Event LineRef} {kind : ContextEvent} {j : ℕ} (howed : owed = [event])
      (hbegun : begun (.display d) m = []) (htype : event.type = .context kind)
      (hdone : (step^[j] (directly s event kind w)).agenda = [])
      (h : Stage d s (earlier ++ account event (step^[j] (directly s event kind w)))
        (step^[j] (directly s event kind w)).world m.step [])

/-! ## Reporting -/

theorem trace_step_publish {b : BusId} {rest : List Task}
    (h : m.agenda = .publish b event :: rest) : m.step.trace = m.trace := by
  rw [step_eq h]
  dsimp only [exec, publish]
  split <;> rfl

theorem trace_step_dispatch {b : BusId} {rest : List Task} (h : m.agenda = .dispatch b :: rest) :
    m.step.trace = m.trace := by
  rw [step_eq h]
  dsimp only [exec, dispatch]
  split
  · rfl
  · split <;> rfl

theorem trace_step_drain {b : BusId} {holds : List Listener} {rest : List Task}
    (h : m.agenda = .drain b event holds :: rest) : m.step.trace = m.trace := by
  rw [step_eq h]
  dsimp only [exec, drain]
  split <;> rfl

/-- A dispatch that begins on the bus of the display is at its first stage. -/
theorem Stage.of_begins {bus : Bus} {below : List Task}
    (hagenda : m.agenda = .dispatch (.display d) :: below)
    (hbelow : ∀ task ∈ below, task.Reports d s)
    (hbus : m.world.bus (.display d) = bus.beginDispatch event)
    (hears : m.world.Hears d s) (hworld : m.world.hush d = w) (hseen : seen m.trace = earlier) :
    Stage d s earlier w m ([event].filter Event.isInput) := by
  have hsubs : bus.subscriptions = (World.listen s {}).subscriptions := by
    rw [World.Hears, hbus] at hears
    exact hears
  refine .begun hagenda hbelow ?_ hworld hseen
  rw [hbus, Bus.beginDispatch, Bus.beginDispatch, hsubs]

/-- A step that leaves the world as it is begins no dispatch. -/
theorem advance_of_world_eq (hstep : m.step.world = m.world)
    (h : Stage d s earlier w m.step owed) : Advance d s earlier w m owed := by
  refine .goes ?_
  rw [begun_of_isPublishing_eq (by rw [hstep]), List.filter_nil, List.append_nil]
  exact h

/-- Reports are made one after the other, and a dispatch begins with each. -/
theorem advance_aside (h : Sound m) (hd : m.world.HasBus (.display d))
    (hears : m.step.world.Hears d s) (hagenda : ∀ task ∈ m.agenda, task.Reports d s)
    (hworld : m.world.hush d = w) (hseen : seen m.trace = earlier) :
    Advance d s earlier w m [] := by
  have hidle : (m.world.bus (.display d)).isPublishing = false := by
    by_contra hpub
    have hmem := (h.accounted (.display d)).dispatch_mem (by simpa using hpub)
    exact hagenda _ hmem
  cases htasks : m.agenda with
  | nil =>
      have hstep := step_of_agenda_eq_nil htasks
      exact advance_of_world_eq (by rw [hstep]) (hstep.symm ▸ .aside hagenda hworld hseen)
  | cons task rest =>
      rw [htasks, List.forall_mem_cons] at hagenda
      cases task with
      | publish b event =>
          obtain rfl : b = .display d := hagenda.1
          obtain ⟨hbegun, hrest⟩ := step_publish_of_idle htasks hidle
          have hbus := World.bus_modifyBus_self hd fun bus => bus.beginDispatch event
          rw [← hbegun] at hbus
          refine .goes ?_
          rw [begun_of_beginDispatch hidle hbus, List.nil_append]
          refine .of_begins hrest hagenda.2 hbus hears ?_ ?_
          · rw [hbegun, World.hush_modifyBus_self, hworld]
          · rw [trace_step_publish htasks, hseen]
      | drain b event holds =>
          obtain rfl : b = .display d := hagenda.1.1
          cases hqueue : (m.world.bus (.display d)).queue with
          | nil =>
              obtain ⟨hsame, hrest⟩ := step_drain_of_empty htasks hqueue
              refine advance_of_world_eq hsame (.aside (hrest ▸ hagenda.2) (hsame ▸ hworld) ?_)
              rw [trace_step_drain htasks, hseen]
          | cons first more =>
              obtain ⟨hbegun, hrest⟩ := step_drain_of_cons htasks hqueue
              have hbus := World.bus_modifyBus_self hd
                fun bus => { bus with queue := more }.beginDispatch first
              rw [← hbegun] at hbus
              refine .goes ?_
              rw [begun_of_beginDispatch hidle hbus, List.nil_append]
              refine .of_begins hrest (List.forall_mem_cons.mpr hagenda) hbus hears ?_ ?_
              · rw [hbegun, World.hush_modifyBus_self, hworld]
              · rw [trace_step_drain htasks, hseen]
      | actions sink course =>
          obtain rfl : sink = .display d := hagenda.1
          have hstep := step_eq htasks
          dsimp only [exec, actions] at hstep
          split at hstep
          · exact advance_of_world_eq (by rw [hstep])
              (hstep.symm ▸ .aside hagenda.2 hworld hseen)
          · refine advance_of_world_eq (by rw [hstep]; rfl) (hstep.symm ▸ .aside ?_ hworld hseen)
            rw [agenda_push, List.forall_mem_append]
            exact ⟨by simp [tell], hagenda.2⟩
      | answer a =>
          have hstep := step_eq htasks
          exact advance_of_world_eq (by rw [hstep]; rfl)
            (hstep.symm ▸ .aside hagenda.2 hworld hseen)
      | _ => exact absurd hagenda.1 (by simp)

/-! ## Asking -/

/-- The machine has put nothing but reports on the agenda. -/
structure Reported (d : DisplayId) (s : SessionId) (m m' : Machine) : Prop where
  world : m'.world = m.world
  trace : m'.trace = m.trace
  agenda : ∀ task ∈ m'.agenda, task.Reports d s

theorem reported_push (h : m.agenda = []) {tasks : List Task}
    (htasks : ∀ task ∈ tasks, task.Reports d s) : Reported d s m (m.push tasks) :=
  ⟨rfl, rfl, by rwa [agenda_push, h, List.append_nil]⟩

theorem reported_fail (h : m.agenda = []) (failure : Failure) :
    Reported d s m (m.fail failure) := by
  rw [fail_of_unwind_eq_none (by rw [h]; rfl)]
  exact ⟨rfl, rfl, by simp⟩

theorem reported_performDisplay (h : m.agenda = []) {now : List Task} {display : Display}
    {step : DisplayStep} (hstep : isReport m.world display step = true) :
    Reported d s m (m.performDisplay now d display step) := by
  cases step with
  | proceed => exact reported_push h (by simp)
  | select key destination => exact reported_push h (by simp [performDisplay.select])
  | action tag param => exact reported_push h (by simp [tell])
  | actions session place =>
      dsimp only [performDisplay]
      rcases m.withSession_cases session _ with ⟨t, found, -, -, heq⟩ | heq <;> rw [heq]
      · rcases m.withLine_cases t found place _ with ⟨line, heq⟩ | ⟨failure, heq⟩ <;> rw [heq]
        · exact reported_push h (by simp)
        · exact reported_fail h _
      · exact reported_fail h _
  | choose number =>
      obtain ⟨choice, hchoice⟩ := Option.isSome_iff_exists.mp hstep
      dsimp only [performDisplay]
      rw [hchoice]
      exact reported_push h (by simp [performDisplay.select])
  | _ => exact absurd hstep (by simp [isReport])

theorem reported_perform (h : m.agenda = []) {now : List Task} {step : Step}
    (hstep : reportsInput d m.world step = true) : Reported d s m (m.perform now step) := by
  cases step with
  | display name step =>
      rw [reportsInput, Bool.and_eq_true, decide_eq_true_eq] at hstep
      dsimp only [perform]
      rcases m.withDisplay_cases name _ with ⟨e, display, he, hfound, heq⟩ | heq <;> rw [heq]
      · obtain rfl : d = e := Option.some.inj (hstep.1.symm.trans he)
        rw [hfound, Option.any_some] at hstep
        exact reported_performDisplay h hstep.2
      · exact reported_fail h _
  | bus name step =>
      cases name with
      | display name =>
          rw [reportsInput, Bool.and_eq_true, decide_eq_true_eq] at hstep
          dsimp only [perform, withBus]
          rcases m.withDisplay_cases name _ with ⟨e, display, he, hfound, heq⟩ | heq <;> rw [heq]
          · obtain rfl : d = e := Option.some.inj (hstep.1.symm.trans he)
            cases step with
            | publish type data => exact reported_push h (by simp)
            | publishEvent type data consumed => exact reported_push h (by simp)
            | _ => exact absurd hstep.2 (by simp [isPublication])
          · exact reported_fail h _
      | _ => exact absurd hstep (by simp [reportsInput])
  | _ => exact absurd hstep (by simp [reportsInput])

theorem advance_asked {step : Step} (hagenda : m.agenda = [.perform step])
    (hstep : reportsInput d m.world step = true) (hworld : m.world.hush d = w)
    (hseen : seen m.trace = earlier) : Advance d s earlier w m [] := by
  have hreported : Reported d s { m with agenda := [] } m.step := by
    rw [step_eq hagenda]
    exact reported_perform rfl hstep
  have hsame : m.step.world = m.world := hreported.world
  refine advance_of_world_eq hsame (.aside hreported.agenda (hsame ▸ hworld) ?_)
  rw [hreported.trace, hseen]

/-! ## Hearing -/

theorem begun_eq_nil {dispatch : Dispatch}
    (h : (m.world.bus (.display d)).dispatching = some dispatch) : begun (.display d) m = [] :=
  begun_of_isPublishing (by rw [Bus.isPublishing, h]; rfl)

/-- Work in progress keeps a session alive that is alive without it. -/
theorem sessionAlive_of_held (h : w.sessionAlive {} s = true) (held : World.Held) :
    w.sessionAlive held s = true := by
  rw [World.sessionAlive, List.contains_iff_mem] at h ⊢
  simp only [World.liveSessions, List.mem_append, List.flatMap_append] at h ⊢
  simp only [List.not_mem_nil, List.flatMap_nil, false_or, or_false] at h
  tauto

theorem reached_begun (halive : m.world.sessionAlive {} s = true)
    (htype : event.type = .context kind) {dispatch : Dispatch}
    (h : some dispatch = ((World.listen s {}).beginDispatch event).dispatching) :
    (m.reached dispatch).event = event ∧
      (m.reached dispatch).calling = some ⟨0, .input s kind, true, false⟩ ∧
      Heard s kind (m.reached dispatch) := by
  have halive := sessionAlive_of_held halive (Task.heldBy m.world m.agenda)
  have hsubs : (World.listen s {}).subscriptions event.type =
      [⟨0, .input s kind, true, false⟩] := by
    rw [htype, World.subscriptions_listen]
  rw [Bus.beginDispatch, hsubs, Option.some.injEq] at h
  have hreached : m.reached dispatch =
      { dispatch with
        waiting := []
        calling := some ⟨0, .input s kind, true, false⟩
        last := some (.input s kind) } := by
    rw [h]
    simp [reached, Dispatch.settle, Dispatch.next, Subscription.resolves, World.alive, halive]
  rw [hreached, h]
  refine ⟨rfl, rfl, htype, rfl, ?_⟩
  simp [Dispatch.holds]

theorem reached_unheard {type : DialogueEvent} (htype : event.type = .dialogue type)
    {dispatch : Dispatch}
    (h : some dispatch = ((World.listen s {}).beginDispatch event).dispatching) :
    (m.reached dispatch).calling = none ∧ (m.reached dispatch).holds = [] := by
  rw [Bus.beginDispatch, htype, World.subscriptions_listen_dialogue, Option.some.injEq] at h
  rw [h]
  exact ⟨rfl, rfl⟩

theorem Heard.reached {dispatch : Dispatch} (heard : Heard s kind dispatch) :
    (m.reached dispatch).calling = none ∧ (m.reached dispatch).holds = dispatch.holds := by
  obtain ⟨event, snapshot, waiting, calling, last, spent⟩ := dispatch
  obtain rfl : waiting = [] := heard.waiting
  cases calling with
  | none => exact ⟨rfl, rfl⟩
  | some sub => simp [Machine.reached, Dispatch.settle, Dispatch.next, Dispatch.holds]

/-- The dispatch of an input goes on to the session, as long as it is alive. -/
theorem advance_begun (hd : m.world.HasBus (.display d))
    (halive : m.world.sessionAlive {} s = true) {below : List Task}
    (hagenda : m.agenda = .dispatch (.display d) :: below)
    (hbelow : ∀ task ∈ below, task.Reports d s)
    (hdispatching : (m.world.bus (.display d)).dispatching =
      ((World.listen s {}).beginDispatch event).dispatching)
    (hworld : m.world.hush d = w) (hseen : seen m.trace = earlier) :
    Advance d s earlier w m ([event].filter Event.isInput) := by
  obtain ⟨dispatch, hdispatch⟩ : ∃ dispatch,
      ((World.listen s {}).beginDispatch event).dispatching = some dispatch := ⟨_, rfl⟩
  rw [hdispatch] at hdispatching
  have hadvance : Stage d s earlier w m.step ([event].filter Event.isInput) →
      Advance d s earlier w m ([event].filter Event.isInput) := fun h => by
    refine .goes ?_
    rw [begun_eq_nil hdispatching, List.filter_nil, List.append_nil]
    exact h
  apply hadvance
  have hseen' : seen m.step.trace = earlier := by rw [trace_step_dispatch hagenda, hseen]
  cases htype : event.type with
  | context kind =>
      obtain ⟨hevent, hcalling, heard⟩ := reached_begun (m := m) halive htype hdispatch.symm
      obtain ⟨hstep, hrest⟩ := step_dispatch_of_calling hagenda hdispatching hcalling
      have hbus := World.bus_modifyBus_self hd
        fun bus => bus.modifyDispatch fun _ => m.reached dispatch
      rw [← hstep] at hbus
      have howed : [event].filter Event.isInput = [(m.reached dispatch).event] := by
        rw [hevent]
        simp [Event.isInput_of_type htype]
      rw [howed]
      refine .called hrest hbelow ?_ heard ?_ hseen'
      · rw [hbus, Bus.modifyDispatch, hdispatching]
        rfl
      · rw [hstep, World.hush_modifyBus_self, hworld]
  | dialogue type =>
      obtain ⟨hdone, hholds⟩ := reached_unheard (m := m) htype hdispatch.symm
      obtain ⟨hstep, hrest⟩ := step_dispatch_of_done hagenda hdispatching hdone
      have howed : [event].filter Event.isInput = [] := by simp [Event.isInput, htype]
      rw [howed]
      refine .aside ?_ ?_ hseen'
      · rw [hrest, hholds]
        exact List.forall_mem_cons.mpr ⟨⟨rfl, by simp⟩, hbelow⟩
      · rw [hstep, World.hush_modifyBus_self, hworld]

/-- A session that is handed an input begins with the operation that it asks for. -/
theorem advance_called {below : List Task} {dispatch : Dispatch}
    (hagenda : m.agenda =
      .deliver (.display d) (.input s kind) :: .dispatch (.display d) :: below)
    (hbelow : ∀ task ∈ below, task.Reports d s)
    (hdispatching : (m.world.bus (.display d)).dispatching = some dispatch)
    (heard : Heard s kind dispatch) (hworld : m.world.hush d = w)
    (hseen : seen m.trace = earlier) : Advance d s earlier w m [dispatch.event] := by
  have hstep : m.step = ({ m with agenda := Task.dispatch (.display d) :: below } : Machine).push
      [input s dispatch.event kind, .leave s] := by
    rw [step_eq hagenda]
    dsimp only [exec, deliver]
    rw [hdispatching]
  refine advance_of_world_eq (by rw [hstep]; rfl) ?_
  refine .working (j := 0) heard.type ?_ (by rw [hstep]; exact hdispatching) heard
  refine ⟨?_, ?_, ⟨_, rfl⟩, [input s dispatch.event kind], below, ?_, rfl, ?_, hbelow⟩
  · rw [hstep]
    exact hworld.symm
  · rw [hstep]
    exact hseen.trans (List.append_nil _).symm
  · rw [hstep]
    rfl
  · cases kind <;> simp [input]

/-- When the session has returned, its dispatch ends. -/
theorem advance_answered {below : List Task} {dispatch : Dispatch}
    (hagenda : m.agenda = .dispatch (.display d) :: below)
    (hbelow : ∀ task ∈ below, task.Reports d s)
    (hdispatching : (m.world.bus (.display d)).dispatching = some dispatch)
    (heard : Heard s kind dispatch) (hworld : m.world.hush d = w)
    (hseen : seen m.trace = earlier) : Advance d s earlier w m [] := by
  obtain ⟨hdone, hholds⟩ := heard.reached (m := m)
  obtain ⟨hstep, hrest⟩ := step_dispatch_of_done hagenda hdispatching hdone
  refine .goes ?_
  rw [begun_eq_nil hdispatching]
  refine .aside ?_ ?_ (by rw [trace_step_dispatch hagenda, hseen])
  · rw [hrest, hholds]
    exact List.forall_mem_cons.mpr ⟨⟨rfl, heard.holds⟩, hbelow⟩
  · rw [hstep, World.hush_modifyBus_self, hworld]

/-! ## Working -/

/-- A session that works on an input does not go on with the dispatch. -/
theorem Twin.goesOn_eq_false (h : Twin d s earlier m m') : goesOn (.display d) m = false := by
  obtain ⟨work, below, hagenda, -, hwork, -⟩ := h.agenda
  cases work with
  | nil => exact goesOn_cons hagenda
  | cons task work =>
      rw [goesOn_cons hagenda, Bool.eq_false_iff]
      intro htrue
      have htask := hwork task List.mem_cons_self
      rw [Task.dispatches_eq_true_iff.mp htrue] at htask
      exact absurd rfl htask

theorem Heard.of_calm {dispatch : Dispatch} (heard : Heard s kind dispatch) {bus bus' : Bus}
    (h : bus.Calm bus') (hdispatching : bus.dispatching = some dispatch) :
    ∃ dispatch', bus'.dispatching = some dispatch' ∧ Heard s kind dispatch' := by
  cases h with
  | resubscribed h => exact ⟨dispatch, h.dispatching.trans hdispatching, heard⟩
  | consumed =>
      refine ⟨{ dispatch with event := dispatch.event.consume }, ?_,
        heard.type, heard.waiting, heard.holds⟩
      rw [Bus.consume, Bus.modifyDispatch, hdispatching]
      rfl

/-- While the session works on it, the input stays as it is, but for being consumed. -/
theorem Heard.step {dispatch : Dispatch} (heard : Heard s kind dispatch) (h : Sound m)
    (hgoes : goesOn (.display d) m = false)
    (hdispatching : (m.world.bus (.display d)).dispatching = some dispatch) :
    ∃ dispatch', (m.step.world.bus (.display d)).dispatching = some dispatch' ∧
      Heard s kind dispatch' := by
  cases h.turn (.display d) with
  | aside hpublished _ hdelivered hcalm => exact heard.of_calm hcalm hdispatching
  | enqueues hpublished _ hdelivered hpub hbus =>
      exact ⟨dispatch, by rw [hbus]; exact hdispatching, heard⟩
  | begins hpublished _ hdelivered hidle hbus =>
      exact absurd hidle (by simp [Bus.isPublishing, hdispatching])
  | calls hpublished hgoing hdelivered hd hcalling hbus =>
      exact absurd (hgoes.symm.trans hgoing) (by simp)
  | ends hpublished hgoing hdelivered hd hdone hbus =>
      exact absurd (hgoes.symm.trans hgoing) (by simp)

theorem Heard.logged_eq {dispatch : Dispatch} (heard : Heard s kind dispatch)
    (hdispatching : (w.bus (.display d)).dispatching = some dispatch)
    (htype : event.type = .context kind) (m : Machine) :
    seen m.trace ++ logged w d m.result = account event m := by
  rw [account]
  congr 1
  cases m.result with
  | ok answer => rfl
  | error failure =>
      rw [logged, listenerFailure, hdispatching, Option.elim_some, heard.type, htype]

theorem advance_working (h : Sound m) (hears : m.world.Hears d s) (hears' : m.step.world.Hears d s)
    (hs : s.index < m.world.sessions.length) {dispatch : Dispatch} {j : ℕ}
    (htype : event.type = .context kind)
    (htwin : Twin d s earlier m (step^[j] (directly s event kind w)))
    (hdispatching : (m.world.bus (.display d)).dispatching = some dispatch)
    (heard : Heard s kind dispatch) : Advance d s earlier w m [event] := by
  have hoperating : Operating d s m := by
    refine ⟨hears, ?_, by rw [Bus.isPublishing, hdispatching]; rfl, hs⟩
    rw [KeepsOnly, hdispatching]
    exact heard.holds
  have hbegun := begun_eq_nil hdispatching
  obtain ⟨dispatch', hdispatching', heard'⟩ := heard.step h htwin.goesOn_eq_false hdispatching
  obtain ⟨i, hbeside⟩ := htwin.step hoperating hears'
  rw [← Function.iterate_add_apply] at hbeside
  cases hbeside with
  | twin htwin' =>
      refine .goes ?_
      rw [hbegun]
      exact .working htype htwin' hdispatching' heard'
  | ended hworld hseen hagenda hdone =>
      obtain ⟨below, hagenda, hbelow⟩ := hagenda
      refine .ends rfl hbegun htype hdone ?_
      refine .answered hagenda hbelow hdispatching' heard' hworld.symm ?_
      rw [hseen, List.append_assoc, heard'.logged_eq hdispatching' htype]

theorem Stage.step (h : Stage d s earlier w m owed) (hsound : Sound m)
    (hears : m.world.Hears d s) (hears' : m.step.world.Hears d s)
    (halive : m.world.sessionAlive {} s = true) (hs : s.index < m.world.sessions.length) :
    Advance d s earlier w m owed := by
  have hd := hears.hasBus
  cases h with
  | asked hagenda hstep hworld hseen => exact advance_asked hagenda hstep hworld hseen
  | aside hagenda hworld hseen => exact advance_aside hsound hd hears' hagenda hworld hseen
  | begun hagenda hbelow hdispatching hworld hseen =>
      exact advance_begun hd halive hagenda hbelow hdispatching hworld hseen
  | called hagenda hbelow hdispatching heard hworld hseen =>
      exact advance_called hagenda hbelow hdispatching heard hworld hseen
  | working htype htwin hdispatching heard =>
      exact advance_working hsound hears hears' hs htype htwin hdispatching heard
  | answered hagenda hbelow hdispatching heard hworld hseen =>
      exact advance_answered hagenda hbelow hdispatching heard hworld hseen

end Machine

end Parley
