import Parley.Proofs.Actions.Shown
import Parley.Proofs.Input.Handed

/-!
# Actions that a display reports

A display may report the actions of a line as input, one after the other.  Each report is
published on the bus of the display, dispatched, and handed to the session that hears of it, which
calls the handlers of the action; then the dispatch ends, and the next action is reported
(`Encounter.firedIn_eq`).

## Strategy

What becomes of one report goes through a few stages, on top of the loop that has made it
(`Telling`).  A step leads from one stage to the next or back to the loop (`Sound.telling_step`).
As long as the handlers return and report nothing themselves, the dispatch of the report stays as
it is while they are called, and nothing waits in the queue (`Occupied.step`).
-/

namespace Parley

/-- The event by which a display reports an action. -/
def Action.asInput (action : Action) : Event LineRef :=
  { type := .context .actionEncountered,
    data := [("tag", .text action.tag), ("param", .text action.param)] }

namespace Machine

variable {x : ℕ → Machine} {m : Machine} {d : DisplayId} {s : SessionId} {session : Session}
  {action : Action} {hs made : List HandlerId} {frame rest : List Task}

/-! ## The bus of the display -/

/-- A session reads from a report the action that it was made of. -/
theorem input_asInput (s : SessionId) (action : Action) :
    input s action.asInput .actionEncountered = .handleAction s action.tag action.param := rfl

/-- A session has been handed a report, and nothing waits behind it. -/
structure Occupied (s : SessionId) (d : DisplayId) (m : Machine) : Prop where
  heard : ∃ dispatch, (m.world.bus (.display d)).dispatching = some dispatch ∧
    Heard s .actionEncountered dispatch
  queue : (m.world.bus (.display d)).queue = []

theorem Occupied.step (hoccupied : Occupied s d m) (h : Sound m)
    (hgoes : goesOn (.display d) m = false) (hpublished : published (.display d) m = []) :
    Occupied s d m.step := by
  obtain ⟨⟨dispatch, hdispatching, heard⟩, hempty⟩ := hoccupied
  refine ⟨heard.step h hgoes hdispatching, ?_⟩
  have hqueue := queue_step h (.display d)
  rw [hempty, hpublished, begun_eq_nil hdispatching] at hqueue
  exact hqueue.symm

/-- The innermost dispatch of a bus is the only one. -/
theorem Accounted.goesOn_eq_false {b : BusId} {task : Task} {above below : List Task}
    (h : Accounted m b) (hagenda : m.agenda = task :: (above ++ .dispatch b :: below)) :
    goesOn b m = false := by
  rw [goesOn_cons hagenda, Bool.eq_false_iff]
  intro hdispatches
  have hcount := h.depth
  rw [hagenda, List.countP_cons_of_pos hdispatches, List.countP_append,
    List.countP_cons_of_pos (by simp [Task.dispatches])] at hcount
  split at hcount <;> omega

/-! ## One report -/

/-- The stages of the report of an action above the loop that makes it; `made` are the handlers
whose call has begun. -/
inductive Telling (s : SessionId) (d : DisplayId) (action : Action) (hs : List HandlerId)
    (frame : List Task) (m : Machine) : List HandlerId → Prop
  | reported (hagenda : m.agenda = .publish (.display d) action.asInput :: frame)
      (hidle : Idle d m) : Telling s d action hs frame m []
  | begun (hbegun : Begun s d action.asInput frame m) : Telling s d action hs frame m []
  | handed (hhanded : Handed s d action.asInput .actionEncountered frame m) :
      Telling s d action hs frame m []
  | handled (hagenda : m.agenda = .handleAction s action.tag action.param :: .leave s ::
        .dispatch (.display d) :: frame)
      (hoccupied : Occupied s d m) : Telling s d action hs frame m []
  | calling {made : List HandlerId} (hcalls : Multicast hs action.param
        (.leave s :: .dispatch (.display d) :: frame) made m.agenda)
      (hoccupied : Occupied s d m) : Telling s d action hs frame m made
  | returned (hagenda : m.agenda = .leave s :: .dispatch (.display d) :: frame)
      (hoccupied : Occupied s d m) : Telling s d action hs frame m hs
  | answered (hagenda : m.agenda = .dispatch (.display d) :: frame)
      (hoccupied : Occupied s d m) : Telling s d action hs frame m hs
  | settled {event : Event LineRef} {holds : List Listener}
      (hagenda : m.agenda = .drain (.display d) event holds :: frame) (hidle : Idle d m) :
      Telling s d action hs frame m hs

theorem telling_step_handed (hhanded : Handed s d action.asInput .actionEncountered frame m) :
    Telling s d action hs frame m.step [] := by
  obtain ⟨hagenda, hworld⟩ := hhanded.step
  rw [input_asInput] at hagenda
  obtain ⟨dispatch, hdispatching, heard, -⟩ := hhanded.dispatch
  exact .handled hagenda ⟨⟨dispatch, hworld ▸ hdispatching, heard⟩, hworld ▸ hhanded.queue⟩

theorem telling_step_handled (hs' : m.world.session? s = some session)
    (hhandlers : m.world.handlersOf s action.tag = hs)
    (hagenda : m.agenda = .handleAction s action.tag action.param :: .leave s ::
      .dispatch (.display d) :: frame)
    (hoccupied : Occupied s d m) : Telling s d action hs frame m.step [] := by
  rw [World.handlersOf_eq hs'] at hhandlers
  have hstep := step_eq hagenda
  dsimp only [exec, handleAction] at hstep
  rw [hs'] at hstep
  dsimp only at hstep
  rw [hhandlers] at hstep
  rw [hstep]
  exact .calling (.next (List.nil_append _).symm) ⟨hoccupied.heard, hoccupied.queue⟩

/-- The handlers of an action are called while the dispatch of its report waits. -/
theorem Sound.telling_step_calling (h : Sound m)
    (hcalls : Multicast hs action.param (.leave s :: .dispatch (.display d) :: frame) made m.agenda)
    (hoccupied : Occupied s d m) (hpublished : published (.display d) m = [])
    (hreturns : frame.length + 2 ≤ m.step.agenda.length) :
    ∃ made' f, made'.map (·, action.param) = made.map (·, action.param) ++
        (call? (frame.length + 2) m).toList ∧
      Task.Loosens m.world f ∧ Telling s d action hs (frame.map f) m.step made' := by
  obtain ⟨task, above, hagenda⟩ := hcalls.exists_eq_append
  rw [List.append_cons] at hagenda
  have hgoes := (h.accounted (.display d)).goesOn_eq_false hagenda
  have hoccupied' := hoccupied.step h hgoes hpublished
  have hframe : ∀ {f : Task → Task}, Task.Loosens m.world f →
      (.leave s :: .dispatch (.display d) :: frame).map f =
        .leave s :: .dispatch (.display d) :: frame.map f := fun hf => by
    rw [List.map_cons, List.map_cons, hf.keepsFrames.eq_of_ne (by simp),
      hf.keepsFrames.eq_of_ne (by simp)]
  obtain ⟨made', hmade, hnext⟩ := h.multicast_step hcalls
  rcases hnext with ⟨f, hf, hcalls'⟩ | hends
  · rw [hframe hf] at hcalls'
    exact ⟨made', f, hmade, hf, .calling hcalls' hoccupied'⟩
  · cases hends with
    | returned hreturned =>
        refine ⟨hs, id, hmade, .none, ?_⟩
        rw [List.map_id]
        exact .returned hreturned hoccupied'
    | raised hsplit hf failure hagenda' hfails =>
        rw [hframe hf] at hagenda'
        rw [hfails, agenda_fail, hagenda'] at hreturns
        simp [unwind] at hreturns

theorem telling_step_returned
    (hagenda : m.agenda = .leave s :: .dispatch (.display d) :: frame)
    (hoccupied : Occupied s d m) : Telling s d action hs frame m.step hs := by
  rw [step_eq hagenda]
  exact .answered rfl ⟨hoccupied.heard, hoccupied.queue⟩

theorem telling_step_answered (hears : m.world.Hears d s)
    (hagenda : m.agenda = .dispatch (.display d) :: frame) (hoccupied : Occupied s d m) :
    Telling s d action hs frame m.step hs := by
  obtain ⟨dispatch, hdispatching, heard⟩ := hoccupied.heard
  obtain ⟨hdone, -⟩ := heard.reached (m := m)
  obtain ⟨hstep, hrest⟩ := step_dispatch_of_done hagenda hdispatching hdone
  have hbus := World.bus_modifyBus_self hears.hasBus
    fun bus => bus.endDispatch (m.reached dispatch)
  rw [← hstep] at hbus
  refine .settled hrest ⟨?_, ?_⟩
  · rw [hbus, Bus.isPublishing, Bus.dispatching_endDispatch]
    rfl
  · rw [hbus, Bus.queue_endDispatch, hoccupied.queue]

/-- One step of a report. -/
theorem Sound.telling_step (h : Sound m) (htelling : Telling s d action hs frame m made)
    (hs' : m.world.session? s = some session) (hhandlers : m.world.handlersOf s action.tag = hs)
    (hears : m.world.Hears d s) (halive : m.world.sessionAlive {} s = true)
    (hpublished : frame.length + 1 < m.agenda.length → published (.display d) m = [])
    (hreturns : frame.length + 2 < m.agenda.length →
      frame.length + 2 ≤ m.step.agenda.length) :
    ∃ made' f, made'.map (·, action.param) = made.map (·, action.param) ++
        (call? (frame.length + 2) m).toList ∧ Task.Loosens m.world f ∧
      (Telling s d action hs (frame.map f) m.step made' ∨
        made' = hs ∧ m.step.agenda = frame.map f ∧ Idle d m.step) := by
  have hgoes : ∀ made, call? (frame.length + 2) m = none →
      Telling s d action hs frame m.step made →
      ∃ made' f, made'.map (·, action.param) = made.map (·, action.param) ++
          (call? (frame.length + 2) m).toList ∧ Task.Loosens m.world f ∧
        (Telling s d action hs (frame.map f) m.step made' ∨
          made' = hs ∧ m.step.agenda = frame.map f ∧ Idle d m.step) := fun made hcall hnext => by
    refine ⟨made, id, by simp [hcall], .none, .inl ?_⟩
    rwa [List.map_id]
  cases htelling with
  | reported hagenda hidle =>
      exact hgoes _ (by simp [call?, hagenda]) (.begun (hidle.begun_step hears hagenda).1)
  | begun hbegun =>
      exact hgoes _ (by simp [call?, hbegun.agenda])
        (.handed (hbegun.handed_step hears.hasBus halive rfl).1)
  | handed hhanded =>
      exact hgoes _ (by simp [call?, hhanded.agenda]) (telling_step_handed hhanded)
  | handled hagenda hoccupied =>
      exact hgoes _ (by simp [call?, hagenda])
        (telling_step_handled hs' hhandlers hagenda hoccupied)
  | calling hcalls hoccupied =>
      have hlength := hcalls.length_lt
      simp only [List.length_cons] at hlength
      obtain ⟨made', f, hmade, hf, hnext⟩ := h.telling_step_calling hcalls hoccupied
        (hpublished (by omega)) (hreturns (by omega))
      exact ⟨made', f, hmade, hf, .inl hnext⟩
  | returned hagenda hoccupied =>
      exact hgoes _ (by simp [call?, hagenda]) (telling_step_returned hagenda hoccupied)
  | answered hagenda hoccupied =>
      exact hgoes _ (by simp [call?, hagenda]) (telling_step_answered hears hagenda hoccupied)
  | settled hagenda hidle =>
      obtain ⟨hstep, hrest⟩ := step_drain_of_empty hagenda hidle.queue
      refine ⟨hs, id, by simp [call?, hagenda], .none, .inr ⟨rfl, ?_, ?_⟩⟩
      · rw [hrest, List.map_id]
      · exact ⟨by rw [hstep]; exact hidle.publishing, by rw [hstep]; exact hidle.queue⟩

/-! ## The loop -/

variable {line : LineRef} {all : List Action} {handlers : String → List HandlerId}
  {called : List (HandlerId × String)} {i j n : ℕ}

/-- Where a display stands that reports the actions of a line, and what has been called. -/
inductive Reporting (s : SessionId) (d : DisplayId) (line : LineRef) (all : List Action)
    (rest : List Task) (handlers : String → List HandlerId) (m : Machine) :
    List (HandlerId × String) → Prop
  | between {k : ℕ} {course : Course} {f : Task → Task} (hat : course.At all line k)
      (hf : Task.KeepsFrames f)
      (hagenda : m.agenda = .actions (.display d) course :: rest.map f) (hidle : Idle d m) :
      Reporting s d line all rest handlers m (callsOf handlers (all.take k))
  | telling {k : ℕ} {action : Action} {course : Course} {f : Task → Task}
      {made : List HandlerId} (hnext : all[k]? = some action) (hat : course.At all line (k + 1))
      (hf : Task.KeepsFrames f)
      (htelling : Telling s d action (handlers action.tag)
        (.actions (.display d) course :: rest.map f) m made) :
      Reporting s d line all rest handlers m
        (callsOf handlers (all.take k) ++ made.map (·, action.param))

theorem callsOf_take_succ {k : ℕ} (hnext : all[k]? = some action) :
    callsOf handlers (all.take (k + 1)) =
      callsOf handlers (all.take k) ++ (handlers action.tag).map (·, action.param) := by
  rw [take_succ_of_getElem? hnext, callsOf, List.flatMap_append, List.flatMap_singleton]
  rfl

theorem reporting_step_between {k : ℕ} {course : Course} {f : Task → Task}
    (hat : course.At all line k) (hf : Task.KeepsFrames f)
    (hagenda : m.agenda = .actions (.display d) course :: rest.map f) (hidle : Idle d m)
    (hline : (m.world.line line).actions = all) :
    Reporting s d line all rest handlers m.step (callsOf handlers (all.take k)) ∨
      callsOf handlers (all.take k) = callsOf handlers all ∧ m.step.agenda = rest.map f := by
  have hstep := step_eq hagenda
  dsimp only [exec, actions] at hstep
  rcases nextAction_at hline hat with ⟨hnone, hnext⟩ | ⟨action, course', hsome, hnext, hat'⟩
  · rw [hnext] at hstep
    rw [List.take_of_length_le (List.getElem?_eq_none_iff.mp hnone), hstep]
    exact .inr ⟨rfl, rfl⟩
  · rw [hnext] at hstep
    rw [hstep]
    have hreported : Telling s d action (handlers action.tag)
        (.actions (.display d) course' :: rest.map f)
        (({ m with agenda := rest.map f } : Machine).push
          [tell action (.display d), .actions (.display d) course']) [] :=
      .reported rfl ⟨hidle.publishing, hidle.queue⟩
    have htelling := Reporting.telling hsome hat' hf hreported
    rw [List.map_nil, List.append_nil] at htelling
    exact .inl htelling

/-- One step of a display that reports the actions of a line. -/
theorem Sound.reporting_step (h : Sound m)
    (hreporting : Reporting s d line all rest handlers m called)
    (hline : (m.world.line line).actions = all)
    (hs : m.world.session? s = some session)
    (hhandlers : ∀ tag, m.world.handlersOf s tag = handlers tag)
    (hears : m.world.Hears d s) (halive : m.world.sessionAlive {} s = true)
    (hpublished : rest.length + 2 < m.agenda.length → published (.display d) m = [])
    (hreturns : rest.length + 3 < m.agenda.length → rest.length + 3 ≤ m.step.agenda.length) :
    let called' := called ++ (call? (rest.length + 3) m).toList
    Reporting s d line all rest handlers m.step called' ∨
      called' = callsOf handlers all ∧ m.step.agenda.length = rest.length := by
  intro called'
  cases hreporting with
  | @between k course f hat hf hagenda hidle =>
      have hcalled : called' = callsOf handlers (all.take k) := by
        simp [called', call?, hagenda]
      rw [hcalled]
      refine (reporting_step_between hat hf hagenda hidle hline).imp_right fun hover => ?_
      rw [hover.2, List.length_map]
      exact ⟨hover.1, rfl⟩
  | @telling k action course f made hnext hat hf htelling =>
      have hlength : (Task.actions (.display d) course :: rest.map f).length =
          rest.length + 1 := by
        rw [List.length_cons, List.length_map]
      obtain ⟨made', g, hmade, hg, hstep⟩ := h.telling_step htelling hs (hhandlers _) hears halive
        (by rwa [hlength]) (by rwa [hlength])
      rw [hlength] at hmade
      obtain ⟨course', hcourse, hat'⟩ := hg.course hline hat (.display d)
      rw [List.map_cons, hcourse, List.map_map] at hstep
      have hcalled : called' = callsOf handlers (all.take k) ++ made'.map (·, action.param) := by
        rw [hmade, ← List.append_assoc]
      rw [hcalled]
      rcases hstep with htelling' | ⟨rfl, hagenda, hidle⟩
      · exact .inl (.telling hnext hat' (hf.comp hg.keepsFrames) htelling')
      · rw [← callsOf_take_succ hnext]
        exact .inl (.between hat' (hf.comp hg.keepsFrames) hagenda hidle)

/-! ## Encountering the actions of a line -/

theorem Telling.length_lt (h : Telling s d action hs frame m made) :
    frame.length < m.agenda.length := by
  cases h with
  | calling hcalls hoccupied =>
      have hlength := hcalls.length_lt
      simp only [List.length_cons] at hlength
      omega
  | begun hbegun =>
      simp only [hbegun.agenda, List.length_cons]
      omega
  | handed hhanded =>
      simp only [hhanded.agenda, List.length_cons]
      omega
  | reported hagenda | handled hagenda | returned hagenda | answered hagenda | settled hagenda =>
      simp only [hagenda, List.length_cons]
      omega

theorem Reporting.length_lt (h : Reporting s d line all rest handlers m called) :
    rest.length < m.agenda.length := by
  cases h with
  | between hat hf hagenda hidle => simp [hagenda]
  | telling hnext hat hf htelling =>
      have hlength := htelling.length_lt
      simp only [List.length_cons, List.length_map] at hlength
      omega

/-- All that is fired meanwhile are the calls of these reports. -/
theorem Reporting.fired_eq (h : Reporting s d line all rest handlers m called) :
    fired s rest.length m = call? (rest.length + 3) m := by
  have hother : ∀ task below, m.agenda = task :: below → (∀ h param, task ≠ .call h param) →
      fired s rest.length m = call? (rest.length + 3) m := by
    intro task below hagenda htask
    rw [fired, call?, hagenda]
    cases task with
    | call h param => exact absurd rfl (htask h param)
    | _ => rfl
  cases h with
  | between hat hf hagenda hidle => exact hother _ _ hagenda (by simp)
  | telling hnext hat hf htelling =>
      cases htelling with
      | calling hcalls hoccupied =>
          obtain ⟨task, above, hagenda⟩ := hcalls.exists_eq_append
          rw [← List.cons_append] at hagenda
          have hfired := fired_of_report hagenda
          rwa [List.length_map] at hfired
      | begun hbegun => exact hother _ _ hbegun.agenda (by simp)
      | handed hhanded => exact hother _ _ hhanded.agenda (by simp)
      | reported hagenda | handled hagenda | returned hagenda | answered hagenda
      | settled hagenda => exact hother _ _ hagenda (by simp)

/-- From time `i` to time `n` a display, whose bus is idle and heard by a session alone, reports
the actions of a line, and comes back from it.  The handlers that are called for them do not call
on the session and report nothing to it, and they return. -/
structure Encounter (s : SessionId) (d : DisplayId) (line : LineRef) (rest : List Task)
    (x : ℕ → Machine) (i n : ℕ) : Prop where
  works : WorksOff [.actions (.display d) (.live line 0)] rest x i n
  idle : ((x i).world.bus (.display d)).isPublishing = false
  hears : ∀ j, i ≤ j → j < n → (x j).world.Hears d s
  alive : ∀ j, i ≤ j → j < n → (x j).world.sessionAlive {} s = true
  alone : ∀ j, i ≤ j → j < n → callsOn s (x j) = false
  unreported : ∀ j, i ≤ j → j < n → rest.length + 2 < (x j).agenda.length →
    published (.display d) (x j) = []
  returns : ∀ j, i ≤ j → j < n → rest.length + 3 < (x j).agenda.length →
    rest.length + 3 ≤ (x (j + 1)).agenda.length

theorem Encounter.idle_begin (h : Encounter s d line rest x i n) (hx : Execution x) :
    Idle d (x i) :=
  (hx.reachable i).sound.idle_of_agenda h.idle (by simp [h.works.pushed])

theorem Encounter.sameSession (h : Encounter s d line rest x i n) (hx : Execution x)
    (hs : (x i).world.session? s = some session) (hij : i ≤ j) (hjn : j ≤ n) :
    World.SameSession s (x i).world (x j).world :=
  hx.sameSession hs hij fun k hik hkj => h.alone k hik (by omega)

theorem Encounter.step (h : Encounter s d line rest x i n) (hx : Execution x)
    (hs : (x i).world.session? s = some session) (hline : line.session = s) (hij : i ≤ j)
    (hjn : j < n) (hreporting : Reporting s d line ((x i).world.line line).actions rest
      ((x i).world.handlersOf s) (x j) (firedIn s rest.length x i j)) :
    Reporting s d line ((x i).world.line line).actions rest ((x i).world.handlersOf s) (x (j + 1))
        (firedIn s rest.length x i (j + 1)) ∨
      firedIn s rest.length x i (j + 1) =
          callsOf ((x i).world.handlersOf s) ((x i).world.line line).actions ∧
        (x (j + 1)).agenda.length = rest.length := by
  obtain ⟨session', hs'⟩ := hx.session_of_le hs hij
  have hsame := h.sameSession hx hs hij hjn.le
  have hsameLine : (x j).world.line line = (x i).world.line line := by
    subst hline
    exact hsame.line
  have hstep : x (j + 1) = (x j).step :=
    hx.eq_step (List.ne_nil_of_length_pos (Nat.zero_lt_of_lt hreporting.length_lt))
  have hreturns := h.returns j hij hjn
  rw [hstep] at hreturns
  have hnext := (hx.reachable j).sound.reporting_step hreporting
    (by rw [hsameLine]) hs' hsame.handlers (h.hears j hij hjn)
    (h.alive j hij hjn) (h.unreported j hij hjn) hreturns
  rwa [← hreporting.fired_eq, ← firedIn_add_one hij, ← hstep] at hnext

/-- The loop goes on up to the end. -/
theorem Encounter.reporting (h : Encounter s d line rest x i n) (hx : Execution x)
    (hs : (x i).world.session? s = some session) (hline : line.session = s) (hij : i ≤ j)
    (hjn : j < n) :
    Reporting s d line ((x i).world.line line).actions rest ((x i).world.handlersOf s) (x j)
      (firedIn s rest.length x i j) := by
  induction j, hij using Nat.le_induction with
  | base =>
      have hagenda : (x i).agenda = .actions (.display d) (.live line 0) :: rest.map id := by
        rw [h.works.pushed, List.map_id]
        rfl
      rw [firedIn_eq_nil fun k hik hki => absurd hik (by omega)]
      exact .between (k := 0) (.inl rfl) Task.keepsFrames_id hagenda (h.idle_begin hx)
  | succ j hij ih =>
      rcases h.step hx hs hline hij (by omega) (ih (by omega)) with hreporting | ⟨-, hlength⟩
      · exact hreporting
      · exact absurd (h.works.busy (j + 1) (by omega) hjn) (by omega)

/-- The handlers of each action have been called when the display comes back. -/
theorem Encounter.firedIn_eq (h : Encounter s d line rest x i n) (hx : Execution x)
    (hs : (x i).world.session? s = some session) (hline : line.session = s) :
    firedIn s rest.length x i n =
      callsOf ((x i).world.handlersOf s) ((x i).world.line line).actions := by
  have hlt := h.works.lt
  obtain ⟨j, rfl⟩ : ∃ j, n = j + 1 := ⟨n - 1, by omega⟩
  have hreporting := h.reporting hx hs hline (Nat.le_of_lt_succ hlt) (Nat.lt_succ_self j)
  rcases h.step hx hs hline (Nat.le_of_lt_succ hlt) (Nat.lt_succ_self j) hreporting with
    hgoes | ⟨heq, -⟩
  · exact absurd hgoes.length_lt (by rw [h.works.done]; exact lt_irrefl _)
  · exact heq

end Machine

end Parley
