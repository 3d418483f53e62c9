import Parley.Proofs.Input.Stage

/-!
# Input is serial

A session that receives input through the bus of its display works on one input at a time, even
if its display, its listeners or its action handlers report more input on the way: what is
reported waits until the session has returned.  So all that is seen, and all that becomes of the
world, is as if the operations had been called directly, one after the other, in the order in
which the input was reported (`input_is_serial`).

## Strategy

Between two operations only the bus of the display changes.  During an operation the machine goes
in step with one that carries out the same operation directly, in a world in which nobody listens
to the display (`Stage`).  Which inputs have been worked on is a matter of the queue.
-/

namespace Parley.Machine

variable {d : DisplayId} {s : SessionId} {x : ℕ → Machine} {i n : ℕ}

/-! ## Calls, one after the other -/

/-- A session carries out the operations that some inputs ask for, called directly one after the
other.  Each call is run to its end in the world that the one before has left. -/
inductive Calls (s : SessionId) (w : World) :
    List (Event LineRef) → List TraceEntry → World → Prop
  | nil : Calls s w [] [] w
  | snoc {events : List (Event LineRef)} {sights : List TraceEntry} {w' : World}
      {event : Event LineRef} {kind : ContextEvent} {fuel : ℕ} (h : Calls s w events sights w')
      (htype : event.type = .context kind)
      (hdone : (run fuel (directly s event kind w')).isDone = true) :
      Calls s w (events ++ [event])
        (sights ++ account event (run fuel (directly s event kind w')))
        (run fuel (directly s event kind w')).world

/-- A world and what has been seen are those of a session that carries out the first of some
inputs, called directly one after the other; the last call may be under way. -/
inductive Follows (s : SessionId) (w : World) (inputs : List (Event LineRef)) :
    List TraceEntry → World → Prop
  | between {events : List (Event LineRef)} {sights : List TraceEntry} {w' : World}
      (h : Calls s w events sights w') (hevents : events <+: inputs) : Follows s w inputs sights w'
  | within {events : List (Event LineRef)} {sights : List TraceEntry} {w' : World}
      {event : Event LineRef} {kind : ContextEvent} {fuel : ℕ} (h : Calls s w events sights w')
      (hevents : events ++ [event] <+: inputs) (htype : event.type = .context kind) :
      Follows s w inputs (sights ++ seen (run fuel (directly s event kind w')).trace)
        (run fuel (directly s event kind w')).world

/-! ## What a host has seen and reported -/

/-- What was seen before the present step of the host. -/
def past (x : ℕ → Machine) : ℕ → List TraceEntry
  | 0 => []
  | i + 1 => if (x i).isDone && !(x (i + 1)).isDone then past x i ++ (x i).trace else past x i

/-- All that has been seen so far. -/
def history (x : ℕ → Machine) (i : ℕ) : List TraceEntry :=
  past x i ++ (x i).trace

/-- The input that is reported by a display from a time on. -/
def reported (d : DisplayId) (x : ℕ → Machine) (i n : ℕ) : List (Event LineRef) :=
  ((stretch x i n).flatMap (published (.display d))).filter Event.isInput

/-- Whether a machine, if it is to perform a step of the host, reports input of a display. -/
def asksInput (d : DisplayId) (m : Machine) : Bool :=
  match m.agenda with
  | [.perform step] => reportsInput d m.world step
  | _ => true

/-- Whether the next step begins an operation of a session. -/
def opens (s : SessionId) (m : Machine) : Bool :=
  let leaves : Task → Bool := fun
    | .leave t => t = s
    | _ => false
  m.agenda.countP leaves < m.step.agenda.countP leaves

theorem past_succ_of_step (h : x (i + 1) = (x i).step) : past x (i + 1) = past x i := by
  rw [past]
  split
  · rename_i hdone
    rw [Bool.and_eq_true, h] at hdone
    rw [step_of_isDone hdone.1, hdone.1] at hdone
    exact absurd hdone.2 (by simp)
  · rfl

theorem past_succ_of_host {step : Step} (hagenda : (x i).agenda = [])
    (h : x (i + 1) = { world := (x i).world, agenda := [.perform step] }) :
    past x (i + 1) = past x i ++ (x i).trace := by
  rw [past, if_pos]
  simp [isDone, hagenda, h]

theorem begun_of_agenda_eq_nil {m : Machine} (h : m.agenda = []) (b : BusId) : begun b m = [] :=
  begun_of_isPublishing_eq (by rw [step_of_agenda_eq_nil h])

/-- What is published on a bus and what is begun to be dispatched differ by its queue. -/
theorem Execution.queue_stretch (h : Execution x) (b : BusId) (i n : ℕ) :
    ((x i).world.bus b).queue ++ (stretch x i n).flatMap (published b) =
      (stretch x i n).flatMap (begun b) ++ ((x (i + n)).world.bus b).queue := by
  induction n with
  | zero => simp [stretch]
  | succ n ih =>
      have hstep := queue_step (h.reachable (i + n)).sound b
      have hnext : ((x (i + n)).step.world.bus b).queue =
          ((x (i + (n + 1))).world.bus b).queue := by
        generalize hm : x (i + (n + 1)) = m
        cases (hm ▸ h.next (i + n) : Next (x (i + n)) m) with
        | step => rfl
        | host hagenda step => rw [step_of_agenda_eq_nil hagenda]
      rw [stretch_add_one, List.flatMap_append, List.flatMap_append, ← List.append_assoc, ih,
        List.append_assoc, List.flatMap_singleton, hstep, List.flatMap_singleton, hnext,
        List.append_assoc]

/-! ## Following an execution -/

/-- The input whose dispatch has begun from a time on. -/
def heard (d : DisplayId) (x : ℕ → Machine) (i n : ℕ) : List (Event LineRef) :=
  ((stretch x i n).flatMap (begun (.display d))).filter Event.isInput

theorem heard_add_one (d : DisplayId) (x : ℕ → Machine) (i n : ℕ) :
    heard d x i (n + 1) =
      heard d x i n ++ (begun (.display d) (x (i + n))).filter Event.isInput := by
  rw [heard, stretch_add_one, List.flatMap_append, List.filter_append, List.flatMap_singleton]
  rfl

/-- The input that has been heard has been worked on or is worked on now. -/
structure Served (d : DisplayId) (s : SessionId) (x : ℕ → Machine) (i n : ℕ)
    (called owed : List (Event LineRef)) (w : World) (earlier sights : List TraceEntry) :
    Prop where
  calls : Calls s ((x i).world.hush d) called sights w
  stage : Stage d s earlier w (x (i + n)) owed
  heard : called ++ owed = heard d x i n
  seen : seen (past x (i + n)) ++ earlier = seen (history x i) ++ sights

variable {called owed : List (Event LineRef)} {w : World} {earlier sights : List TraceEntry}

theorem Served.step (h : Served d s x i n called owed w earlier sights)
    (hstep : x (i + (n + 1)) = (x (i + n)).step)
    (hadvance : Advance d s earlier w (x (i + n)) owed) :
    ∃ called owed w earlier sights, Served d s x i (n + 1) called owed w earlier sights := by
  have hpast : past x (i + (n + 1)) = past x (i + n) := past_succ_of_step hstep
  cases hadvance with
  | goes hstage =>
      refine ⟨called, _, w, earlier, sights, h.calls, hstep ▸ hstage, ?_, hpast ▸ h.seen⟩
      rw [heard_add_one, ← h.heard, List.append_assoc]
  | @ends event kind j howed hbegun htype hdone hstage =>
      have hrun : (run j (directly s event kind w)).isDone = true := by
        rw [run_eq_iterate, isDone, hdone]
        rfl
      rw [← run_eq_iterate] at hstage
      refine ⟨called ++ [event], [], _, _, _, h.calls.snoc htype hrun, hstep ▸ hstage, ?_, ?_⟩
      · rw [heard_add_one, hbegun, ← h.heard, howed, List.filter_nil]
      · rw [hpast, ← List.append_assoc, h.seen, List.append_assoc]

/-- At rest no input is worked on. -/
theorem Stage.of_agenda_eq_nil {m : Machine} (h : Stage d s earlier w m owed)
    (hagenda : m.agenda = []) : owed = [] ∧ m.world.hush d = w ∧ seen m.trace = earlier := by
  cases h with
  | aside hreports hworld hseen => exact ⟨rfl, hworld, hseen⟩
  | working htype htwin hdispatching heard =>
      obtain ⟨work, below, hwork, -⟩ := htwin.agenda
      exact absurd (hagenda.symm.trans hwork) (by simp)
  | asked htask => exact absurd (hagenda.symm.trans htask) (by simp)
  | begun htask => exact absurd (hagenda.symm.trans htask) (by simp)
  | called htask => exact absurd (hagenda.symm.trans htask) (by simp)
  | answered htask => exact absurd (hagenda.symm.trans htask) (by simp)

theorem Served.host (h : Served d s x i n called owed w earlier sights) {step : Step}
    (hagenda : (x (i + n)).agenda = [])
    (hstep : x (i + (n + 1)) = { world := (x (i + n)).world, agenda := [.perform step] })
    (hasks : asksInput d (x (i + (n + 1))) = true) :
    Served d s x i (n + 1) called [] w [] sights := by
  obtain ⟨rfl, hworld, hseen⟩ := h.stage.of_agenda_eq_nil hagenda
  have hpast : past x (i + (n + 1)) = past x (i + n) ++ (x (i + n)).trace :=
    past_succ_of_host hagenda hstep
  rw [asksInput, hstep] at hasks
  refine ⟨h.calls, ?_, ?_, ?_⟩
  · rw [hstep]
    exact .asked rfl hasks hworld rfl
  · rw [heard_add_one, begun_of_agenda_eq_nil hagenda, h.heard, List.filter_nil, List.append_nil]
  · rw [hpast, seen_append, hseen, h.seen, List.append_nil]

/-- A session is there once and for all. -/
theorem Execution.served (h : Execution x) (hrest : (x i).agenda = []) {session : Session}
    (hs : (x i).world.session? s = some session)
    (hears : ∀ k ≤ n, (x (i + k)).world.Hears d s)
    (halive : ∀ k ≤ n, (x (i + k)).world.sessionAlive {} s = true)
    (hasks : ∀ k ≤ n, asksInput d (x (i + k)) = true) :
    ∀ k ≤ n, ∃ called owed w earlier sights, Served d s x i k called owed w earlier sights := by
  intro k hk
  induction k with
  | zero =>
      refine ⟨[], [], _, _, [], .nil, .aside ?_ rfl rfl, rfl, ?_⟩
      · simp [hrest]
      · rw [history, seen_append, List.append_nil]
        rfl
  | succ k ih =>
      obtain ⟨called, owed, w, earlier, sights, hserved⟩ := ih (Nat.le_of_succ_le hk)
      obtain ⟨found, hfound⟩ := h.session_of_le hs (Nat.le_add_right i k)
      generalize hm : x (i + (k + 1)) = m
      cases (hm ▸ h.next (i + k) : Next (x (i + k)) m) with
      | step =>
          refine hserved.step hm (hserved.stage.step (h.reachable (i + k)).sound
            (hears k (Nat.le_of_succ_le hk)) (hm ▸ hears (k + 1) hk)
            (halive k (Nat.le_of_succ_le hk)) (World.hasBus_session hfound))
      | host hagenda step =>
          exact ⟨called, [], w, [], sights, hserved.host hagenda hm (hm ▸ hasks (k + 1) hk)⟩

/-! ## Input is serial -/

theorem Execution.heard_begins (h : Execution x) (hrest : (x i).agenda = []) (d : DisplayId)
    (n : ℕ) : heard d x i n <+: reported d x i n ∧
      ((x (i + n)).agenda = [] → heard d x i n = reported d x i n) := by
  have hqueue := h.queue_stretch (.display d) i n
  rw [(quiet_of_agenda_eq_nil hrest _).queue_eq_nil (h.reachable i).sound,
    List.nil_append] at hqueue
  rw [heard, reported, hqueue, List.filter_append]
  refine ⟨List.prefix_append .., fun hdone => ?_⟩
  rw [(quiet_of_agenda_eq_nil hdone _).queue_eq_nil (h.reachable (i + n)).sound,
    List.filter_nil, List.append_nil]

theorem Served.follows (h : Served d s x i n called owed w earlier sights)
    (hbegins : Machine.heard d x i n <+: reported d x i n) :
    ∃ sights, Follows s ((x i).world.hush d) (reported d x i n) sights
        ((x (i + n)).world.hush d) ∧
      Parley.seen (history x (i + n)) = Parley.seen (history x i) ++ sights := by
  rw [← h.heard] at hbegins
  have hcalled : called <+: reported d x i n := (List.prefix_append ..).trans hbegins
  have hbetween : (x (i + n)).world.hush d = w → Parley.seen (x (i + n)).trace = earlier →
      ∃ sights, Follows s ((x i).world.hush d) (reported d x i n) sights
          ((x (i + n)).world.hush d) ∧
        Parley.seen (history x (i + n)) = Parley.seen (history x i) ++ sights := by
    intro hworld hseen
    refine ⟨sights, hworld.symm ▸ .between h.calls hcalled, ?_⟩
    rw [history, seen_append, hseen, h.seen]
  cases h.stage with
  | asked hagenda hstep hworld hseen => exact hbetween hworld hseen
  | aside hagenda hworld hseen => exact hbetween hworld hseen
  | begun hagenda hbelow hdispatching hworld hseen => exact hbetween hworld hseen
  | called hagenda hbelow hdispatching hheard hworld hseen => exact hbetween hworld hseen
  | answered hagenda hbelow hdispatching hheard hworld hseen => exact hbetween hworld hseen
  | @working event kind dispatch j htype htwin hdispatching hheard =>
      rw [← run_eq_iterate] at htwin
      have hfollows : Follows s _ _ _ (run j (directly s event kind w)).world :=
        .within h.calls hbegins htype
      rw [htwin.world] at hfollows
      refine ⟨_, hfollows, ?_⟩
      rw [history, seen_append, htwin.seen, ← List.append_assoc, h.seen, List.append_assoc]

/-- A session that is handed an input works on nothing else. -/
theorem Stage.leave_notMem {m : Machine} (h : Stage d s earlier w m owed)
    (hdelivered : (delivered (.display d) m).isSome = true) : .leave s ∉ m.agenda := by
  cases h with
  | called hagenda hbelow hdispatching hheard hworld hseen =>
      rw [hagenda]
      simp only [List.mem_cons, reduceCtorEq, false_or]
      exact fun hmem => hbelow _ hmem
  | asked hagenda => exact absurd hdelivered (by simp [delivered, hagenda])
  | aside hagenda =>
      intro hmem
      exact hagenda _ hmem
  | begun hagenda => exact absurd hdelivered (by simp [delivered, hagenda])
  | answered hagenda => exact absurd hdelivered (by simp [delivered, hagenda])
  | working htype htwin hdispatching hheard =>
      obtain ⟨work, below, hagenda, -, hwork, -⟩ := htwin.agenda
      cases work with
      | nil => exact absurd hdelivered (by simp [delivered, hagenda])
      | cons task work =>
          have htask := hwork task List.mem_cons_self
          cases task with
          | deliver b listener =>
              exact absurd hdelivered (by simpa [delivered, hagenda] using htask)
          | _ => exact absurd hdelivered (by simp [delivered, hagenda])

/-- A session that receives input through the bus of its display alone, on which nobody else
listens, begins no operation before the one before has returned.  What is seen, and what becomes
of the world, is at all times as if the operations that the input asks for were called directly,
one after the other and in the order in which the input is reported, in a world in which nobody
listens to the display.  A failure of one of them is logged and does not affect the others; at
rest all of them have been carried out. -/
theorem input_is_serial (h : Execution x) (hrest : (x i).agenda = []) {session : Session}
    (hs : (x i).world.session? s = some session)
    (hears : ∀ k ≤ n, (x (i + k)).world.Hears d s)
    (halive : ∀ k ≤ n, (x (i + k)).world.sessionAlive {} s = true)
    (hasks : ∀ k ≤ n, asksInput d (x (i + k)) = true)
    (hquiet : ∀ k < n, opens s (x (i + k)) = true →
      (delivered (.display d) (x (i + k))).isSome = true) :
    (∀ k < n, opens s (x (i + k)) = true → .leave s ∉ (x (i + k)).agenda) ∧
      (∃ sights, Follows s ((x i).world.hush d) (reported d x i n) sights
          ((x (i + n)).world.hush d) ∧
        seen (history x (i + n)) = seen (history x i) ++ sights) ∧
      ((x (i + n)).agenda = [] →
        ∃ sights, Calls s ((x i).world.hush d) (reported d x i n) sights
            ((x (i + n)).world.hush d) ∧
          seen (history x (i + n)) = seen (history x i) ++ sights) := by
  have hserved := h.served hrest hs hears halive hasks
  obtain ⟨called, owed, w, earlier, sights, hnow⟩ := hserved n (Nat.le_refl n)
  obtain ⟨hbegins, hall⟩ := h.heard_begins hrest d n
  refine ⟨fun k hk hopens => ?_, hnow.follows hbegins, fun hdone => ⟨sights, ?_⟩⟩
  · obtain ⟨_, _, _, _, _, hserved⟩ := hserved k (Nat.le_of_lt hk)
    exact hserved.stage.leave_notMem (hquiet k hk hopens)
  · obtain ⟨rfl, rfl, rfl⟩ := hnow.stage.of_agenda_eq_nil hdone
    rw [← hall hdone, ← hnow.heard, List.append_nil]
    refine ⟨hnow.calls, ?_⟩
    rw [history, seen_append, hnow.seen]

/-- A host whose display reports more input while a line is being shown, and then fails. -/
def eager : ℕ → Machine :=
  course { world := World.ofHandlers [("press",
      [(1, []), (1, [.display "c" .proceed, .fail "ValueError" "slip"])])] }
    [.newDisplay "c" "c" (.recording { line := some "press" } false),
      .newSession "s" "c" none (.graph (some
        (.array [.object [("title", .string "A"), ("body", .string "one\ntwo\nthree")]]))),
      .session "s" (.start "A"),
      .display "c" .proceed]

theorem input_is_serial_eager :
    Execution eager ∧ (eager 67).agenda = [] ∧ (reported ⟨0⟩ eager 29 38).length = 2 ∧
      ∃ sights, Calls ⟨0⟩ ((eager 29).world.hush ⟨0⟩) (reported ⟨0⟩ eager 29 38) sights
          ((eager 67).world.hush ⟨0⟩) ∧
        seen (history eager 67) = seen (history eager 29) ++ sights := by
  have h : Execution eager := execution_course (initial_ofHandlers _) _
  have hrest : (eager 29).agenda.isEmpty = true := by decide +kernel
  have hdone : (eager 67).agenda.isEmpty = true := by decide +kernel
  have hsome : ((eager 29).world.session? ⟨0⟩).isSome = true := by decide +kernel
  obtain ⟨session, hs⟩ := Option.isSome_iff_exists.mp hsome
  have hserial := input_is_serial (d := ⟨0⟩) (n := 38) h (List.isEmpty_iff.mp hrest) hs
    (by decide +kernel) (by decide +kernel) (by decide +kernel) (by decide +kernel)
  exact ⟨h, List.isEmpty_iff.mp hdone, by decide +kernel, hserial.2.2 (List.isEmpty_iff.mp hdone)⟩

end Parley.Machine
