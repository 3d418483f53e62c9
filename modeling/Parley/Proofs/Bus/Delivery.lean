import Parley.Proofs.Bus.Order

/-!
# The delivery of an event

A dispatch goes through the subscriptions that were there when it began.  Between two of its
own steps anything may happen to the world, but to the dispatch only that its event is
consumed.  So the listeners it calls are determined by who is alive each time it goes on, and
by whether the event has been consumed by then (`due`).

## Strategy

A dispatch is followed turn by turn from the front, with what is still owed to its listeners
(`pending`) as the invariant.
-/

namespace Parley

namespace Machine

variable {x : ℕ → Machine} {i n : ℕ} {m : Machine} {b : BusId}

/-! ## What is due -/

/-- Whether the event under way on a bus has been consumed. -/
def consumedIn (b : BusId) (m : Machine) : Bool :=
  (m.world.bus b).dispatching.any fun d => d.event.consumed

/-- Whether a subscription leads to a listener that is alive now. -/
def leads (m : Machine) (sub : Subscription) : Bool :=
  sub.resolves (m.world.alive (Task.heldBy m.world m.agenda))

/-- The listeners to be called by a dispatch that goes on at the given times, out of the
subscriptions that are left: each time the first that is alive then, until the event turns out
to have been consumed. -/
def due (b : BusId) : List Machine → List Subscription → List Listener
  | [], _ => []
  | m :: later, subs =>
    match subs.dropWhile fun sub => !m.leads sub with
    | [] => []
    | sub :: rest =>
      sub.listener :: if later.head?.any (consumedIn b) then [] else due b later rest

/-- The listeners still to be called by a dispatch that goes on at the given times. -/
def pending (b : BusId) (d : Dispatch) (times : List Machine) : List Listener :=
  if d.calling.isSome && times.head?.any (consumedIn b) then [] else due b times d.waiting

variable {later : List Machine} {subs : List Subscription} {sub : Subscription} {d : Dispatch}

theorem due_of_nil (h : subs.dropWhile (fun sub => !m.leads sub) = []) :
    due b (m :: later) subs = [] := by
  rw [due, h]

theorem due_of_cons {left : List Subscription}
    (h : subs.dropWhile (fun sub => !m.leads sub) = sub :: left) :
    due b (m :: later) subs =
      sub.listener :: if later.head?.any (consumedIn b) then [] else due b later left := by
  rw [due, h]

theorem calling_settle (d : Dispatch) : d.settle.calling = none := by
  unfold Dispatch.settle
  split
  · assumption
  · rfl

theorem waiting_settle (d : Dispatch) :
    d.settle.waiting = if d.calling.isSome && d.event.consumed then [] else d.waiting := by
  unfold Dispatch.settle
  split <;> rename_i hcalling <;> rw [hcalling] <;> simp

/-- A dispatch goes on to the first subscription whose listener is alive. -/
theorem calling_reached (m : Machine) (d : Dispatch) :
    (m.reached d).calling = (d.settle.waiting.dropWhile fun sub => !m.leads sub).head? := by
  simp only [reached, Dispatch.next, leads]
  cases List.dropWhile _ d.settle.waiting with
  | nil => exact calling_settle d
  | cons sub rest => rfl

theorem waiting_reached (m : Machine) (d : Dispatch) :
    (m.reached d).waiting = (d.settle.waiting.dropWhile fun sub => !m.leads sub).tail := by
  simp only [reached, Dispatch.next, leads]
  cases List.dropWhile _ d.settle.waiting with
  | nil => rfl
  | cons sub rest => rfl

theorem pending_eq_due (hd : (m.world.bus b).dispatching = some d) (later : List Machine) :
    pending b d (m :: later) = due b (m :: later) d.settle.waiting := by
  have hconsumed : consumedIn b m = d.event.consumed := by simp [consumedIn, hd]
  rw [pending, waiting_settle, List.head?_cons, Option.any_some, hconsumed]
  split
  · rfl
  · rfl

theorem pending_of_calling (hd : (m.world.bus b).dispatching = some d)
    (hcalling : (m.reached d).calling = some sub) (later : List Machine) :
    pending b d (m :: later) = sub.listener :: pending b (m.reached d) later := by
  obtain ⟨left, hleft⟩ := List.head?_eq_some_iff.mp ((calling_reached m d).symm.trans hcalling)
  rw [pending_eq_due hd, due_of_cons hleft, pending, hcalling, waiting_reached, hleft]
  rfl

theorem pending_of_done (hd : (m.world.bus b).dispatching = some d)
    (hdone : (m.reached d).calling = none) (later : List Machine) :
    pending b d (m :: later) = [] := by
  rw [pending_eq_due hd]
  apply due_of_nil
  rwa [calling_reached, List.head?_eq_none_iff] at hdone

theorem pending_congr {d' : Dispatch} (hcalling : d'.calling = d.calling)
    (hwaiting : d'.waiting = d.waiting) (times : List Machine) :
    pending b d' times = pending b d times := by
  rw [pending, pending, hcalling, hwaiting]

/-! ## Following a dispatch -/

/-- A calm change lets a dispatch go on as before, though its event may be consumed. -/
theorem exists_dispatching_of_calm {bus bus' : Bus} (h : bus.Calm bus')
    (hd : bus.dispatching = some d) :
    ∃ d', bus'.dispatching = some d' ∧ d'.calling = d.calling ∧ d'.waiting = d.waiting := by
  cases h with
  | resubscribed h => exact ⟨d, h.dispatching.trans hd, rfl, rfl⟩
  | consumed => exact ⟨{ d with event := d.event.consume }, by
      rw [Bus.consume, Bus.modifyDispatch, hd]; rfl, rfl, rfl⟩

/-- While a dispatch is under way the host waits. -/
theorem Execution.eq_step_of_isPublishing (h : Execution x)
    (hpub : ((x i).world.bus b).isPublishing = true) : x (i + 1) = (x i).step := by
  apply h.eq_step
  exact List.ne_nil_of_mem (((h.reachable i).sound.accounted b).dispatch_mem hpub)

/-- The listeners called while a dispatch is under way are those it owed a call.  Once it has
ended it would not call any more if it went on. -/
theorem Execution.pending_stretch {more : List Machine} (h : Execution x)
    (hd : ((x i).world.bus b).dispatching = some d)
    (hunder : ∀ m ∈ stretch x i n, (m.world.bus b).isPublishing = true)
    (hmore : more = [] ∨ ((x (i + n)).world.bus b).isPublishing = false) :
    pending b d ((stretch x i n).filter (goesOn b) ++ more) =
      (stretch x (i + 1) n).filterMap (delivered b) := by
  -- The first machine takes its turn, which changes what is pending; the rest is the induction
  -- hypothesis for the dispatch as it stands then.
  induction n generalizing i d with
  | zero =>
      rcases hmore with rfl | hended
      · simp [stretch, pending, due]
      · exact absurd hended (by simp [Bus.isPublishing, hd])
  | succ n ih =>
      rw [stretch_succ, List.forall_mem_cons] at hunder
      rw [Nat.add_comm n 1, ← Nat.add_assoc] at hmore
      have hstep : (x i).step = x (i + 1) := (h.eq_step_of_isPublishing hunder.1).symm
      rw [stretch_succ, stretch_succ, List.filter_cons, List.filterMap_cons, ← hstep]
      cases (h.reachable i).sound.turn b with
      | aside hpublished hgoes hdelivered hcalm =>
          obtain ⟨d', hd', hcalling, hwaiting⟩ := exists_dispatching_of_calm hcalm hd
          rw [hgoes, hdelivered, ← ih (hstep ▸ hd') hunder.2 hmore,
            pending_congr hcalling hwaiting]
          rfl
      | enqueues hpublished hgoes hdelivered hpub hbus =>
          have hd' : ((x i).step.world.bus b).dispatching = some d := by
            rw [hbus]
            exact hd
          rw [hgoes, hdelivered, ← ih (hstep ▸ hd') hunder.2 hmore]
          rfl
      | begins hpublished hgoes hdelivered hidle hbus =>
          exact absurd hidle (by simp [Bus.isPublishing, hd])
      | @calls d' sub hpublished hgoes hdelivered hd' hcalling hbus =>
          obtain rfl : d = d' := Option.some.inj (hd.symm.trans hd')
          have hreached : ((x i).step.world.bus b).dispatching = some ((x i).reached d) := by
            rw [hbus, Bus.modifyDispatch, hd]
            rfl
          rw [hgoes, hdelivered, if_pos rfl, List.cons_append, pending_of_calling hd hcalling,
            ih (hstep ▸ hreached) hunder.2 hmore]
      | @ends d' hpublished hgoes hdelivered hd' hdone hbus =>
          obtain rfl : d = d' := Option.some.inj (hd.symm.trans hd')
          rw [hgoes, hdelivered, if_pos rfl, List.cons_append, pending_of_done hd hdone]
          -- The dispatch has ended, so this was the last step that was looked at.
          cases n with
          | zero => rfl
          | succ n =>
              have hstill := hunder.2 (x (i + 1)) (by simp [stretch_succ])
              rw [← hstep, Bus.isPublishing, hbus, Bus.dispatching_endDispatch] at hstill
              exact absurd hstill (by simp)

theorem due_sublist (b : BusId) (times : List Machine) (subs : List Subscription) :
    (due b times subs).Sublist (subs.map Subscription.listener) := by
  induction times generalizing subs with
  | nil => exact List.nil_sublist _
  | cons m later ih =>
      cases hleft : subs.dropWhile fun sub => !m.leads sub with
      | nil =>
          rw [due_of_nil hleft]
          exact List.nil_sublist _
      | cons sub left =>
          have hsublist : (sub :: left).Sublist subs := hleft ▸ List.dropWhile_sublist _
          rw [due_of_cons hleft]
          refine List.Sublist.trans ?_ (hsublist.map Subscription.listener)
          rw [List.map_cons]
          apply List.Sublist.cons_cons
          split
          · exact List.nil_sublist _
          · exact ih left

/-- The times among these at which a dispatch goes on. -/
def times (b : BusId) (ms : List Machine) : List Machine :=
  ms.filter (goesOn b)

/-- The listeners called at these times. -/
def called (b : BusId) (ms : List Machine) : List Listener :=
  ms.filterMap (delivered b)

/-- A dispatch begins with the subscriptions of the time. -/
theorem Sound.dispatching_of_begun {event : Event LineRef} (h : Sound m)
    (hbegun : begun b m = [event]) :
    delivered b m.step = none ∧ (m.step.world.bus b).dispatching =
      ((m.world.bus b).beginDispatch event).dispatching := by
  have hidle := idle_of_begun hbegun
  cases h.turn b with
  | aside hpublished hgoes hdelivered hcalm =>
      rw [begun_of_isPublishing_eq hcalm.isPublishing] at hbegun
      exact absurd hbegun (by simp)
  | enqueues hpublished hgoes hdelivered hpub hbus =>
      exact absurd (hidle.symm.trans hpub) (by simp)
  | begins hpublished hgoes hdelivered hidle hbus =>
      rw [begun_of_beginDispatch hidle hbus] at hbegun
      obtain rfl := (List.cons.inj hbegun).1
      exact ⟨hdelivered, by rw [hbus]; rfl⟩
  | calls hpublished hgoes hdelivered hd hcalling hbus =>
      exact absurd hidle (by simp [Bus.isPublishing, hd])
  | ends hpublished hgoes hdelivered hd hdone hbus =>
      exact absurd hidle (by simp [Bus.isPublishing, hd])

/-- The host waits while a dispatch begins. -/
theorem Execution.eq_step_of_begun {event : Event LineRef} (h : Execution x)
    (hbegun : begun b (x i) = [event]) : x (i + 1) = (x i).step := by
  apply h.eq_step
  intro hnil
  rw [begun_of_isPublishing_eq (by rw [step_of_agenda_eq_nil hnil])] at hbegun
  exact absurd hbegun (by simp)

/-- The listeners called by a dispatch that has begun. -/
theorem Execution.called_eq {event : Event LineRef} {more : List Machine} (h : Execution x)
    (hbegun : begun b (x i) = [event])
    (hunder : ∀ m ∈ stretch x (i + 1) n, (m.world.bus b).isPublishing = true)
    (hmore : more = [] ∨ ((x (i + 1 + n)).world.bus b).isPublishing = false) :
    called b (stretch x (i + 1) (n + 1)) =
      due b (times b (stretch x (i + 1) n) ++ more)
        (((x i).world.bus b).subscriptions event.type) := by
  obtain ⟨hdelivered, hdispatching⟩ := (h.reachable i).sound.dispatching_of_begun hbegun
  rw [← h.eq_step_of_begun hbegun] at hdelivered hdispatching
  rw [called, stretch_succ, List.filterMap_cons, hdelivered,
    ← h.pending_stretch hdispatching hunder hmore]
  rfl

/-- A failure does not take a dispatch that is under way off the agenda. -/
theorem Sound.dispatch_mem_fail (h : Sound m) (hpub : (m.world.bus b).isPublishing = true)
    (failure : Failure) : .dispatch b ∈ (m.fail failure).agenda := by
  have hmem := (h.accounted b).dispatch_mem hpub
  obtain ⟨before, hagenda, hbefore, -⟩ := exists_eq_append_unwind m.agenda
  rw [hagenda, List.mem_append] at hmem
  rw [agenda_fail]
  exact hmem.resolve_left (hbefore b)

/-- At all times the subscriptions stand in the order of their priority, those of the same
priority in the order in which they were made, and no listener is subscribed twice.  A dispatch
calls, in that order and each once, the listeners that were subscribed when it began and are
alive when it is their turn, until the event is consumed; and a failing listener leaves it and
the world as they are. -/
theorem delivery_in_order (h : Execution x) (b : BusId) :
    (∀ type i, (((x i).world.bus b).subscriptions type).Pairwise (Ahead x b type i)) ∧
      (∀ i n event, begun b (x i) = [event] →
        (∀ m ∈ stretch x (i + 1) n, (m.world.bus b).isPublishing = true) →
        called b (stretch x (i + 1) (n + 1)) =
            due b (times b (stretch x (i + 1) n))
              (((x i).world.bus b).subscriptions event.type) ∧
          (called b (stretch x (i + 1) (n + 1))).Nodup ∧
          (((x (i + 1 + n)).world.bus b).isPublishing = false → ∀ more,
            called b (stretch x (i + 1) (n + 1)) =
              due b (times b (stretch x (i + 1) n) ++ more)
                (((x i).world.bus b).subscriptions event.type))) ∧
      ∀ i failure, ((x i).world.bus b).isPublishing = true →
        .dispatch b ∈ ((x i).fail failure).agenda ∧
          ((x i).fail failure).world = (x i).world := by
  refine ⟨h.pairwise_ahead b, fun i n event hbegun hunder => ?_, fun i failure hpub => ?_⟩
  · have hcalled := h.called_eq hbegun hunder (.inl rfl)
    rw [List.append_nil] at hcalled
    refine ⟨hcalled, ?_, fun hended more => h.called_eq hbegun hunder (.inr hended)⟩
    have hnodup : ((((x i).world.bus b).subscriptions event.type).map
        Subscription.listener).Nodup :=
      List.pairwise_map.mpr ((h.pairwise_ahead b event.type i).imp Ahead.distinct)
    rw [hcalled]
    exact (due_sublist b _ _).nodup hnodup
  · exact ⟨(h.reachable i).sound.dispatch_mem_fail hpub failure, world_fail _ failure⟩

/-- A host with four listeners, of which the first fails, the second is gone when its turn comes
and the third consumes the event. -/
def roll : ℕ → Machine :=
  course { world := World.ofHandlers [("fails", [(1, [.fail "" ""])]), ("gone", [(1, [])]),
      ("consumes", [(1, [.consume])]), ("last", [(1, [])])] }
    [.bus (.free "bus") (.subscribe (.dialogue .nodeEntered) "last" 0 false true),
      .bus (.free "bus") (.subscribe (.dialogue .nodeEntered) "gone" 1 false true),
      .bus (.free "bus") (.subscribe (.dialogue .nodeEntered) "consumes" 1 true true),
      .bus (.free "bus") (.subscribe (.dialogue .nodeEntered) "fails" 2 false false),
      .dropHandler "gone",
      .bus (.free "bus") (.publish (.dialogue .nodeEntered) [])]

theorem delivery_in_order_roll :
    Execution roll ∧
      due (.free "bus") (times (.free "bus") (stretch roll 13 10))
          (((roll 12).world.bus (.free "bus")).subscriptions (.dialogue .nodeEntered)) =
        [.handler ⟨0⟩, .handler ⟨2⟩] := by
  have h : Execution roll := execution_course (initial_ofHandlers _) _
  obtain ⟨-, hdispatch, -⟩ := delivery_in_order h (.free "bus")
  obtain ⟨hcalled, -⟩ :=
    hdispatch 12 10 { type := .dialogue .nodeEntered } (by rfl) (by decide +kernel)
  exact ⟨h, hcalled ▸ by decide +kernel⟩

end Machine

end Parley
