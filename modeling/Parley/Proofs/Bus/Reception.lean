import Parley.Proofs.Bus.Delivery
import Parley.Proofs.Bus.Lasting
import Parley.Proofs.Bus.Queue

/-!
# What a listener receives

However the publishing of events is nested, a listener that is subscribed to a type of events
firmly and for good receives all of them, once and in the order in which they were published,
provided that none is consumed on the way.  Nothing is left to be received once no work of the
bus is left to be done (`Hears.received_eq_published`).

## Strategy

An event that has been published is owed to the listener until it is handed over: first it may
wait in the queue, then its dispatch may have others to call before (`owed`).  A step adds what
it publishes to what is owed at the end, and takes what it hands over from the front
(`Sound.owed_step`).
-/

namespace Parley

/-- The events of a type. -/
def Event.ofType (type : EventType) (events : List (Event LineRef)) : List (Event LineRef) :=
  events.filter fun event => event.type = type

theorem Event.ofType_append (type : EventType) (events more : List (Event LineRef)) :
    ofType type (events ++ more) = ofType type events ++ ofType type more :=
  List.filter_append ..

theorem Event.ofType_eq_nil {type : EventType} {events : List (Event LineRef)}
    (h : ∀ event ∈ events, event.type ≠ type) : ofType type events = [] := by
  apply List.filter_eq_nil_iff.mpr
  intro event hevent
  simpa using h event hevent

/-! ## What a dispatch owes -/

namespace Dispatch

/-- The event of a dispatch, if it still has to call a listener. -/
def owes (listener : Listener) (d : Dispatch) : List (Event LineRef) :=
  (d.waiting.filter fun sub => sub.listener = listener).map fun _ => d.event

variable {d : Dispatch} {listener : Listener} {type : EventType}

theorem eq_of_mem_owes {event : Event LineRef} (h : event ∈ d.owes listener) :
    event = d.event := by
  obtain ⟨sub, -, heq⟩ := List.mem_map.mp h
  exact heq.symm

theorem ofType_owes_of_ne (h : d.event.type ≠ type) : Event.ofType type (d.owes listener) = [] :=
  Event.ofType_eq_nil fun _ hevent => eq_of_mem_owes hevent ▸ h

/-- A dispatch will not pass over a listener for being gone. -/
def Firm (listener : Listener) (d : Dispatch) : Prop :=
  ∀ sub ∈ d.waiting, sub.listener = listener → sub.weak = false

end Dispatch

/-- Someone who is subscribed to the type of an event is owed it once when its dispatch begins. -/
theorem Bus.owes_beginDispatch {bus : Bus} {event : Event LineRef} {sub : Subscription}
    {d : Dispatch} (hd : (bus.beginDispatch event).dispatching = some d)
    (hsub : sub ∈ bus.subscriptions event.type)
    (hnodup : ((bus.subscriptions event.type).map Subscription.listener).Nodup) :
    d.owes sub.listener = [event] := by
  obtain rfl := Option.some.inj hd
  obtain ⟨before, after, hsplit⟩ := List.append_of_mem hsub
  have hdistinct := List.pairwise_map.mp hnodup
  rw [hsplit, List.pairwise_append, List.pairwise_cons] at hdistinct
  obtain ⟨-, ⟨hafter, -⟩, hbefore⟩ := hdistinct
  have hnone : (before.filter fun other => other.listener = sub.listener) = [] := by
    apply List.filter_eq_nil_iff.mpr
    intro other hother
    simpa using hbefore other hother sub List.mem_cons_self
  have hnone' : (after.filter fun other => other.listener = sub.listener) = [] := by
    apply List.filter_eq_nil_iff.mpr
    intro other hother
    simpa using (hafter other hother).symm
  simp [Dispatch.owes, hsplit, hnone, hnone']

namespace Machine

variable {x : ℕ → Machine} {m : Machine} {b : BusId} {type : EventType} {listener : Listener}
  {d : Dispatch} {i n : ℕ}

theorem event_reached (m : Machine) (d : Dispatch) : (m.reached d).event = d.event := by
  have hsettle : d.settle.event = d.event := by
    unfold Dispatch.settle
    split <;> rfl
  rw [← hsettle, reached, Dispatch.next]
  split <;> rfl

/-- What a dispatch owes to a listener it owes until it comes to the listener. -/
theorem owes_reached (m : Machine) (hopen : d.event.consumed = false) (hfirm : d.Firm listener) :
    d.owes listener =
      ((m.reached d).calling.filter fun sub => sub.listener = listener).toList.map
          (fun _ => d.event) ++ (m.reached d).owes listener := by
  have hsettle : d.settle.waiting = d.waiting := by
    rw [waiting_settle, hopen, Bool.and_false]
    rfl
  have hcalling := calling_reached m d
  have hwaiting := waiting_reached m d
  rw [hsettle] at hcalling hwaiting
  -- Those passed over are weak, so the listener is not among them.
  have hdead : ((d.waiting.takeWhile fun sub => !m.leads sub).filter
      fun sub => sub.listener = listener) = [] := by
    apply List.filter_eq_nil_iff.mpr
    intro sub hsub hlistener
    have hweak := hfirm sub (List.takeWhile_sublist _ |>.subset hsub) (by simpa using hlistener)
    have hnowhere := List.mem_takeWhile_imp hsub
    simp [leads, Subscription.resolves, hweak] at hnowhere
  rw [Dispatch.owes, Dispatch.owes, event_reached, hcalling, hwaiting, ← List.map_append]
  nth_rewrite 1 [← List.takeWhile_append_dropWhile (l := d.waiting) (p := fun sub => !m.leads sub)]
  rw [List.filter_append, hdead, List.nil_append]
  cases d.waiting.dropWhile fun sub => !m.leads sub with
  | nil => rfl
  | cons sub left =>
      by_cases hlistener : sub.listener = listener <;>
        simp [Option.filter, hlistener]

/-! ## One step -/

/-- The event that the next step hands to a listener, if it does. -/
def received (b : BusId) (listener : Listener) (m : Machine) : List (Event LineRef) :=
  if delivered b m = some listener then
    ((m.world.bus b).dispatching.map Dispatch.event).toList
  else []

/-- The events that a bus has taken on and not yet handed to a listener. -/
def owed (b : BusId) (listener : Listener) (m : Machine) : List (Event LineRef) :=
  (m.world.bus b).dispatching.elim [] (Dispatch.owes listener) ++ (m.world.bus b).queue

/-- A listener is subscribed firmly to a type of events, and a dispatch of one that is under way
calls it if it has not yet done so. -/
structure Listens (b : BusId) (type : EventType) (listener : Listener) (m : Machine) : Prop where
  subscribed : ∃ sub ∈ (m.world.bus b).subscriptions type,
    sub.listener = listener ∧ sub.weak = false
  firm : ∀ d, (m.world.bus b).dispatching = some d → d.event.type = type → d.Firm listener

theorem received_eq_nil (h : delivered b m = none) : received b listener m = [] := by
  rw [received, h]
  rfl

theorem owed_of_dispatching (hd : (m.world.bus b).dispatching = some d) :
    owed b listener m = d.owes listener ++ (m.world.bus b).queue := by
  rw [owed, hd]
  rfl

theorem owed_of_idle (hidle : (m.world.bus b).isPublishing = false) :
    owed b listener m = (m.world.bus b).queue := by
  have hnone : (m.world.bus b).dispatching = none := by simpa [Bus.isPublishing] using hidle
  rw [owed, hnone]
  rfl

/-- As long as no event is consumed, a calm change leaves a dispatch as it is. -/
theorem dispatching_of_calm (h : (m.world.bus b).Calm (m.step.world.bus b))
    (hopen : consumedIn b m.step = false) :
    (m.step.world.bus b).dispatching = (m.world.bus b).dispatching := by
  generalize hbus : m.step.world.bus b = bus at h
  cases h with
  | resubscribed h => exact h.dispatching
  | consumed =>
      rw [consumedIn, hbus] at hopen
      cases hd : (m.world.bus b).dispatching with
      | none => simp [Bus.consume, Bus.modifyDispatch, hd]
      | some d => simp [Bus.consume, Bus.modifyDispatch, hd] at hopen

/-- A dispatch that goes on owes its event to a listener, unless it calls the listener next. -/
theorem Listens.ofType_owes (hlistens : Listens b type listener m)
    (hd : (m.world.bus b).dispatching = some d) (hopen : consumedIn b m = false) :
    Event.ofType type (d.owes listener) = Event.ofType type
      (((m.reached d).calling.filter fun sub => sub.listener = listener).toList.map
        (fun _ => d.event) ++ (m.reached d).owes listener) := by
  by_cases htype : d.event.type = type
  · have hopen : d.event.consumed = false := by simpa [consumedIn, hd] using hopen
    rw [owes_reached m hopen (hlistens.firm d hd htype)]
  · have htype' : (m.reached d).event.type ≠ type := by rwa [event_reached]
    have hcalled : Event.ofType type
        (((m.reached d).calling.filter fun sub => sub.listener = listener).toList.map
          fun _ => d.event) = [] := by
      apply Event.ofType_eq_nil
      intro event hevent
      obtain ⟨sub, -, rfl⟩ := List.mem_map.mp hevent
      exact htype
    rw [Dispatch.ofType_owes_of_ne htype, Event.ofType_append, hcalled,
      Dispatch.ofType_owes_of_ne htype']
    rfl

/-- What is published joins what is owed to a listener, and what it receives has been owed the
longest. -/
theorem Sound.owed_step (h : Sound m) (hlistens : Listens b type listener m)
    (hnodup : (((m.world.bus b).subscriptions type).map Subscription.listener).Nodup)
    (hnow : consumedIn b m = false) (hnext : consumedIn b m.step = false) :
    Event.ofType type (owed b listener m ++ published b m) =
      Event.ofType type (received b listener m.step ++ owed b listener m.step) := by
  cases h.turn b with
  | aside hpublished hgoes hdelivered hcalm =>
      rw [hpublished, received_eq_nil hdelivered, owed, owed, dispatching_of_calm hcalm hnext,
        hcalm.queue, List.append_nil, List.nil_append]
  | enqueues hpublished hgoes hdelivered hpub hbus =>
      rw [hpublished, received_eq_nil hdelivered, owed, owed, hbus, List.nil_append,
        List.append_assoc]
      rfl
  | @begins event more hpublished hgoes hdelivered hidle hbus =>
      obtain ⟨d, hd⟩ : ∃ d, ({ m.world.bus b with queue := more }.beginDispatch
          event).dispatching = some d := ⟨_, rfl⟩
      have howes : Event.ofType type (d.owes listener) = Event.ofType type [event] := by
        by_cases htype : event.type = type
        · subst htype
          obtain ⟨sub, hsub, rfl, -⟩ := hlistens.subscribed
          rw [Bus.owes_beginDispatch hd hsub hnodup]
        · obtain rfl := Option.some.inj hd
          rw [Dispatch.ofType_owes_of_ne htype]
          exact (Event.ofType_eq_nil (by simpa using htype)).symm
      have howed : owed b listener m.step = d.owes listener ++ more :=
        owed_of_dispatching (hbus ▸ hd) |>.trans (by rw [hbus]; rfl)
      rw [owed_of_idle hidle, hpublished, received_eq_nil hdelivered, howed, List.nil_append,
        Event.ofType_append, howes, ← Event.ofType_append]
      rfl
  | @calls d sub hpublished hgoes hdelivered hd hcalling hbus =>
      have hd' : (m.step.world.bus b).dispatching = some (m.reached d) := by
        rw [hbus, Bus.modifyDispatch, hd]
        rfl
      have hqueue : (m.step.world.bus b).queue = (m.world.bus b).queue := by
        rw [hbus]
        rfl
      have hreceived : received b listener m.step =
          ((some sub).filter fun sub => sub.listener = listener).toList.map fun _ => d.event := by
        rw [received, hdelivered, hd', Option.map_some, event_reached]
        by_cases hlistener : sub.listener = listener <;> simp [Option.filter, hlistener]
      rw [hpublished, owed_of_dispatching hd, owed_of_dispatching hd', hqueue, hreceived,
        List.append_nil, ← List.append_assoc, Event.ofType_append, Event.ofType_append _ (_ ++ _),
        hlistens.ofType_owes hd hnow, hcalling]
  | @ends d hpublished hgoes hdelivered hd hdone hbus =>
      have hidle : (m.step.world.bus b).isPublishing = false := by
        rw [Bus.isPublishing, hbus, Bus.dispatching_endDispatch]
        rfl
      have hqueue : (m.step.world.bus b).queue = (m.world.bus b).queue := by
        rw [hbus, Bus.queue_endDispatch]
      have hwaiting : (m.reached d).waiting = [] := by
        rw [calling_reached, List.head?_eq_none_iff] at hdone
        rw [waiting_reached, hdone]
        rfl
      rw [hpublished, received_eq_nil hdelivered, owed_of_dispatching hd, owed_of_idle hidle,
        hqueue, List.append_nil, List.nil_append, Event.ofType_append,
        hlistens.ofType_owes hd hnow, hdone, Dispatch.owes, hwaiting]
      rfl

/-- A dispatch begins with subscriptions that will not be passed over. -/
theorem Sound.firm_step (h : Sound m) (hlistens : Listens b type listener m)
    (hnodup : (((m.world.bus b).subscriptions type).map Subscription.listener).Nodup) :
    ∀ d, (m.step.world.bus b).dispatching = some d → d.event.type = type → d.Firm listener := by
  intro d hd htype
  cases h.turn b with
  | aside hpublished hgoes hdelivered hcalm =>
      generalize m.step.world.bus b = bus at hcalm hd
      cases hcalm with
      | resubscribed hsubs => exact hlistens.firm d (hsubs.dispatching.symm.trans hd) htype
      | consumed =>
          obtain ⟨d', hd', rfl⟩ := Option.map_eq_some_iff.mp hd
          exact hlistens.firm d' hd' htype
  | enqueues hpublished hgoes hdelivered hpub hbus =>
      rw [hbus] at hd
      exact hlistens.firm d hd htype
  | begins hpublished hgoes hdelivered hidle hbus =>
      rw [hbus] at hd
      obtain rfl := Option.some.inj hd
      obtain ⟨own, hown, rfl, hfirm⟩ := hlistens.subscribed
      intro sub hsub hlistener
      obtain rfl : sub = own := List.inj_on_of_nodup_map hnodup (htype ▸ hsub) hown hlistener
      exact hfirm
  | @calls d' sub hpublished hgoes hdelivered hd' hcalling hbus =>
      rw [hbus, Bus.modifyDispatch, hd'] at hd
      obtain rfl := Option.some.inj hd
      rw [event_reached] at htype
      intro sub hsub
      apply hlistens.firm d' hd' htype sub
      rw [waiting_reached, waiting_settle] at hsub
      have hleft := (List.dropWhile_sublist _).subset (List.mem_of_mem_tail hsub)
      split at hleft
      · exact absurd hleft List.not_mem_nil
      · exact hleft
  | ends hpublished hgoes hdelivered hd' hdone hbus =>
      rw [hbus, Bus.dispatching_endDispatch] at hd
      exact absurd hd (by simp)

/-! ## Whole runs -/

/-- From time `i` on for `n` steps, a listener is subscribed firmly to a type of events, and no
event is consumed. -/
structure Hears (b : BusId) (type : EventType) (listener : Listener) (x : ℕ → Machine)
    (i n : ℕ) : Prop where
  subscribed : ∀ j ≤ n, ∃ sub ∈ ((x (i + j)).world.bus b).subscriptions type,
    sub.listener = listener ∧ sub.weak = false
  unconsumed : ∀ j ≤ n, consumedIn b (x (i + j)) = false

theorem Hears.listens (hears : Hears b type listener x i n) (h : Execution x)
    (hquiet : Quiet b (x i)) {j : ℕ} (hj : j ≤ n) : Listens b type listener (x (i + j)) := by
  induction j with
  | zero =>
      refine ⟨hears.subscribed 0 hj, fun d hd _ => ?_⟩
      have hnone := hquiet.dispatching_eq_none (h.reachable i).sound
      exact absurd (hnone.symm.trans hd) (by simp)
  | succ j ih =>
      have hlistens := ih (by omega)
      refine ⟨hears.subscribed (j + 1) hj, ?_⟩
      generalize hm : x (i + (j + 1)) = m
      cases (hm ▸ h.next (i + j) : Next (x (i + j)) m) with
      | step =>
          exact (h.reachable (i + j)).sound.firm_step hlistens (h.nodup_listeners b type (i + j))
      | host hagenda step => exact hlistens.firm

/-- What was owed before and is published is received or owed afterwards. -/
theorem Hears.owed_stretch (hears : Hears b type listener x i n) (h : Execution x)
    (hquiet : Quiet b (x i)) {j : ℕ} (hj : j ≤ n) :
    Event.ofType type (owed b listener (x i) ++ (stretch x i j).flatMap (published b)) =
      Event.ofType type ((stretch x (i + 1) j).flatMap (received b listener) ++
        owed b listener (x (i + j))) := by
  induction j with
  | zero => simp [stretch]
  | succ j ih =>
      have hstep : Event.ofType type (owed b listener (x (i + j)) ++ published b (x (i + j))) =
          Event.ofType type (received b listener (x (i + 1 + j)) ++
            owed b listener (x (i + (j + 1)))) := by
        have hnext : i + 1 + j = i + (j + 1) := by omega
        have hunconsumed := hears.unconsumed (j + 1) hj
        rw [hnext]
        generalize hm : x (i + (j + 1)) = m at hunconsumed ⊢
        cases (hm ▸ h.next (i + j) : Next (x (i + j)) m) with
        | step =>
            exact (h.reachable (i + j)).sound.owed_step (hears.listens h hquiet (by omega))
              (h.nodup_listeners b type (i + j)) (hears.unconsumed j (by omega)) hunconsumed
        | host hagenda step =>
            rw [published, hagenda, List.append_nil]
            rfl
      rw [stretch_add_one, stretch_add_one, List.flatMap_append, List.flatMap_append,
        List.flatMap_singleton, List.flatMap_singleton, ← List.append_assoc,
        Event.ofType_append, ih (by omega), ← Event.ofType_append, List.append_assoc,
        Event.ofType_append, hstep, ← Event.ofType_append, List.append_assoc]

theorem Quiet.owed_eq_nil (hquiet : Quiet b m) (h : Sound m) (listener : Listener) :
    owed b listener m = [] := by
  rw [owed, hquiet.dispatching_eq_none h, hquiet.queue_eq_nil h]
  rfl

theorem Quiet.received_eq_nil (hquiet : Quiet b m) (listener : Listener) :
    received b listener m = [] := by
  apply Machine.received_eq_nil
  unfold delivered
  split
  · rename_i c found rest hagenda
    exact if_neg fun hc => hquiet (.deliver c found) (by simp [hagenda]) (by rw [hc]; rfl)
  · rfl

/-- Between two times at which no work of a bus is left to be done, a listener that hears a type of
events receives those that are published, in the same order. -/
theorem Hears.received_eq_published (hears : Hears b type listener x i n) (h : Execution x)
    (hstart : Quiet b (x i)) (hend : Quiet b (x (i + n))) :
    Event.ofType type ((stretch x i n).flatMap (received b listener)) =
      Event.ofType type ((stretch x i n).flatMap (published b)) := by
  have howed := hears.owed_stretch h hstart le_rfl
  rw [hstart.owed_eq_nil (h.reachable i).sound, hend.owed_eq_nil (h.reachable (i + n)).sound,
    List.nil_append, List.append_nil] at howed
  -- Nothing is received at the first moment and at the last.
  have hshift : (stretch x i n).flatMap (received b listener) =
      (stretch x (i + 1) n).flatMap (received b listener) := by
    have htwice := (stretch_succ x i n).symm.trans (stretch_add_one x i n)
    have hsame := congrArg (List.flatMap (received b listener)) htwice
    rw [List.flatMap_cons, List.flatMap_append, List.flatMap_singleton,
      hstart.received_eq_nil, hend.received_eq_nil, List.nil_append, List.append_nil] at hsame
    exact hsame.symm
  rw [hshift, howed]

end Machine

end Parley
