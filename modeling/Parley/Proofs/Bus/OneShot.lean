import Parley.Proofs.Bus.Spent

/-!
# One-shot subscriptions

A one-shot subscription leads to one call of its listener at most, however the publishing of
events is nested and whatever listeners do.  After the dispatch that has called the listener it
is gone, and one that was not reached because the event had been consumed stays
(`one_shot_once`).

A dispatch removes what it has spent by its looks.  So a subscription that is made while a
dispatch is under way, and looks like a one-shot subscription that the dispatch has called, goes
with it; any other is kept (`made_in_dispatch_kept_iff`).

## Strategy

Every call is made for one subscription (`Execution.exists_calledFor`).  Two calls for the same
one belong either to one dispatch or to two.  One dispatch calls no listener twice
(`Execution.calls_once`).  Of two dispatches the first has ended before the second began, and by
then the subscription was gone (`Execution.gone_of_called`).
-/

namespace Parley.Machine

variable {x : ℕ → Machine} {m : Machine} {b : BusId} {event : Event LineRef} {type : EventType}
  {sub : Subscription} {listener : Listener} {d : Dispatch} {i j k n : ℕ}

/-! ## Calls and subscriptions -/

/-- The step at time `k` makes a subscription: its listener was not subscribed before. -/
structure Made (b : BusId) (type : EventType) (sub : Subscription) (x : ℕ → Machine)
    (k : ℕ) : Prop where
  before : ((x k).world.bus b).isSubscribed type sub.listener = false
  after : sub ∈ ((x (k + 1)).world.bus b).subscriptions type

/-- The call at time `j` is made for the subscription that was made at time `k`: when its dispatch
began, this subscription was there and had been since it was made. -/
structure CalledFor (b : BusId) (type : EventType) (sub : Subscription) (x : ℕ → Machine)
    (k j : ℕ) : Prop where
  made : Made b type sub x k
  dispatched : ∃ i event, event.type = type ∧ k < i ∧ Underway b event x i j ∧
    ∀ t, k < t → t ≤ i → sub ∈ ((x t).world.bus b).subscriptions type
  called : delivered b (x j) = some sub.listener

/-- A subscription that is there has been made, and has been there ever since. -/
theorem Execution.exists_made (h : Execution x)
    (hsub : sub ∈ ((x i).world.bus b).subscriptions type) :
    ∃ k < i, Made b type sub x k ∧
      ∀ t, k < t → t ≤ i → sub ∈ ((x t).world.bus b).subscriptions type := by
  induction i with
  | zero =>
      rw [h.initial.bus b] at hsub
      exact absurd hsub List.not_mem_nil
  | succ i ih =>
      by_cases hold : sub ∈ ((x i).world.bus b).subscriptions type
      · obtain ⟨k, hk, hmade, hthere⟩ := ih hold
        refine ⟨k, by omega, hmade, fun t hkt hti => ?_⟩
        rcases Nat.lt_or_ge i t with hlt | hle
        · obtain rfl : t = i + 1 := by omega
          exact hsub
        · exact hthere t hkt hle
      -- The step before has entered it, so its listener was new.
      · refine ⟨i, by omega, ⟨?_, hsub⟩, fun t hit hti => ?_⟩
        · have hchange := (h.reachable i).sound.change_next (h.next i) b type
          generalize ((x (i + 1)).world.bus b).subscriptions type = subs at hchange hsub
          cases hchange with
          | removed hsublist => exact absurd (hsublist.subset hsub) hold
          | entered new hnew =>
              obtain rfl := (Bus.mem_insertByPriority.mp hsub).resolve_right hold
              exact Bus.isSubscribed_eq_false_iff.mpr hnew
        · obtain rfl : t = i + 1 := by omega
          exact hsub

/-- While a bus is publishing, a dispatch that began before is under way. -/
theorem Execution.exists_underway (h : Execution x)
    (hpub : ((x j).world.bus b).isPublishing = true) : ∃ event i, Underway b event x i j := by
  induction j with
  | zero =>
      rw [h.initial.bus b] at hpub
      exact absurd hpub (by simp [Bus.isPublishing])
  | succ j ih =>
      cases hbefore : ((x j).world.bus b).isPublishing with
      | true =>
          obtain ⟨event, i, hunder⟩ := ih hbefore
          refine ⟨event, i, hunder.begun, Nat.lt_succ_of_lt hunder.after, fun t hit htj => ?_⟩
          rcases Nat.lt_or_ge j t with hlt | hle
          · obtain rfl : t = j + 1 := by omega
            exact hpub
          · exact hunder.publishing t hit hle
      | false =>
          have hbegun : ∃ event, begun b (x j) = [event] := by
            have hnone : ((x j).world.bus b).dispatching = none := by
              simpa [Bus.isPublishing] using hbefore
            generalize hm : x (j + 1) = m at hpub
            cases (hm ▸ h.next j : Next (x j) m) with
            | step =>
                obtain ⟨d, hd⟩ := Option.isSome_iff_exists.mp hpub
                exact ⟨d.event, by simp [begun, hnone, hd]⟩
            | host hagenda step => exact absurd (hpub.symm.trans hbefore) (by simp)
          obtain ⟨event, hevent⟩ := hbegun
          refine ⟨event, j, hevent, Nat.lt_succ_self j, fun t hjt htj => ?_⟩
          obtain rfl : t = j + 1 := by omega
          exact hpub

/-- Where every listener is called once, two times at which one is called are the same. -/
theorem delivered_ne_of_nodup (hnodup : (called b (stretch x i n)).Nodup) (hjk : j < k)
    (hkn : k < n) (hcalled : delivered b (x (i + j)) = some listener) :
    delivered b (x (i + k)) ≠ some listener := by
  rw [called, stretch, List.filterMap_map, List.Nodup, List.pairwise_filterMap,
    List.pairwise_iff_getElem] at hnodup
  intro hagain
  have hj : j < (List.range n).length := by rw [List.length_range]; omega
  have hk : k < (List.range n).length := by rw [List.length_range]; omega
  exact hnodup j k hj hk hjk listener (by simpa using hcalled) listener (by simpa using hagain) rfl

/-- A dispatch calls nobody twice. -/
theorem Execution.calls_once (h : Execution x) (hunder : Underway b event x i k) (hij : i < j)
    (hjk : j < k) (hcalled : delivered b (x j) = some listener) :
    delivered b (x k) ≠ some listener := by
  obtain ⟨a, rfl⟩ := Nat.exists_eq_add_of_lt hij
  obtain ⟨c, rfl⟩ := Nat.exists_eq_add_of_lt hjk
  have hpub : ∀ m ∈ stretch x (i + 1) (a + c + 1), (m.world.bus b).isPublishing = true := by
    intro m hm
    obtain ⟨t, ht, rfl⟩ := List.mem_map.mp hm
    have hlt := List.mem_range.mp ht
    exact hunder.publishing (i + 1 + t) (by omega) (by omega)
  have hnodup : (called b (stretch x (i + 1) (a + c + 1 + 1))).Nodup := by
    rw [h.called_eq hunder.begun hpub (.inl rfl)]
    exact (due_sublist b _ _).nodup (h.nodup_listeners b event.type i)
  have hfirst : i + a + 1 = i + 1 + a := by omega
  have hsecond : i + a + 1 + c + 1 = i + 1 + (a + c + 1) := by omega
  rw [hfirst] at hcalled
  rw [hsecond]
  exact delivered_ne_of_nodup hnodup (by omega) (by omega) hcalled

/-- What an ending dispatch leaves of the subscriptions to its type. -/
theorem Tally.mem_endDispatch_iff {bus : Bus} (htally : Tally b event x i j d) :
    sub ∈ (bus.endDispatch d).subscriptions event.type ↔
      sub ∈ bus.subscriptions event.type ∧ sub ∉ d.spent := by
  rw [← htally.type]
  exact Machine.mem_endDispatch_iff

/-- A one-shot subscription is gone after the dispatch that has called its listener. -/
theorem Execution.gone_of_called (h : Execution x) (hunder : Underway b event x i j)
    (hended : ((x (j + 1)).world.bus b).isPublishing = false) (honce : sub.oneShot = true)
    (hsub : sub ∈ ((x i).world.bus b).subscriptions event.type)
    (hcalled : CalledBy b x i j sub.listener) :
    sub ∉ ((x (j + 1)).world.bus b).subscriptions event.type := by
  obtain ⟨d, -, hdone, hbus, htally⟩ := h.tally_ended hunder hended
  rw [hbus, htally.mem_endDispatch_iff]
  rintro ⟨-, hunspent⟩
  rcases htally.used sub (htally.snapshot ▸ hsub) honce (hcalled.mono (by omega)) with
    hspent | hcalling
  · exact hunspent hspent
  · exact absurd (hdone.symm.trans hcalling) (by simp)

/-- A subscription that waits when the event is consumed outlasts the dispatch. -/
theorem Execution.subscribed_of_shut (h : Execution x) (hunder : Underway b event x i j)
    (hended : ((x (j + 1)).world.bus b).isPublishing = false) (hik : i < k) (hkj : k ≤ j)
    (hd : ((x k).world.bus b).dispatching = some d) (hshut : d.Shut) (hwaits : sub ∈ d.waiting)
    (hsub : sub ∈ ((x k).world.bus b).subscriptions event.type)
    (halone : LeftAlone b event.type sub x k j) :
    sub ∈ ((x (j + 1)).world.bus b).subscriptions event.type := by
  have hpub : ∀ t, k ≤ t → t ≤ j → ((x t).world.bus b).isPublishing = true :=
    fun t hkt htj => hunder.publishing t (by omega) htj
  -- It has not been used up when the event is consumed, and nothing is after that.
  obtain ⟨d₁, hd₁, htally₁⟩ := h.tally (hunder.mono hik hkj)
  obtain rfl : d = d₁ := Option.some.inj (hd.symm.trans hd₁)
  have hnodup : d.snapshot.Nodup := by
    rw [htally₁.snapshot]
    exact (h.nodup_listeners b event.type i).of_map
  obtain ⟨hunspent, huncalled⟩ := htally₁.of_waiting hnodup hwaits
  obtain ⟨⟨d₂, hd₂, hshut₂, hcalling₂, hspent₂⟩, -⟩ := h.shut hd hshut hkj hpub
  obtain ⟨d₃, hd₃, -, hbus, htally₃⟩ := h.tally_ended hunder hended
  obtain rfl : d₂ = d₃ := Option.some.inj (hd₂.symm.trans hd₃)
  rw [hbus, htally₃.mem_endDispatch_iff]
  refine ⟨h.subscribed_of_isPublishing hpub hkj halone hsub, fun hspent => ?_⟩
  rcases mem_spent_reached_of_shut hshut₂ hspent with hold | hcalling
  · exact hunspent (hspent₂ ▸ hold)
  · exact huncalled (hcalling₂ ▸ hcalling)

/-- A dispatch goes on or has ended. -/
theorem Underway.goes_on_or_ended (hunder : Underway b event x i j) (hjn : j ≤ n) :
    Underway b event x i n ∨ ∃ last, j ≤ last ∧ last < n ∧ Underway b event x i last ∧
      ((x (last + 1)).world.bus b).isPublishing = false := by
  induction n, hjn using Nat.le_induction with
  | base => exact .inl hunder
  | succ n hjn ih =>
      rcases ih with hstill | ⟨last, hlast, hlt, hunder', hended⟩
      · cases hpub : ((x (n + 1)).world.bus b).isPublishing with
        | false => exact .inr ⟨n, hjn, by omega, hstill, hpub⟩
        | true =>
            refine .inl ⟨hunder.begun, Nat.lt_succ_of_lt hstill.after, fun t hit htn => ?_⟩
            rcases Nat.lt_or_ge n t with hlt | hle
            · obtain rfl : t = n + 1 := by omega
              exact hpub
            · exact hstill.publishing t hit hle
      · exact .inr ⟨last, hlast, by omega, hunder', hended⟩

/-- No dispatch begins while one is under way. -/
theorem not_begun_of_underway {event' : Event LineRef} (hunder : Underway b event x i j)
    (hik : i < k) (hkj : k ≤ j) : begun b (x k) ≠ [event'] := by
  intro hbegun
  exact absurd ((hunder.publishing k hik hkj).symm.trans (idle_of_begun hbegun)) (by simp)

/-- A one-shot subscription leads to one call at most. -/
theorem CalledFor.not_lt (h : Execution x) (honce : sub.oneShot = true)
    (hfirst : CalledFor b type sub x k j) (hsecond : CalledFor b type sub x k n) : ¬ j < n := by
  intro hjn
  obtain ⟨i, event, rfl, hki, hunder, hthere⟩ := hfirst.dispatched
  obtain ⟨i', event', -, hki', hunder', hthere'⟩ := hsecond.dispatched
  have hij := hunder.after
  rcases Nat.lt_trichotomy i i' with hlt | rfl | hgt
  -- The first dispatch has ended before the second began, and with it the subscription.
  · have hji' : j < i' := by
      by_contra hle
      exact not_begun_of_underway hunder hlt (by omega) hunder'.begun
    rcases hunder.goes_on_or_ended hji'.le with hstill | ⟨last, hlast, hlt', hwhole, hended⟩
    · exact not_begun_of_underway hstill hlt le_rfl hunder'.begun
    · exact h.gone_of_called hwhole hended honce (hthere i hki le_rfl)
        ⟨j, hij, hlast, hfirst.called⟩ (hthere' (last + 1) (by omega) (by omega))
  · exact h.calls_once hunder' hij hjn hfirst.called hsecond.called
  · exact not_begun_of_underway hunder' hgt (by omega) hunder.begun

/-- A listener that is being called is the one that the dispatch says. -/
theorem Sound.dispatching_of_delivered (h : Sound m)
    (hcalled : delivered b m.step = some listener) :
    ∃ d sub, (m.step.world.bus b).dispatching = some d ∧ d.calling = some sub ∧
      sub.listener = listener := by
  cases h.turn b with
  | aside hpublished hgoes hdelivered hcalm =>
      exact absurd (hdelivered.symm.trans hcalled) (by simp)
  | enqueues hpublished hgoes hdelivered hpub hbus =>
      exact absurd (hdelivered.symm.trans hcalled) (by simp)
  | begins hpublished hgoes hdelivered hidle hbus =>
      exact absurd (hdelivered.symm.trans hcalled) (by simp)
  | @calls d sub hpublished hgoes hdelivered hd hcalling hbus =>
      refine ⟨m.reached d, sub, by rw [hbus, Bus.modifyDispatch, hd]; rfl, hcalling, ?_⟩
      exact Option.some.inj (hdelivered.symm.trans hcalled)
  | ends hpublished hgoes hdelivered hd hdone hbus =>
      exact absurd (hdelivered.symm.trans hcalled) (by simp)

/-- Every call is made for a subscription. -/
theorem Execution.exists_calledFor (h : Execution x) (hcalled : delivered b (x j) = some listener) :
    ∃ type sub k, sub.listener = listener ∧ CalledFor b type sub x k j := by
  have hdispatching : ∃ d sub, ((x j).world.bus b).dispatching = some d ∧
      d.calling = some sub ∧ sub.listener = listener := by
    cases j with
    | zero => rw [delivered, h.initial.agenda] at hcalled; exact absurd hcalled (by simp)
    | succ j =>
        generalize hm : x (j + 1) = m at hcalled ⊢
        cases (hm ▸ h.next j : Next (x j) m) with
        | step => exact (h.reachable j).sound.dispatching_of_delivered hcalled
        | host hagenda step => exact absurd hcalled (by simp [delivered])
  obtain ⟨d, sub, hd, hcalling, hlistener⟩ := hdispatching
  obtain ⟨event, i, hunder⟩ := h.exists_underway (b := b) (by rw [Bus.isPublishing, hd]; rfl)
  obtain ⟨d', hd', htally⟩ := h.tally hunder
  obtain rfl : d = d' := Option.some.inj (hd.symm.trans hd')
  have hsnapshot := htally.mem_snapshot hcalling
  rw [htally.snapshot] at hsnapshot
  obtain ⟨k, hki, hmade, hthere⟩ := h.exists_made hsnapshot
  exact ⟨event.type, sub, k, hlistener, hmade, ⟨i, event, rfl, hki, hunder, hthere⟩,
    hlistener ▸ hcalled⟩

/-- An idle bus calls nobody. -/
theorem Execution.not_delivered_of_idle (h : Execution x)
    (hidle : ((x j).world.bus b).isPublishing = false) (listener : Listener) :
    delivered b (x j) ≠ some listener := by
  intro hcalled
  obtain ⟨type, sub, k, -, hfor⟩ := h.exists_calledFor hcalled
  obtain ⟨i, event, -, -, hunder, -⟩ := hfor.dispatched
  exact absurd ((hunder.publishing j hunder.after le_rfl).symm.trans hidle) (by simp)

/-! ## At most once -/

/-- Every call is made for a subscription, and no two calls for the same one-shot subscription.
After the dispatch in which its listener has been called such a subscription is gone, whatever
the listener has done.  A subscription that a dispatch has not come to when its event is consumed
leads to no call any more, and is still there after the dispatch if nobody ends it. -/
theorem one_shot_once (h : Execution x) (b : BusId) :
    (∀ j listener, delivered b (x j) = some listener →
        ∃ type sub k, sub.listener = listener ∧ CalledFor b type sub x k j) ∧
      (∀ type sub k j j', sub.oneShot = true → CalledFor b type sub x k j →
        CalledFor b type sub x k j' → j = j') ∧
      ∀ event i j, Underway b event x i j →
        ((x (j + 1)).world.bus b).isPublishing = false →
        (∀ sub ∈ ((x i).world.bus b).subscriptions event.type, sub.oneShot = true →
          CalledBy b x i j sub.listener →
          sub ∉ ((x (j + 1)).world.bus b).subscriptions event.type) ∧
        ∀ k d, i < k → k ≤ j → ((x k).world.bus b).dispatching = some d →
          d.calling.isSome = true → d.event.consumed = true → ∀ sub ∈ d.waiting,
          (∀ t, k < t → t ≤ j → delivered b (x t) ≠ some sub.listener) ∧
            (sub ∈ ((x k).world.bus b).subscriptions event.type →
              LeftAlone b event.type sub x k j →
              sub ∈ ((x (j + 1)).world.bus b).subscriptions event.type) := by
  refine ⟨fun j listener => h.exists_calledFor, fun type sub k j j' honce hfirst hsecond => ?_,
    fun event i j hunder hended => ⟨fun sub hsub honce => ?_, ?_⟩⟩
  · have := hfirst.not_lt h honce hsecond
    have := hsecond.not_lt h honce hfirst
    omega
  · exact h.gone_of_called hunder hended honce hsub
  · intro k d hik hkj hd hcalling hconsumed sub hwaits
    have hpub : ∀ t, k ≤ t → t ≤ j → ((x t).world.bus b).isPublishing = true :=
      fun t hkt htj => hunder.publishing t (by omega) htj
    obtain ⟨-, hnone⟩ := h.shut hd ⟨hcalling, hconsumed⟩ hkj hpub
    refine ⟨fun t hkt htj => by simp [hnone t hkt htj], ?_⟩
    exact h.subscribed_of_shut hunder hended hik hkj hd ⟨hcalling, hconsumed⟩ hwaits

/-- A host with two one-shot listeners.  The first publishes another event of the type it is
called with, consumes the one it is called with, and fails. -/
def relay : ℕ → Machine :=
  course { world := World.ofHandlers [("first",
      [(1, [.bus (.free "bus") (.publish (.dialogue .nodeEntered) []), .consume, .fail "" ""])]),
      ("second", [(1, [])])] }
    [.bus (.free "bus") (.subscribe (.dialogue .nodeEntered) "first" 1 true true),
      .bus (.free "bus") (.subscribe (.dialogue .nodeEntered) "second" 0 true true),
      .bus (.free "bus") (.publish (.dialogue .nodeEntered) [])]

theorem one_shot_once_relay :
    Execution relay ∧ Underway (.free "bus") { type := .dialogue .nodeEntered } relay 6 16 ∧
      delivered (.free "bus") (relay 8) = some (.handler ⟨0⟩) ∧
      ⟨1, .handler ⟨0⟩, true, true⟩ ∉
        ((relay 17).world.bus (.free "bus")).subscriptions (.dialogue .nodeEntered) ∧
      ⟨0, .handler ⟨1⟩, true, true⟩ ∈
        ((relay 17).world.bus (.free "bus")).subscriptions (.dialogue .nodeEntered) := by
  have h : Execution relay := execution_course (initial_ofHandlers _) _
  have hpub : ∀ t ≤ 16, 6 < t → ((relay t).world.bus (.free "bus")).isPublishing = true := by
    decide +kernel
  have hunder : Underway (.free "bus") { type := .dialogue .nodeEntered } relay 6 16 :=
    ⟨by rfl, by omega, fun t hlt hle => hpub t hle hlt⟩
  have hcalled : delivered (.free "bus") (relay 8) = some (.handler ⟨0⟩) := by decide +kernel
  have hconsumed : ((relay 15).world.bus (.free "bus")).dispatching.any (fun d =>
      d.calling.isSome && d.event.consumed &&
        d.waiting.contains ⟨0, .handler ⟨1⟩, true, true⟩) = true := by decide +kernel
  obtain ⟨d, hd, hwaits⟩ := (Option.any_eq_true _ _).mp hconsumed
  simp only [Bool.and_eq_true, List.contains_iff_mem] at hwaits
  have halone : ∀ t < 16, 15 ≤ t → unsubscribes (.free "bus") (relay t) = false := by
    decide +kernel
  obtain ⟨-, -, hdispatch⟩ := one_shot_once h (.free "bus")
  obtain ⟨hgone, hkept⟩ := hdispatch _ 6 16 hunder (by decide +kernel)
  refine ⟨h, hunder, hcalled, hgone ⟨1, .handler ⟨0⟩, true, true⟩ (by decide +kernel) rfl
    ⟨8, by omega, by omega, hcalled⟩, ?_⟩
  refine (hkept 15 d (by omega) (by omega) hd hwaits.1.1 hwaits.1.2 _ hwaits.2).2
    (by decide +kernel) fun t hle hlt hends => ?_
  exact absurd (hends.symm.trans (halone t hlt hle)) (by simp)

/-! ## Subscriptions made during a dispatch -/

/-- A subscription that is made while a dispatch is under way, that leads somewhere all the time
and that nobody ends, is kept by the dispatch, unless it equals a one-shot subscription that the
dispatch began with and has called. -/
theorem made_in_dispatch_kept_iff (h : Execution x) (hunder : Underway b event x i j)
    (hended : ((x (j + 1)).world.bus b).isPublishing = false) (hik : i < k) (hkj : k < j)
    (hmade : Made b event.type sub x k) (halone : LeftAlone b event.type sub x (k + 1) j)
    (halive : ∀ t, i < t → t ≤ j → goesOn b (x t) = true → (x t).leads sub = true) :
    ((x (j + 1)).world.bus b).isSubscribed event.type sub.listener = true ↔
      ¬ (sub.oneShot = true ∧ sub ∈ ((x i).world.bus b).subscriptions event.type ∧
        CalledBy b x i j sub.listener) := by
  have hthere : sub ∈ ((x j).world.bus b).subscriptions event.type :=
    h.subscribed_of_isPublishing (fun t hkt htj => hunder.publishing t (by omega) htj) hkj halone
      hmade.after
  obtain ⟨d, -, -, hbus, htally⟩ := h.tally_ended hunder hended
  constructor
  · rintro hsubscribed ⟨honce, hsub, hcalled⟩
    obtain ⟨other, hother, hlistener⟩ := List.any_eq_true.mp hsubscribed
    have hgone := h.gone_of_called hunder hended honce hsub hcalled
    -- The end of a dispatch enters nothing, so another subscription of the listener would have
    -- been there beside this one.
    have hbefore := hother
    rw [hbus, htally.mem_endDispatch_iff] at hbefore
    have hsame : other = sub := List.inj_on_of_nodup_map (h.nodup_listeners b event.type j)
      hbefore.1 hthere (by simpa using hlistener)
    exact hgone (hsame ▸ hother)
  · intro hunlike
    apply isSubscribed_of_mem
    rw [hbus, htally.mem_endDispatch_iff]
    refine ⟨hthere, fun hspent => ?_⟩
    rcases htally.reason sub hspent with ⟨honce, hcalled⟩ | ⟨t, hit, htj, hgoes, hdead⟩
    · have hsnapshot : sub ∈ ((x i).world.bus b).subscriptions event.type :=
        htally.snapshot ▸ htally.sublist.subset (by simp [hspent])
      rcases hcalled.eq_or with hearly | hlate
      · exact hunlike ⟨honce, hsnapshot, hearly⟩
      · exact h.not_delivered_of_idle hended _ hlate
    · exact absurd ((halive t hit (by omega) hgoes).symm.trans hdead) (by simp)

/-- A host with a one-shot listener that ends its subscription when it is called and makes the same
one again; and another that does so with a higher priority. -/
def renewal : ℕ → Machine :=
  course { world := World.ofHandlers [
      ("same", [(1, [.bus (.free "bus") (.unsubscribe (.dialogue .nodeEntered) "same"),
        .bus (.free "bus") (.subscribe (.dialogue .nodeEntered) "same" 0 true false)])]),
      ("other", [(1, [.bus (.free "bus") (.unsubscribe (.dialogue .nodeEntered) "other"),
        .bus (.free "bus") (.subscribe (.dialogue .nodeEntered) "other" 1 true false)])])] }
    [.bus (.free "bus") (.subscribe (.dialogue .nodeEntered) "same" 0 true false),
      .bus (.free "bus") (.subscribe (.dialogue .nodeEntered) "other" 0 true false),
      .bus (.free "bus") (.publish (.dialogue .nodeEntered) [])]

theorem underway_renewal :
    Underway (.free "bus") { type := .dialogue .nodeEntered } renewal 6 27 := by
  have hpub : ∀ t ≤ 27, 6 < t → ((renewal t).world.bus (.free "bus")).isPublishing = true := by
    decide +kernel
  exact ⟨by rfl, by omega, fun t hlt hle => hpub t hle hlt⟩

theorem made_in_dispatch_kept_iff_renewal :
    Execution renewal ∧
      Made (.free "bus") (.dialogue .nodeEntered) ⟨1, .handler ⟨1⟩, false, true⟩ renewal 24 ∧
      CalledBy (.free "bus") renewal 6 27 (.handler ⟨1⟩) ∧
      ((renewal 28).world.bus (.free "bus")).isSubscribed (.dialogue .nodeEntered)
        (.handler ⟨1⟩) = true := by
  have h : Execution renewal := execution_course (initial_ofHandlers _) _
  have hmade : Made (.free "bus") (.dialogue .nodeEntered) ⟨1, .handler ⟨1⟩, false, true⟩
      renewal 24 := ⟨by decide +kernel, by decide +kernel⟩
  have halone : ∀ t < 27, 25 ≤ t → unsubscribes (.free "bus") (renewal t) = false := by
    decide +kernel
  have halive : ∀ t ≤ 27, 6 < t → goesOn (.free "bus") (renewal t) = true →
      (renewal t).leads ⟨1, .handler ⟨1⟩, false, true⟩ = true := by decide +kernel
  have hnew : ⟨1, .handler ⟨1⟩, false, true⟩ ∉
      ((renewal 6).world.bus (.free "bus")).subscriptions (.dialogue .nodeEntered) := by
    decide +kernel
  refine ⟨h, hmade, ⟨18, by omega, by omega, by decide +kernel⟩, ?_⟩
  refine (made_in_dispatch_kept_iff h underway_renewal (by decide +kernel) (by omega) (by omega)
    hmade (fun t hle hlt hends => ?_) fun t hlt hle => halive t hle hlt).mpr
      fun hequal => hnew hequal.2.1
  exact absurd (hends.symm.trans (halone t hlt hle)) (by simp)

/-- The subscription that equals the one before it is lost, though nobody ends it. -/
theorem equal_subscription_lost :
    Execution renewal ∧
      Underway (.free "bus") { type := .dialogue .nodeEntered } renewal 6 27 ∧
      ((renewal 28).world.bus (.free "bus")).isPublishing = false ∧
      Made (.free "bus") (.dialogue .nodeEntered) ⟨0, .handler ⟨0⟩, false, true⟩ renewal 14 ∧
      LeftAlone (.free "bus") (.dialogue .nodeEntered) ⟨0, .handler ⟨0⟩, false, true⟩
        renewal 15 27 ∧
      (∀ t ≤ 28, (renewal t).leads ⟨0, .handler ⟨0⟩, false, true⟩ = true) ∧
      ((renewal 28).world.bus (.free "bus")).isSubscribed (.dialogue .nodeEntered)
        (.handler ⟨0⟩) = false := by
  have halone : ∀ t < 27, 15 ≤ t → unsubscribes (.free "bus") (renewal t) = true →
      ⟨0, .handler ⟨0⟩, false, true⟩ ∈
        ((renewal (t + 1)).world.bus (.free "bus")).subscriptions (.dialogue .nodeEntered) := by
    decide +kernel
  exact ⟨execution_course (initial_ofHandlers _) _, underway_renewal, by decide +kernel,
    ⟨by decide +kernel, by decide +kernel⟩, fun t hle hlt hends _ => halone t hlt hle hends,
    by decide +kernel, by decide +kernel⟩

end Parley.Machine
