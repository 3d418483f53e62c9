import Parley.Proofs.Bus.Reception

/-!
# What a dispatch uses up

When a dispatch ends, it removes the subscriptions it has spent: those that led nowhere when it
came to them, and the one-shot ones whose listener it has called.  It tells them from others by
what they are and not by when they were made, so what it removes is known only from its own
history (`Tally`), which is followed step by step from its beginning (`Execution.tally`).

Once an event has been consumed while a listener was being called, its dispatch comes to no
further subscription and spends no more than the one being called (`Execution.shut`).
-/

namespace Parley

/-! ## One move of a dispatch -/

namespace Dispatch

theorem spent_settle (d : Dispatch) :
    d.settle.spent = d.spent ++ (d.calling.filter Subscription.oneShot).toList := by
  unfold Dispatch.settle
  split <;> rename_i hcalling <;> rw [hcalling]
  · simp
  · rename_i called
    cases honce : called.oneShot <;> simp [Option.filter, honce]

/-- What has been spent, what is being called and what waits keep their places. -/
theorem sublist_settle (d : Dispatch) :
    (d.settle.spent ++ d.settle.calling.toList ++ d.settle.waiting).Sublist
      (d.spent ++ d.calling.toList ++ d.waiting) := by
  have hcalled : (d.calling.filter Subscription.oneShot).toList.Sublist d.calling.toList := by
    cases hcalling : d.calling with
    | none => exact List.Sublist.refl _
    | some called => cases honce : called.oneShot <;> simp [Option.filter, honce]
  have hwaiting : d.settle.waiting.Sublist d.waiting := by
    rw [Machine.waiting_settle]
    split
    · exact List.nil_sublist _
    · exact List.Sublist.refl _
  rw [spent_settle, Machine.calling_settle, Option.toList_none, List.append_nil]
  exact ((List.Sublist.refl _).append hcalled).append hwaiting

/-- The event of a dispatch has been consumed while a listener was being called: no other
subscription is going to be looked at. -/
def Shut (d : Dispatch) : Prop :=
  d.calling.isSome = true ∧ d.event.consumed = true

theorem Shut.waiting_settle {d : Dispatch} (h : d.Shut) : d.settle.waiting = [] := by
  rw [Machine.waiting_settle, h.1, h.2]
  rfl

end Dispatch

namespace Machine

variable {x : ℕ → Machine} {m : Machine} {b : BusId} {event : Event LineRef}
  {type : EventType} {sub : Subscription} {listener : Listener} {d : Dispatch} {i j k n : ℕ}

theorem snapshot_reached (m : Machine) (d : Dispatch) : (m.reached d).snapshot = d.snapshot := by
  have hsettle : d.settle.snapshot = d.snapshot := by
    unfold Dispatch.settle
    split <;> rfl
  rw [← hsettle, reached, Dispatch.next]
  split <;> rfl

theorem spent_reached (m : Machine) (d : Dispatch) :
    (m.reached d).spent = d.spent ++ (d.calling.filter Subscription.oneShot).toList ++
      d.settle.waiting.takeWhile fun sub => !m.leads sub := by
  rw [reached, Dispatch.spent_next, Dispatch.spent_settle]
  rfl

theorem sublist_reached (m : Machine) (d : Dispatch) :
    ((m.reached d).spent ++ (m.reached d).calling.toList ++ (m.reached d).waiting).Sublist
      (d.spent ++ d.calling.toList ++ d.waiting) := by
  have hsame : (m.reached d).spent ++ (m.reached d).calling.toList ++ (m.reached d).waiting =
      d.settle.spent ++ d.settle.calling.toList ++ d.settle.waiting := by
    rw [spent_reached, ← Dispatch.spent_settle, calling_reached, waiting_reached,
      calling_settle, Option.toList_none, List.append_nil]
    conv_rhs => rw [← List.takeWhile_append_dropWhile (l := d.settle.waiting)
      (p := fun sub => !m.leads sub)]
    cases d.settle.waiting.dropWhile fun sub => !m.leads sub <;> simp
  exact hsame ▸ d.sublist_settle

/-- A subscription is spent for being one-shot and called, or for leading nowhere. -/
theorem mem_spent_reached :
    sub ∈ (m.reached d).spent ↔ sub ∈ d.spent ∨ (d.calling = some sub ∧ sub.oneShot = true) ∨
      sub ∈ d.settle.waiting.takeWhile fun sub => !m.leads sub := by
  rw [spent_reached, List.mem_append, List.mem_append, or_assoc, Option.mem_toList,
    Option.filter_eq_some_iff]

/-! ## The tally of a dispatch -/

/-- A dispatch of an event that began at time `i` is under way at time `j`. -/
structure Underway (b : BusId) (event : Event LineRef) (x : ℕ → Machine) (i j : ℕ) : Prop where
  begun : begun b (x i) = [event]
  after : i < j
  publishing : ∀ t, i < t → t ≤ j → ((x t).world.bus b).isPublishing = true

/-- A listener has been called after time `i`, at time `j` at the latest. -/
def CalledBy (b : BusId) (x : ℕ → Machine) (i j : ℕ) (listener : Listener) : Prop :=
  ∃ t, i < t ∧ t ≤ j ∧ delivered b (x t) = some listener

/-- A subscription led nowhere when a dispatch went on between two times. -/
def FoundDead (b : BusId) (x : ℕ → Machine) (i j : ℕ) (sub : Subscription) : Prop :=
  ∃ t, i < t ∧ t < j ∧ goesOn b (x t) = true ∧ (x t).leads sub = false

/-- What a dispatch that began at time `i` has done by time `j`. -/
structure Tally (b : BusId) (event : Event LineRef) (x : ℕ → Machine) (i j : ℕ)
    (d : Dispatch) : Prop where
  type : d.event.type = event.type
  snapshot : d.snapshot = ((x i).world.bus b).subscriptions event.type
  /-- It has gone through its snapshot from the front. -/
  sublist : (d.spent ++ d.calling.toList ++ d.waiting).Sublist d.snapshot
  calling : ∀ sub, d.calling = some sub → CalledBy b x i j sub.listener
  /-- What is spent has been called once and for all, or led nowhere. -/
  reason : ∀ sub ∈ d.spent,
    (sub.oneShot = true ∧ CalledBy b x i j sub.listener) ∨ FoundDead b x i j sub
  used : ∀ sub ∈ d.snapshot, sub.oneShot = true → CalledBy b x i j sub.listener →
    sub ∈ d.spent ∨ d.calling = some sub

theorem CalledBy.mono (h : CalledBy b x i j listener) (hjk : j ≤ k) :
    CalledBy b x i k listener := by
  obtain ⟨t, hit, htj, hcalled⟩ := h
  exact ⟨t, hit, by omega, hcalled⟩

theorem FoundDead.mono (h : FoundDead b x i j sub) (hjk : j ≤ k) : FoundDead b x i k sub := by
  obtain ⟨t, hit, htj, hdead⟩ := h
  exact ⟨t, hit, by omega, hdead⟩

theorem CalledBy.eq_or (h : CalledBy b x i (j + 1) listener) :
    CalledBy b x i j listener ∨ delivered b (x (j + 1)) = some listener := by
  obtain ⟨t, hit, htj, hcalled⟩ := h
  rcases Nat.lt_or_ge j t with hlt | hle
  · obtain rfl : t = j + 1 := by omega
    exact .inr hcalled
  · exact .inl ⟨t, hit, hle, hcalled⟩

theorem Underway.mono (h : Underway b event x i k) (hij : i < j) (hjk : j ≤ k) :
    Underway b event x i j :=
  ⟨h.begun, hij, fun t hit htj => h.publishing t hit (by omega)⟩

theorem Tally.mem_snapshot (h : Tally b event x i j d) (hsub : d.calling = some sub) :
    sub ∈ d.snapshot :=
  h.sublist.subset (by simp [hsub])

/-- What waits has neither been called nor spent. -/
theorem Tally.of_waiting (h : Tally b event x i j d) (hnodup : d.snapshot.Nodup)
    (hsub : sub ∈ d.waiting) : sub ∉ d.spent ∧ d.calling ≠ some sub := by
  have hapart := h.sublist.nodup hnodup
  rw [List.nodup_append] at hapart
  refine ⟨fun hspent => ?_, fun hcalling => ?_⟩
  · exact hapart.2.2 sub (List.mem_append_left _ hspent) sub hsub rfl
  · exact hapart.2.2 sub (List.mem_append_right _ (by simp [hcalling])) sub hsub rfl

/-- A step that does not go on with the dispatch changes nothing of it, except that its event may
be consumed. -/
theorem Tally.stay (h : Tally b event x i j d) (hcalled : delivered b (x (j + 1)) = none)
    {e : Event LineRef} (htype : e.type = d.event.type) :
    Tally b event x i (j + 1) { d with event := e } := by
  refine ⟨htype.trans h.type, h.snapshot, h.sublist,
    fun sub hsub => (h.calling sub hsub).mono (by omega), fun sub hsub => ?_,
    fun sub hsub honce hlate => ?_⟩
  · exact (h.reason sub hsub).imp (.imp_right fun hearly => hearly.mono (by omega))
      fun hdead => hdead.mono (by omega)
  · rcases hlate.eq_or with hearly | hnow
    · exact h.used sub hsub honce hearly
    · exact absurd (hcalled.symm.trans hnow) (by simp)

/-- A dispatch that goes on enters the subscriptions it comes to. -/
theorem Tally.advance (h : Tally b event x i j d)
    (hnodup : (d.snapshot.map Subscription.listener).Nodup) (hij : i < j)
    (hgoes : goesOn b (x j) = true)
    (hcalled : delivered b (x (j + 1)) = ((x j).reached d).calling.map Subscription.listener) :
    Tally b event x i (j + 1) ((x j).reached d) := by
  have hsublist := (sublist_reached (x j) d).trans h.sublist
  have hsnapshot := snapshot_reached (x j) d
  refine ⟨?_, hsnapshot.trans h.snapshot, hsnapshot ▸ hsublist, fun sub hsub => ?_,
    fun sub hsub => ?_, fun sub hsub honce hlate => ?_⟩
  · rw [event_reached, h.type]
  · exact ⟨j + 1, by omega, le_rfl, by rw [hcalled, hsub, Option.map_some]⟩
  · rcases mem_spent_reached.mp hsub with hold | ⟨hcalling, honce⟩ | hdead
    · exact (h.reason sub hold).imp (.imp_right fun hearly => hearly.mono (by omega))
        fun hdead => hdead.mono (by omega)
    · exact .inl ⟨honce, (h.calling sub hcalling).mono (by omega)⟩
    · have hnowhere := List.mem_takeWhile_imp hdead
      exact .inr ⟨j, hij, by omega, hgoes, by simpa using hnowhere⟩
  · rw [hsnapshot] at hsub
    rcases hlate.eq_or with hearly | hnow
    · refine .inl (mem_spent_reached.mpr ?_)
      rcases h.used sub hsub honce hearly with hspent | hcalling
      · exact .inl hspent
      · exact .inr (.inl ⟨hcalling, honce⟩)
    -- The listener is subscribed only once, so it is this subscription that is called.
    · obtain ⟨other, hother, hlistener⟩ := Option.map_eq_some_iff.mp (hcalled.symm.trans hnow)
      have hmem : other ∈ d.snapshot := hsublist.subset (by simp [hother])
      obtain rfl := List.inj_on_of_nodup_map hnodup hmem hsub hlistener
      exact .inr hother

/-- A dispatch is at an end only by its own step. -/
theorem Sound.ends_step (h : Sound m) (hpub : (m.world.bus b).isPublishing = true)
    (hidle : (m.step.world.bus b).isPublishing = false) :
    ∃ d, (m.world.bus b).dispatching = some d ∧ goesOn b m = true ∧
      delivered b m.step = none ∧ (m.reached d).calling = none ∧
      m.step.world.bus b = (m.world.bus b).endDispatch (m.reached d) := by
  cases h.turn b with
  | aside hpublished hgoes hdelivered hcalm =>
      exact absurd (hcalm.isPublishing.symm.trans hidle) (by simp [hpub])
  | enqueues hpublished hgoes hdelivered hpub' hbus =>
      rw [hbus] at hidle
      exact absurd (hpub.symm.trans hidle) (by simp)
  | begins hpublished hgoes hdelivered hidle' hbus =>
      exact absurd (hpub.symm.trans hidle') (by simp)
  | calls hpublished hgoes hdelivered hd hcalling hbus =>
      rw [hbus] at hidle
      simp [Bus.isPublishing, Bus.modifyDispatch, hd] at hidle
  | ends hpublished hgoes hdelivered hd hdone hbus =>
      exact ⟨_, hd, hgoes, hdelivered, hdone, hbus⟩

/-- What a calm change makes of the dispatch under way. -/
theorem exists_event_of_calm {bus bus' : Bus} (h : bus.Calm bus')
    (hd : bus.dispatching = some d) :
    ∃ e : Event LineRef, e.type = d.event.type ∧
      (d.event.consumed = true → e.consumed = true) ∧
      bus'.dispatching = some { d with event := e } := by
  cases h with
  | resubscribed h => exact ⟨d.event, rfl, id, h.dispatching.trans hd⟩
  | consumed =>
      refine ⟨d.event.consume, rfl, fun _ => rfl, ?_⟩
      rw [Bus.consume, Bus.modifyDispatch, hd]
      rfl

theorem Execution.tally_begun (h : Execution x) (hbegun : begun b (x i) = [event]) :
    ∃ d, ((x (i + 1)).world.bus b).dispatching = some d ∧ Tally b event x i (i + 1) d := by
  obtain ⟨hdelivered, hdispatching⟩ := (h.reachable i).sound.dispatching_of_begun hbegun
  rw [← h.eq_step_of_begun hbegun] at hdelivered hdispatching
  refine ⟨_, hdispatching, rfl, rfl, by simp, by simp, by simp, fun sub hsub honce hcalled => ?_⟩
  rcases hcalled.eq_or with ⟨t, hit, hti, -⟩ | hnow
  · omega
  · exact absurd (hdelivered.symm.trans hnow) (by simp)

/-- A dispatch that is under way has kept its tally. -/
theorem Execution.tally (h : Execution x) (hunder : Underway b event x i j) :
    ∃ d, ((x j).world.bus b).dispatching = some d ∧ Tally b event x i j d := by
  -- One step after the other; the dispatch does not end before time `j`.
  have hij := hunder.after
  induction j, hij using Nat.le_induction with
  | base => exact h.tally_begun hunder.begun
  | succ j hij ih =>
      obtain ⟨d, hd, htally⟩ := ih (hunder.mono hij (by omega))
      have hpub := hunder.publishing j hij (by omega)
      have hstill := hunder.publishing (j + 1) (by omega) le_rfl
      have hstep := h.eq_step_of_isPublishing hpub
      rw [hstep] at hstill ⊢
      cases (h.reachable j).sound.turn b with
      | aside hpublished hgoes hdelivered hcalm =>
          obtain ⟨e, htype, -, hd'⟩ := exists_event_of_calm hcalm hd
          exact ⟨_, hd', htally.stay (hstep ▸ hdelivered) htype⟩
      | enqueues hpublished hgoes hdelivered hpub' hbus =>
          exact ⟨d, by rw [hbus]; exact hd, htally.stay (hstep ▸ hdelivered) rfl⟩
      | begins hpublished hgoes hdelivered hidle hbus =>
          exact absurd (hpub.symm.trans hidle) (by simp)
      | @calls d' sub hpublished hgoes hdelivered hd' hcalling hbus =>
          obtain rfl : d = d' := Option.some.inj (hd.symm.trans hd')
          have hnodup := h.nodup_listeners b event.type i
          rw [← htally.snapshot] at hnodup
          refine ⟨_, by rw [hbus, Bus.modifyDispatch, hd]; rfl,
            htally.advance hnodup hij hgoes ?_⟩
          rw [hstep, hdelivered, hcalling, Option.map_some]
      | ends hpublished hgoes hdelivered hd' hdone hbus =>
          rw [Bus.isPublishing, hbus, Bus.dispatching_endDispatch] at hstill
          exact absurd hstill (by simp)

/-- What a dispatch has spent is removed at its end. -/
theorem mem_endDispatch_iff {bus : Bus} :
    sub ∈ (bus.endDispatch d).subscriptions d.event.type ↔
      sub ∈ bus.subscriptions d.event.type ∧ sub ∉ d.spent := by
  unfold Bus.endDispatch
  dsimp only
  split
  · rename_i hnone
    simp [List.isEmpty_iff.mp hnone]
  · rw [Bus.subscriptions_update_self, List.mem_filter, decide_eq_true_iff]

/-- A dispatch that ends removes what it has spent by then. -/
theorem Execution.tally_ended (h : Execution x) (hunder : Underway b event x i j)
    (hended : ((x (j + 1)).world.bus b).isPublishing = false) :
    ∃ d, ((x j).world.bus b).dispatching = some d ∧ ((x j).reached d).calling = none ∧
      (x (j + 1)).world.bus b = ((x j).world.bus b).endDispatch ((x j).reached d) ∧
      Tally b event x i (j + 1) ((x j).reached d) := by
  have hpub := hunder.publishing j hunder.after le_rfl
  have hstep := h.eq_step_of_isPublishing hpub
  obtain ⟨d, hd, htally⟩ := h.tally hunder
  obtain ⟨d', hd', hgoes, hdelivered, hdone, hbus⟩ :=
    (h.reachable j).sound.ends_step hpub (hstep ▸ hended)
  obtain rfl : d = d' := Option.some.inj (hd.symm.trans hd')
  have hnodup := h.nodup_listeners b event.type i
  rw [← htally.snapshot] at hnodup
  refine ⟨d, hd, hdone, hstep ▸ hbus, htally.advance hnodup hunder.after hgoes ?_⟩
  rw [hstep, hdelivered, hdone, Option.map_none]

/-! ## What becomes of a subscription -/

/-- A subscription still waited when the event had been consumed while another listener was being
called, so its own listener is not going to be called. -/
def LeftOut (b : BusId) (x : ℕ → Machine) (i j : ℕ) (sub : Subscription) : Prop :=
  ∃ t d, i < t ∧ t ≤ j ∧ ((x t).world.bus b).dispatching = some d ∧ d.Shut ∧ sub ∈ d.waiting

/-- A dispatch that began at time `i` is through with a subscription at time `j`. -/
def DealtWith (b : BusId) (x : ℕ → Machine) (i j : ℕ) (sub : Subscription) : Prop :=
  CalledBy b x i j sub.listener ∨ FoundDead b x i j sub ∨ LeftOut b x i j sub

theorem LeftOut.mono (h : LeftOut b x i j sub) (hjk : j ≤ k) : LeftOut b x i k sub := by
  obtain ⟨t, d, hit, htj, hd, hshut, hwaits⟩ := h
  exact ⟨t, d, hit, by omega, hd, hshut, hwaits⟩

theorem DealtWith.mono (h : DealtWith b x i j sub) (hjk : j ≤ k) : DealtWith b x i k sub :=
  h.imp (CalledBy.mono · hjk) (Or.imp (FoundDead.mono · hjk) (LeftOut.mono · hjk))

/-- A dispatch that goes on comes to the first subscription that waits, unless its event has been
consumed. -/
theorem dealtWith_or_waiting_reached (hd : ((x j).world.bus b).dispatching = some d) (hij : i < j)
    (hgoes : goesOn b (x j) = true)
    (hcalled : delivered b (x (j + 1)) = ((x j).reached d).calling.map Subscription.listener)
    (hsub : sub ∈ d.waiting) :
    DealtWith b x i (j + 1) sub ∨ sub ∈ ((x j).reached d).waiting := by
  by_cases hshut : d.Shut
  · exact .inl (.inr (.inr ⟨j, d, hij, by omega, hd, hshut, hsub⟩))
  · have hwaiting : d.settle.waiting = d.waiting := by
      rw [waiting_settle, if_neg]
      simpa [Dispatch.Shut] using hshut
    rw [← hwaiting, ← List.takeWhile_append_dropWhile (l := d.settle.waiting)
      (p := fun sub => !(x j).leads sub), List.mem_append] at hsub
    rcases hsub with hdead | hleft
    · have hnowhere := List.mem_takeWhile_imp hdead
      exact .inl (.inr (.inl ⟨j, hij, by omega, hgoes, by simpa using hnowhere⟩))
    · rw [calling_reached] at hcalled
      rw [waiting_reached]
      generalize d.settle.waiting.dropWhile (fun sub => !(x j).leads sub) = left at hcalled hleft ⊢
      cases left with
      | nil => exact absurd hleft List.not_mem_nil
      | cons first rest =>
          rcases List.mem_cons.mp hleft with rfl | hrest
          · exact .inl (.inl ⟨j + 1, by omega, le_rfl, hcalled⟩)
          · exact .inr hrest

/-- Of the subscriptions that were there when a dispatch began, it is through with all but those
that wait. -/
theorem Execution.dealtWith_or_waiting (h : Execution x) (hunder : Underway b event x i j)
    (hd : ((x j).world.bus b).dispatching = some d)
    (hsub : sub ∈ ((x i).world.bus b).subscriptions event.type) :
    DealtWith b x i j sub ∨ sub ∈ d.waiting := by
  have hij := hunder.after
  induction j, hij using Nat.le_induction generalizing d with
  | base =>
      obtain ⟨-, hdispatching⟩ := (h.reachable i).sound.dispatching_of_begun hunder.begun
      rw [← h.eq_step_of_begun hunder.begun, hd] at hdispatching
      obtain rfl := Option.some.inj hdispatching
      exact .inr hsub
  | succ j hij ih =>
      have hpub := hunder.publishing j hij (by omega)
      obtain ⟨d₀, hd₀⟩ := Option.isSome_iff_exists.mp hpub
      rcases ih (hunder.mono hij (by omega)) hd₀ with hdone | hwaits
      · exact .inl (hdone.mono (by omega))
      have hstep := h.eq_step_of_isPublishing hpub
      rw [hstep] at hd
      cases (h.reachable j).sound.turn b with
      | aside hpublished hgoes hdelivered hcalm =>
          obtain ⟨e, -, -, hd'⟩ := exists_event_of_calm hcalm hd₀
          obtain rfl := Option.some.inj (hd.symm.trans hd')
          exact .inr hwaits
      | enqueues hpublished hgoes hdelivered hpub' hbus =>
          rw [hbus] at hd
          obtain rfl : d₀ = d := Option.some.inj (hd₀.symm.trans hd)
          exact .inr hwaits
      | begins hpublished hgoes hdelivered hidle hbus =>
          exact absurd (hpub.symm.trans hidle) (by simp)
      | @calls d₁ called hpublished hgoes hdelivered hd₁ hcalling hbus =>
          obtain rfl : d₀ = d₁ := Option.some.inj (hd₀.symm.trans hd₁)
          rw [hbus, Bus.modifyDispatch, hd₀] at hd
          obtain rfl := Option.some.inj hd
          refine dealtWith_or_waiting_reached hd₀ hij hgoes ?_ hwaits
          rw [hstep, hdelivered, hcalling, Option.map_some]
      | ends hpublished hgoes hdelivered hd₁ hdone hbus =>
          rw [hbus, Bus.dispatching_endDispatch] at hd
          exact absurd hd (by simp)

/-- A dispatch that ends is through with all subscriptions that were there when it began. -/
theorem Execution.dealtWith_of_ended (h : Execution x) (hunder : Underway b event x i j)
    (hended : ((x (j + 1)).world.bus b).isPublishing = false)
    (hsub : sub ∈ ((x i).world.bus b).subscriptions event.type) :
    DealtWith b x i (j + 1) sub := by
  have hpub := hunder.publishing j hunder.after le_rfl
  obtain ⟨d, hd, hgoes, hdelivered, hdone, -⟩ := (h.reachable j).sound.ends_step hpub
    (h.eq_step_of_isPublishing hpub ▸ hended)
  rcases h.dealtWith_or_waiting hunder hd hsub with hbefore | hwaits
  · exact hbefore.mono (by omega)
  · have hcalled : delivered b (x (j + 1)) =
        ((x j).reached d).calling.map Subscription.listener := by
      rw [h.eq_step_of_isPublishing hpub, hdelivered, hdone, Option.map_none]
    refine (dealtWith_or_waiting_reached hd hunder.after hgoes hcalled hwaits).resolve_right ?_
    rw [calling_reached, List.head?_eq_none_iff] at hdone
    rw [waiting_reached, hdone]
    exact List.not_mem_nil

/-! ## Subscriptions while a dispatch is under way -/

/-- Between two times, none of the steps that are there to end subscriptions ends this one. -/
def LeftAlone (b : BusId) (type : EventType) (sub : Subscription) (x : ℕ → Machine)
    (i j : ℕ) : Prop :=
  ∀ t, i ≤ t → t < j → unsubscribes b (x t) = true →
    sub ∈ ((x t).world.bus b).subscriptions type →
    sub ∈ ((x (t + 1)).world.bus b).subscriptions type

/-- A dispatch that goes on removes nothing. -/
theorem Execution.subscribed_of_isPublishing (h : Execution x)
    (hpub : ∀ t, i ≤ t → t ≤ j → ((x t).world.bus b).isPublishing = true) (hij : i ≤ j)
    (halone : LeftAlone b type sub x i j)
    (hsub : sub ∈ ((x i).world.bus b).subscriptions type) :
    sub ∈ ((x j).world.bus b).subscriptions type := by
  induction j, hij using Nat.le_induction with
  | base => exact hsub
  | succ j hij ih =>
      have hnow := ih (fun t hit htj => hpub t hit (by omega))
        fun t hit htj => halone t hit (by omega)
      cases hends : unsubscribes b (x j) with
      | true => exact halone j hij (by omega) hends hnow
      | false =>
          have hstill := hpub (j + 1) (by omega) le_rfl
          rw [h.eq_step_of_isPublishing (hpub j hij (by omega))] at hstill ⊢
          rcases (h.reachable j).sound.subscribed_step hends hnow with
            hstays | ⟨d, hd, hbus, -⟩
          · exact hstays
          · rw [Bus.isPublishing, hbus, Bus.dispatching_endDispatch] at hstill
            exact absurd hstill (by simp)

/-! ## After a consumed event -/

theorem calling_reached_of_shut (m : Machine) (h : d.Shut) : (m.reached d).calling = none := by
  rw [calling_reached, h.waiting_settle]
  rfl

theorem mem_spent_reached_of_shut (h : d.Shut) (hsub : sub ∈ (m.reached d).spent) :
    sub ∈ d.spent ∨ d.calling = some sub := by
  rw [mem_spent_reached, h.waiting_settle, List.takeWhile_nil] at hsub
  rcases hsub with hold | ⟨hcalling, -⟩ | hdead
  · exact .inl hold
  · exact .inr hcalling
  · exact absurd hdead List.not_mem_nil

/-- From when its event has been consumed, a dispatch calls nobody and spends nothing. -/
theorem Execution.shut (h : Execution x) (hd : ((x i).world.bus b).dispatching = some d)
    (hshut : d.Shut) (hij : i ≤ j)
    (hpub : ∀ t, i ≤ t → t ≤ j → ((x t).world.bus b).isPublishing = true) :
    (∃ d', ((x j).world.bus b).dispatching = some d' ∧ d'.Shut ∧
        d'.calling = d.calling ∧ d'.spent = d.spent) ∧
      ∀ t, i < t → t ≤ j → delivered b (x t) = none := by
  induction j, hij using Nat.le_induction with
  | base => exact ⟨⟨d, hd, hshut, rfl, rfl⟩, fun t hit hti => absurd hit (by omega)⟩
  | succ j hij ih =>
      obtain ⟨⟨d', hd', hshut', hcalling, hspent⟩, hnone⟩ :=
        ih fun t hit htj => hpub t hit (by omega)
      have hnow := hpub j hij (by omega)
      have hstill := hpub (j + 1) (by omega) le_rfl
      have hstep := h.eq_step_of_isPublishing hnow
      have hlast : ∀ {o : Option Listener}, delivered b (x (j + 1)) = o → o = none →
          ∀ t, i < t → t ≤ j + 1 → delivered b (x t) = none := by
        rintro o hdelivered rfl t hit htj
        rcases Nat.lt_or_ge j t with hlt | hle
        · obtain rfl : t = j + 1 := by omega
          exact hdelivered
        · exact hnone t hit hle
      rw [hstep] at hstill hlast ⊢
      cases (h.reachable j).sound.turn b with
      | aside hpublished hgoes hdelivered hcalm =>
          obtain ⟨e, -, hconsumed, hd''⟩ := exists_event_of_calm hcalm hd'
          exact ⟨⟨_, hd'', ⟨hshut'.1, hconsumed hshut'.2⟩, hcalling, hspent⟩,
            hlast hdelivered rfl⟩
      | enqueues hpublished hgoes hdelivered hpub' hbus =>
          exact ⟨⟨d', by rw [hbus]; exact hd', hshut', hcalling, hspent⟩, hlast hdelivered rfl⟩
      | begins hpublished hgoes hdelivered hidle hbus =>
          exact absurd (hnow.symm.trans hidle) (by simp)
      | @calls d'' sub hpublished hgoes hdelivered hd'' hcalls hbus =>
          obtain rfl : d' = d'' := Option.some.inj (hd'.symm.trans hd'')
          exact absurd (hcalls.symm.trans (calling_reached_of_shut _ hshut')) (by simp)
      | ends hpublished hgoes hdelivered hd'' hdone hbus =>
          rw [Bus.isPublishing, hbus, Bus.dispatching_endDispatch] at hstill
          exact absurd hstill (by simp)

end Machine

end Parley
