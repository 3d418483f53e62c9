import Mathlib.Data.List.Nodup
import Parley.World

/-!
# Calm changes of a bus

Apart from publishing, only two things ever happen to a bus: its subscriptions change, and the
event under way is consumed.  Subscriptions change one at a time for each event type: some are
removed, or one that is new is entered by its priority.  Unless a subscription is ended, all of
them stay (`Retains`), and who is to be let in is told of each change (`Admits`).
-/

namespace Parley

theorem EventType.mem_all (type : EventType) : type ∈ EventType.all := by
  cases type with
  | context event => cases event <;> decide
  | dialogue event => cases event <;> decide

namespace Bus

/-! ## Changes of a list of subscriptions -/

/-- What may happen to the subscriptions of one event type at once. -/
inductive Change : List Subscription → List Subscription → Prop
  | removed {before after : List Subscription} (h : after.Sublist before) : Change before after
  | entered {before : List Subscription} (sub : Subscription)
      (h : ∀ other ∈ before, other.listener ≠ sub.listener) :
      Change before (insertByPriority sub before)

theorem Change.refl (subs : List Subscription) : Change subs subs :=
  .removed (List.Sublist.refl subs)

theorem isSubscribed_eq_false_iff {bus : Bus} {type : EventType} {listener : Listener} :
    bus.isSubscribed type listener = false ↔
      ∀ sub ∈ bus.subscriptions type, sub.listener ≠ listener := by
  simp [isSubscribed]

theorem subscriptions_subscribe_of_ne {bus : Bus} {type other : EventType} (h : other ≠ type)
    (sub : Subscription) :
    (bus.subscribe type sub).subscriptions other = bus.subscriptions other := by
  unfold subscribe
  split
  · rfl
  · exact subscriptions_update_of_ne h _

theorem change_subscribe (bus : Bus) (type : EventType) (sub : Subscription)
    (other : EventType) :
    Change (bus.subscriptions other) ((bus.subscribe type sub).subscriptions other) := by
  by_cases h : other = type
  · subst h
    unfold subscribe
    split
    · exact .refl _
    · rename_i hnot
      rw [subscriptions_update_self]
      exact .entered sub (isSubscribed_eq_false_iff.mp (Bool.eq_false_iff.mpr hnot))
  · rw [subscriptions_subscribe_of_ne h]
    exact .refl _

/-- Removing subscriptions of one type by a filter is a change of all types. -/
theorem change_update_filter (bus : Bus) (type : EventType) (p : Subscription → Bool)
    (other : EventType) :
    Change (bus.subscriptions other)
      ((bus.update type fun subs => subs.filter p).subscriptions other) := by
  by_cases h : other = type
  · subst h
    rw [subscriptions_update_self]
    exact .removed List.filter_sublist
  · rw [subscriptions_update_of_ne h]
    exact .refl _

/-! ## Calm changes -/

/-- A bus with other subscriptions. -/
structure Resubscribed (bus bus' : Bus) : Prop where
  queue : bus'.queue = bus.queue
  dispatching : bus'.dispatching = bus.dispatching
  change : ∀ type, Change (bus.subscriptions type) (bus'.subscriptions type)

/-- What happens to a bus while none of its own tasks is carried out. -/
inductive Calm (bus : Bus) : Bus → Prop
  | resubscribed {bus' : Bus} (h : Resubscribed bus bus') : Calm bus bus'
  | consumed : Calm bus bus.consume

theorem Resubscribed.refl (bus : Bus) : Resubscribed bus bus :=
  ⟨rfl, rfl, fun _ => .refl _⟩

theorem Calm.refl (bus : Bus) : Calm bus bus :=
  .resubscribed (.refl bus)

theorem Calm.queue {bus bus' : Bus} (h : Calm bus bus') : bus'.queue = bus.queue := by
  cases h with
  | resubscribed h => exact h.queue
  | consumed => rfl

theorem Calm.isPublishing {bus bus' : Bus} (h : Calm bus bus') :
    bus'.isPublishing = bus.isPublishing := by
  cases h with
  | resubscribed h => rw [Bus.isPublishing, h.dispatching]; rfl
  | consumed => simp [Bus.isPublishing, consume, modifyDispatch]

theorem Calm.change {bus bus' : Bus} (h : Calm bus bus') (type : EventType) :
    Change (bus.subscriptions type) (bus'.subscriptions type) := by
  cases h with
  | resubscribed h => exact h.change type
  | consumed => exact .refl _

theorem resubscribed_subscribe (bus : Bus) (type : EventType) (sub : Subscription) :
    Resubscribed bus (bus.subscribe type sub) :=
  ⟨queue_subscribe .., dispatching_subscribe .., change_subscribe bus type sub⟩

theorem resubscribed_unsubscribe (bus : Bus) (type : EventType) (listener : Listener) :
    Resubscribed bus (bus.unsubscribe type listener) :=
  ⟨rfl, rfl, change_update_filter bus type _⟩

theorem resubscribed_clear (bus : Bus) (type : Option EventType) :
    Resubscribed bus (bus.clear type) := by
  cases type with
  | none => exact ⟨rfl, rfl, fun _ => .removed (List.nil_sublist _)⟩
  | some type =>
      refine ⟨rfl, rfl, fun other => ?_⟩
      by_cases h : other = type
      · subst h
        rw [clear, subscriptions_update_self]
        exact .removed (List.nil_sublist _)
      · rw [clear, subscriptions_update_of_ne h]
        exact .refl _

@[simp] theorem queue_endDispatch (bus : Bus) (d : Dispatch) :
    (bus.endDispatch d).queue = bus.queue := by
  unfold endDispatch
  dsimp only
  split <;> rfl

@[simp] theorem dispatching_endDispatch (bus : Bus) (d : Dispatch) :
    (bus.endDispatch d).dispatching = none := by
  unfold endDispatch
  dsimp only
  split <;> rfl

theorem change_endDispatch (bus : Bus) (d : Dispatch) (type : EventType) :
    Change (bus.subscriptions type) ((bus.endDispatch d).subscriptions type) := by
  unfold endDispatch
  dsimp only
  split
  · exact .refl _
  · exact change_update_filter { bus with dispatching := none } d.event.type _ type

/-! ## Subscriptions that stay -/

/-- Every subscription is still there. -/
def Retains (bus bus' : Bus) : Prop :=
  ∀ type, bus.subscriptions type ⊆ bus'.subscriptions type

theorem Retains.refl (bus : Bus) : Retains bus bus :=
  fun _ => List.Subset.refl _

theorem Retains.trans {bus₁ bus₂ bus₃ : Bus} (h : Retains bus₁ bus₂) (h' : Retains bus₂ bus₃) :
    Retains bus₁ bus₃ :=
  fun type => List.Subset.trans (h type) (h' type)

theorem retains_subscribe (bus : Bus) (type : EventType) (sub : Subscription) :
    Retains bus (bus.subscribe type sub) := by
  intro other
  by_cases h : other = type
  · subst h
    unfold subscribe
    split
    · exact List.Subset.refl _
    · rw [subscriptions_update_self]
      exact fun _ hold => mem_insertByPriority.mpr (.inr hold)
  · rw [subscriptions_subscribe_of_ne h]
    exact List.Subset.refl _

theorem retains_foldl {α : Type} {f : Bus → α → Bus} (h : ∀ bus a, Retains bus (f bus a))
    (as : List α) (bus : Bus) : Retains bus (as.foldl f bus) := by
  induction as generalizing bus with
  | nil => exact .refl bus
  | cons a as ih => exact (h bus a).trans (ih (f bus a))

theorem retains_listen (s : SessionId) (bus : Bus) : Retains bus (World.listen s bus) :=
  retains_foldl (fun bus _ => retains_subscribe bus _ _) _ bus

theorem retains_observe (s : SessionId) (bus : Bus) : Retains bus (World.observe s bus) :=
  retains_foldl (fun bus _ => retains_subscribe bus _ _) _ bus

/-- The end of a dispatch leaves the subscriptions that are not spent. -/
theorem mem_endDispatch {bus : Bus} {d : Dispatch} {type : EventType} {sub : Subscription}
    (h : sub ∈ bus.subscriptions type) (hspent : sub ∉ d.spent) :
    sub ∈ (bus.endDispatch d).subscriptions type := by
  unfold endDispatch
  dsimp only
  split
  · exact h
  · by_cases htype : type = d.event.type
    · subst htype
      rw [subscriptions_update_self]
      exact List.mem_filter.mpr ⟨h, by simpa using hspent⟩
    · rw [subscriptions_update_of_ne htype]
      exact h

/-! ## Subscriptions that come -/

/-- All that have newly subscribed are of a kind. -/
def Admits (P : Listener → Prop) (bus bus' : Bus) : Prop :=
  ∀ type, ∀ sub ∈ bus'.subscriptions type, sub ∈ bus.subscriptions type ∨ P sub.listener

variable {P : Listener → Prop}

theorem Admits.refl (bus : Bus) : Admits P bus bus :=
  fun _ _ hsub => .inl hsub

theorem Admits.trans {bus₁ bus₂ bus₃ : Bus} (h : Admits P bus₁ bus₂) (h' : Admits P bus₂ bus₃) :
    Admits P bus₁ bus₃ :=
  fun type sub hsub => (h' type sub hsub).elim (h type sub) .inr

theorem admits_subscribe (bus : Bus) (type : EventType) (sub : Subscription)
    (h : P sub.listener) : Admits P bus (bus.subscribe type sub) := by
  intro other found hfound
  by_cases hother : other = type
  · subst hother
    unfold subscribe at hfound
    split at hfound
    · exact .inl hfound
    · rw [subscriptions_update_self] at hfound
      rcases mem_insertByPriority.mp hfound with rfl | hold
      · exact .inr h
      · exact .inl hold
  · rw [subscriptions_subscribe_of_ne hother] at hfound
    exact .inl hfound

theorem admits_update (bus : Bus) (type : EventType) {f : List Subscription → List Subscription}
    (h : ∀ subs, f subs ⊆ subs) : Admits P bus (bus.update type f) := by
  intro other sub hsub
  by_cases hother : other = type
  · subst hother
    rw [subscriptions_update_self] at hsub
    exact .inl (h _ hsub)
  · rw [subscriptions_update_of_ne hother] at hsub
    exact .inl hsub

theorem admits_unsubscribe (bus : Bus) (type : EventType) (listener : Listener) :
    Admits P bus (bus.unsubscribe type listener) :=
  admits_update bus type fun _ => List.filter_sublist.subset

theorem admits_clear (bus : Bus) (type : Option EventType) : Admits P bus (bus.clear type) := by
  cases type with
  | none => exact fun _ _ hsub => absurd hsub List.not_mem_nil
  | some type => exact admits_update bus type fun _ => List.nil_subset _

theorem admits_endDispatch (bus : Bus) (d : Dispatch) : Admits P bus (bus.endDispatch d) := by
  unfold endDispatch
  dsimp only
  split
  · exact .refl bus
  · exact admits_update { bus with dispatching := none } d.event.type
      fun _ => List.filter_sublist.subset

theorem admits_foldl {α : Type} {f : Bus → α → Bus} (h : ∀ bus a, Admits P bus (f bus a))
    (as : List α) (bus : Bus) : Admits P bus (as.foldl f bus) := by
  induction as generalizing bus with
  | nil => exact .refl bus
  | cons a as ih => exact (h bus a).trans (ih (f bus a))

theorem admits_listen {s : SessionId} (h : ∀ kind, P (.input s kind)) (bus : Bus) :
    Admits P bus (World.listen s bus) :=
  admits_foldl (fun bus event => admits_subscribe bus _ _ (h event)) _ bus

theorem admits_unlisten (s : SessionId) (bus : Bus) : Admits P bus (World.unlisten s bus) :=
  admits_foldl (fun bus _ => admits_unsubscribe bus _ _) _ bus

theorem admits_observe {s : SessionId} (h : P (.observer s)) (bus : Bus) :
    Admits P bus (World.observe s bus) :=
  admits_foldl (fun bus _ => admits_subscribe bus _ _ h) _ bus

/-! ## Several types at once -/

/-- Changes of different event types make up one change. -/
theorem resubscribed_foldl {α : Type} {f : Bus → α → Bus} {key : α → EventType}
    (hchange : ∀ bus a, Resubscribed bus (f bus a))
    (hother : ∀ bus a type, type ≠ key a →
      (f bus a).subscriptions type = bus.subscriptions type)
    {as : List α} (hnodup : (as.map key).Nodup) (bus : Bus) :
    Resubscribed bus (as.foldl f bus) ∧
      ∀ type, type ∉ as.map key →
        (as.foldl f bus).subscriptions type = bus.subscriptions type := by
  -- Each type is changed at most once, by the entry with its key, so changes do not add up.
  induction as generalizing bus with
  | nil => exact ⟨.refl bus, fun _ _ => rfl⟩
  | cons a as ih =>
      rw [List.map_cons, List.nodup_cons] at hnodup
      obtain ⟨hrest, hkept⟩ := ih hnodup.2 (f bus a)
      have hfirst := hchange bus a
      rw [List.foldl_cons]
      refine ⟨⟨hrest.queue.trans hfirst.queue, hrest.dispatching.trans hfirst.dispatching,
        fun type => ?_⟩, fun type htype => ?_⟩
      · by_cases htype : type = key a
        · rw [hkept type (htype ▸ hnodup.1)]
          exact hfirst.change type
        · rw [← hother bus a type htype]
          exact hrest.change type
      · rw [List.map_cons, List.mem_cons, not_or] at htype
        rw [hkept type htype.2, hother bus a type htype.1]

theorem resubscribed_listen (s : SessionId) (bus : Bus) :
    Resubscribed bus (World.listen s bus) :=
  (resubscribed_foldl (fun _ _ => resubscribed_subscribe ..)
    (fun _ _ _ h => subscriptions_subscribe_of_ne h _)
    (by decide : (ContextEvent.all.map EventType.context).Nodup) bus).1

theorem resubscribed_unlisten (s : SessionId) (bus : Bus) :
    Resubscribed bus (World.unlisten s bus) :=
  (resubscribed_foldl (fun _ _ => resubscribed_unsubscribe ..)
    (fun _ _ _ h => subscriptions_update_of_ne h _)
    (by decide : (ContextEvent.all.map EventType.context).Nodup) bus).1

theorem resubscribed_observe (s : SessionId) (bus : Bus) :
    Resubscribed bus (World.observe s bus) :=
  (resubscribed_foldl (fun _ _ => resubscribed_subscribe ..)
    (fun _ _ _ h => subscriptions_subscribe_of_ne h _)
    (by decide : (DialogueEvent.all.map EventType.dialogue).Nodup) bus).1

end Bus

end Parley
