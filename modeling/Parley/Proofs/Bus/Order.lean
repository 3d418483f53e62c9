import Parley.Proofs.Bus.Turn

/-!
# The order of subscriptions

Every step changes the subscriptions of a bus in one of two ways: it removes some, or it enters
a new one by its priority (`change_step`).  So they stay in the order of their priority and,
for equal priorities, in the order in which they were made (`pairwise_ahead`).  That order
refers to the past of a bus, and is therefore stated of an execution.
-/

namespace Parley

theorem Bus.pairwise_insertByPriority {ahead : Subscription → Subscription → Prop}
    {sub : Subscription} {subs : List Subscription} (h : subs.Pairwise ahead)
    (hsorted : subs.Pairwise fun p q => q.priority ≤ p.priority)
    (hbefore : ∀ p ∈ subs, sub.priority ≤ p.priority → ahead p sub)
    (hafter : ∀ q ∈ subs, q.priority < sub.priority → ahead sub q) :
    (insertByPriority sub subs).Pairwise ahead := by
  induction subs with
  | nil => exact List.pairwise_singleton _ _
  | cons other rest ih =>
      rw [insertByPriority]
      rw [List.pairwise_cons] at hsorted
      split
      · rename_i hlt
        refine List.pairwise_cons.mpr ⟨fun q hq => hafter q hq ?_, h⟩
        rcases List.mem_cons.mp hq with rfl | hq
        · exact hlt
        · have := hsorted.1 q hq
          omega
      · rename_i hnot
        rw [List.pairwise_cons] at h
        refine List.pairwise_cons.mpr ⟨fun q hq => ?_, ih h.2 hsorted.2 ?_ ?_⟩
        · rcases mem_insertByPriority.mp hq with rfl | hq
          · exact hbefore other List.mem_cons_self (by omega)
          · exact h.1 q hq
        · exact fun p hp => hbefore p (List.mem_cons_of_mem _ hp)
        · exact fun q hq => hafter q (List.mem_cons_of_mem _ hq)

namespace Machine

/-! ## What a step does to the subscriptions -/

variable {m m' : Machine} {b : BusId}

/-- The work of a bus itself only removes subscriptions, when a dispatch ends. -/
theorem Sound.change_step (h : Sound m) (b : BusId) (type : EventType) :
    Bus.Change ((m.world.bus b).subscriptions type)
      ((m.step.world.bus b).subscriptions type) := by
  cases h.turn b with
  | aside hpublished hgoes hdelivered hcalm => exact hcalm.change type
  | enqueues hpublished hgoes hdelivered hpub hbus => exact hbus ▸ .refl _
  | begins hpublished hgoes hdelivered hidle hbus => exact hbus ▸ .refl _
  | calls hpublished hgoes hdelivered hd hcalling hbus => exact hbus ▸ .refl _
  | ends hpublished hgoes hdelivered hd hdone hbus =>
      rw [hbus]
      exact Bus.change_endDispatch _ _ type

theorem Sound.change_next (h : Sound m) (hnext : Next m m') (b : BusId) (type : EventType) :
    Bus.Change ((m.world.bus b).subscriptions type)
      ((m'.world.bus b).subscriptions type) := by
  cases hnext with
  | step => exact h.change_step b type
  | host hagenda step => exact .refl _

/-! ## The order -/

variable {x : ℕ → Machine} {type : EventType} {i : ℕ}

/-- At time `i` a listener has been subscribed without a break since a time when the other was
not. -/
def SubscribedBefore (x : ℕ → Machine) (b : BusId) (type : EventType) (i : ℕ)
    (listener other : Listener) : Prop :=
  ∃ k ≤ i, ((x k).world.bus b).isSubscribed type other = false ∧
    ∀ j, k ≤ j → j ≤ i → ((x j).world.bus b).isSubscribed type listener = true

/-- At time `i` a subscription rightly stands ahead of another. -/
structure Ahead (x : ℕ → Machine) (b : BusId) (type : EventType) (i : ℕ)
    (p q : Subscription) : Prop where
  distinct : p.listener ≠ q.listener
  order : q.priority < p.priority ∨
    p.priority = q.priority ∧ SubscribedBefore x b type i p.listener q.listener

theorem SubscribedBefore.succ {listener other : Listener}
    (h : SubscribedBefore x b type i listener other)
    (hnow : ((x (i + 1)).world.bus b).isSubscribed type listener = true) :
    SubscribedBefore x b type (i + 1) listener other := by
  obtain ⟨k, hk, hother, hlistener⟩ := h
  refine ⟨k, by omega, hother, fun j hkj hj => ?_⟩
  rcases Nat.lt_or_ge i j with hlt | hle
  · obtain rfl : j = i + 1 := by omega
    exact hnow
  · exact hlistener j hkj hle

theorem isSubscribed_of_mem {bus : Bus} {sub : Subscription}
    (h : sub ∈ bus.subscriptions type) : bus.isSubscribed type sub.listener = true := by
  rw [Bus.isSubscribed, List.any_eq_true]
  exact ⟨sub, h, by simp⟩

theorem Ahead.priority_le {p q : Subscription} (h : Ahead x b type i p q) :
    q.priority ≤ p.priority := by
  rcases h.order with hlt | ⟨heq, -⟩ <;> omega

theorem Ahead.succ {p q : Subscription} (h : Ahead x b type i p q)
    (hp : p ∈ ((x (i + 1)).world.bus b).subscriptions type) : Ahead x b type (i + 1) p q := by
  refine ⟨h.distinct, h.order.imp_right fun ⟨heq, hbefore⟩ => ⟨heq, ?_⟩⟩
  exact hbefore.succ (isSubscribed_of_mem hp)

/-- A change keeps the order, and what is new takes its place in it. -/
theorem pairwise_ahead_succ
    (h : (((x i).world.bus b).subscriptions type).Pairwise (Ahead x b type i))
    (hchange : Bus.Change (((x i).world.bus b).subscriptions type)
      (((x (i + 1)).world.bus b).subscriptions type)) :
    (((x (i + 1)).world.bus b).subscriptions type).Pairwise (Ahead x b type (i + 1)) := by
  generalize hsubs' : ((x (i + 1)).world.bus b).subscriptions type = subs' at hchange
  have hkept : ∀ {subs : List Subscription}, (∀ p ∈ subs, p ∈ subs') →
      subs.Pairwise (Ahead x b type i) → subs.Pairwise (Ahead x b type (i + 1)) :=
    fun hmem hahead => hahead.imp_of_mem fun hp _ hpq => hpq.succ (hsubs' ▸ hmem _ hp)
  -- What stays is still subscribed, so it has been so without a break.
  cases hchange with
  | removed hsublist => exact hkept (fun _ hp => hp) (h.sublist hsublist)
  | entered sub hnew =>
      have hmem : ∀ p ∈ ((x i).world.bus b).subscriptions type,
          p ∈ Bus.insertByPriority sub (((x i).world.bus b).subscriptions type) :=
        fun p hp => Bus.mem_insertByPriority.mpr (.inr hp)
      refine Bus.pairwise_insertByPriority (hkept hmem h) (h.imp Ahead.priority_le)
        (fun p hp hle => ⟨hnew p hp, ?_⟩) fun q hq hlt => ⟨Ne.symm (hnew q hq), .inl hlt⟩
      rcases Int.lt_or_eq_of_le hle with hlt | heq
      · exact .inl hlt
      -- Those of the same priority were there when the new one was not.
      · refine .inr ⟨heq.symm, i, by omega, Bus.isSubscribed_eq_false_iff.mpr hnew, ?_⟩
        intro j hij hj
        rcases Nat.lt_or_ge i j with hlt | hle
        · obtain rfl : j = i + 1 := by omega
          exact isSubscribed_of_mem (hsubs' ▸ hmem p hp)
        · obtain rfl : j = i := by omega
          exact isSubscribed_of_mem hp

/-- At all times the subscriptions stand in the order of their priority, those of the same
priority in the order in which they were made, and no listener is subscribed twice. -/
theorem Execution.pairwise_ahead (h : Execution x) (b : BusId) (type : EventType) (i : ℕ) :
    (((x i).world.bus b).subscriptions type).Pairwise (Ahead x b type i) := by
  induction i with
  | zero =>
      rw [h.initial.bus b]
      exact .nil
  | succ i ih =>
      exact pairwise_ahead_succ ih ((h.reachable i).sound.change_next (h.next i) b type)

/-- No listener is subscribed twice to events of the same type. -/
theorem Execution.nodup_listeners (h : Execution x) (b : BusId) (type : EventType) (i : ℕ) :
    ((((x i).world.bus b).subscriptions type).map Subscription.listener).Nodup :=
  List.pairwise_map.mpr ((h.pairwise_ahead b type i).imp Ahead.distinct)

end Machine

end Parley
