import Mathlib.Data.List.TakeWhile
import Parley.Proofs.Bus.Turn

/-!
# Subscriptions that last

A subscription that is neither weak nor meant for one event stays until somebody ends it
(`Execution.subscribed`).  Besides being ended on request, subscriptions go only when a dispatch
ends, and then only those it has found to lead nowhere or to be spent (`Dispatch.Spares`).
-/

namespace Parley

/-! ## What a dispatch removes -/

namespace Dispatch

variable {d : Dispatch}

/-- A dispatch is going to remove only weak and one-shot subscriptions. -/
def Spares (d : Dispatch) : Prop :=
  ∀ sub ∈ d.spent, sub.weak = true ∨ sub.oneShot = true

theorem Spares.settle (h : d.Spares) : d.settle.Spares := by
  unfold Dispatch.settle
  split
  · exact h
  · rename_i called _
    intro sub hsub
    dsimp only at hsub
    split at hsub
    · rename_i honce
      rcases List.mem_append.mp hsub with hold | hnew
      · exact h sub hold
      · rw [List.mem_singleton.mp hnew]
        exact .inr honce
    · exact h sub hsub

theorem spent_next (alive : Listener → Bool) (d : Dispatch) :
    (d.next alive).spent = d.spent ++ d.waiting.takeWhile fun sub => !sub.resolves alive := by
  unfold Dispatch.next
  dsimp only
  split <;> rfl

/-- Only a weak subscription leads nowhere. -/
theorem Spares.next (h : d.Spares) (alive : Listener → Bool) : (d.next alive).Spares := by
  intro sub hsub
  rw [spent_next, List.mem_append] at hsub
  rcases hsub with hold | hdead
  · exact h sub hold
  · have hnowhere := List.mem_takeWhile_imp hdead
    rw [Bool.not_eq_true', Subscription.resolves, Bool.or_eq_false_iff] at hnowhere
    exact .inl (by simpa using hnowhere.1)

end Dispatch

namespace Machine

variable {x : ℕ → Machine} {m : Machine} {b : BusId} {type : EventType} {sub : Subscription}
  {task : Task} {rest : List Task} {i j n : ℕ}

/-- Whether the next step is there to end subscriptions to a bus. -/
def unsubscribes (b : BusId) (m : Machine) : Bool :=
  m.agenda.head?.any (Task.unsubscribes b)

/-! ## One step -/

theorem Sound.spares_step (h : Sound m)
    (hspares : ∀ d, (m.world.bus b).dispatching = some d → d.Spares) :
    ∀ d, (m.step.world.bus b).dispatching = some d → d.Spares := by
  intro d hd
  cases h.turn b with
  | aside hpublished hgoes hdelivered hcalm =>
      generalize m.step.world.bus b = bus at hcalm hd
      cases hcalm with
      | resubscribed hsubs => exact hspares d (hsubs.dispatching.symm.trans hd)
      | consumed =>
          obtain ⟨d', hd', rfl⟩ := Option.map_eq_some_iff.mp hd
          exact hspares d' hd'
  | enqueues hpublished hgoes hdelivered hpub hbus =>
      rw [hbus] at hd
      exact hspares d hd
  | begins hpublished hgoes hdelivered hidle hbus =>
      rw [hbus] at hd
      obtain rfl := Option.some.inj hd
      intro sub hsub
      exact absurd hsub List.not_mem_nil
  | calls hpublished hgoes hdelivered hd' hcalling hbus =>
      rw [hbus, Bus.modifyDispatch, hd'] at hd
      obtain rfl := Option.some.inj hd
      exact (hspares _ hd').settle.next _
  | ends hpublished hgoes hdelivered hd' hdone hbus =>
      rw [hbus, Bus.dispatching_endDispatch] at hd
      exact absurd hd (by simp)

/-- A subscription to a bus stays, unless it is ended or a dispatch that ends has no more use for
it. -/
theorem Sound.subscribed_step (h : Sound m) (hends : unsubscribes b m = false)
    (hsub : sub ∈ (m.world.bus b).subscriptions type) :
    sub ∈ (m.step.world.bus b).subscriptions type ∨
      ∃ d, (m.world.bus b).dispatching = some d ∧
        m.step.world.bus b = (m.world.bus b).endDispatch (m.reached d) ∧
        sub ∈ (m.reached d).spent := by
  -- A bus task works on one bus and changes its subscriptions only where a dispatch ends.
  have hkept : ∀ {c : BusId} {f : Bus → Bus}, m.step.world = m.world.modifyBus c f →
      (∀ bus : Bus, bus.Retains (f bus)) → sub ∈ (m.step.world.bus b).subscriptions type := by
    intro c f hstep hretains
    rw [hstep]
    exact World.bus_modifyBus_rel Bus.Retains.refl hretains b type hsub
  cases hagenda : m.agenda with
  | nil =>
      rw [step_of_agenda_eq_nil hagenda]
      exact .inl hsub
  | cons task rest =>
      cases hworks : task.worksBus with
      | false =>
          have hknown : task.Known m.world := h.known task (by simp [hagenda])
          rw [unsubscribes, hagenda] at hends
          exact .inl ((routineOrFail_step hagenda hknown hworks).retains hends type hsub)
      | true =>
          cases task with
          | publish c event =>
              cases hpub : (m.world.bus c).isPublishing with
              | true =>
                  obtain ⟨hstep, -⟩ := step_publish_of_isPublishing hagenda hpub
                  exact .inl (hkept hstep fun bus => .refl bus)
              | false =>
                  obtain ⟨hstep, -⟩ := step_publish_of_idle hagenda hpub
                  exact .inl (hkept hstep fun bus => .refl bus)
          | dispatch c =>
              obtain ⟨d, hd⟩ := h.exists_dispatching hagenda
              cases hcalling : (m.reached d).calling with
              | some called =>
                  obtain ⟨hstep, -⟩ := step_dispatch_of_calling hagenda hd hcalling
                  exact .inl (hkept hstep fun bus => .refl bus)
              | none =>
                  obtain ⟨hstep, -⟩ := step_dispatch_of_done hagenda hd hcalling
                  by_cases hb : b = c
                  · subst hb
                    have hbus : m.world.HasBus b := h.known (.dispatch b) (by simp [hagenda])
                    rw [hstep, World.bus_modifyBus_self hbus]
                    by_cases hspent : sub ∈ (m.reached d).spent
                    · exact .inr ⟨d, hd, rfl, hspent⟩
                    · exact .inl (Bus.mem_endDispatch hsub hspent)
                  · rw [hstep, World.bus_modifyBus_of_ne hb]
                    exact .inl hsub
          | drain c event holds =>
              cases hqueue : (m.world.bus c).queue with
              | nil =>
                  rw [(step_drain_of_empty hagenda hqueue).1]
                  exact .inl hsub
              | cons first more =>
                  obtain ⟨hstep, -⟩ := step_drain_of_cons hagenda hqueue
                  exact .inl (hkept hstep fun bus => .refl bus)
          | _ => exact absurd hworks (by simp [Task.worksBus])

/-! ## Whole runs -/

theorem Execution.spares (h : Execution x) (b : BusId) (i : ℕ) :
    ∀ d, ((x i).world.bus b).dispatching = some d → d.Spares := by
  induction i with
  | zero =>
      rw [h.initial.bus b]
      intro d hd
      exact absurd hd (by simp)
  | succ i ih =>
      generalize hm : x (i + 1) = m
      cases (hm ▸ h.next i : Next (x i) m) with
      | step => exact (h.reachable i).sound.spares_step ih
      | host hagenda step => exact ih

/-- A subscription that is neither weak nor one-shot lasts as long as none of the steps that are
there to end subscriptions ends it. -/
theorem Execution.subscribed (h : Execution x)
    (hsub : sub ∈ ((x i).world.bus b).subscriptions type) (hfirm : sub.weak = false)
    (hlasts : sub.oneShot = false)
    (hkept : ∀ j < n, unsubscribes b (x (i + j)) = true →
      sub ∈ ((x (i + j + 1)).world.bus b).subscriptions type) (hj : j ≤ n) :
    sub ∈ ((x (i + j)).world.bus b).subscriptions type := by
  induction j with
  | zero => exact hsub
  | succ j ih =>
      have hnow := ih (by omega)
      cases hends : unsubscribes b (x (i + j)) with
      | true => exact hkept j (by omega) hends
      | false =>
          rw [← Nat.add_assoc]
          generalize hm : x (i + j + 1) = m
          cases (hm ▸ h.next (i + j) : Next (x (i + j)) m) with
          | host hagenda step => exact hnow
          | step =>
              rcases (h.reachable (i + j)).sound.subscribed_step hends hnow with
                hstays | ⟨d, hd, -, hspent⟩
              · exact hstays
              · have hworn := ((h.spares b (i + j) d hd).settle.next _) sub hspent
                rw [hfirm, hlasts] at hworn
                exact absurd hworn (by simp)

end Machine

end Parley
