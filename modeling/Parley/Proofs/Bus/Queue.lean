import Parley.Proofs.Bus.Turn

/-!
# The queue of a bus

One step adds what it publishes to the end of the queue and takes what it begins to dispatch
from the front (`queue_step`).  So over a run the events published and those begun differ only
by what the queue held before and holds after (`queue_trail`).  The queue is empty whenever no
work of the bus is left on the agenda (`Quiet`).
-/

namespace Parley

/-- The bus whose work a task carries out. -/
def Task.bus? : Task → Option BusId
  | .publish b _ | .dispatch b | .drain b .. | .deliver b _ => some b
  | _ => none

namespace Machine

variable {m : Machine} {b : BusId}

/-! ## At rest -/

/-- No work of a bus is left to be done. -/
def Quiet (b : BusId) (m : Machine) : Prop :=
  ∀ task ∈ m.agenda, task.bus? ≠ some b

theorem quiet_of_agenda_eq_nil (h : m.agenda = []) (b : BusId) : Quiet b m := by
  simp [Quiet, h]

theorem Quiet.dispatching_eq_none (hquiet : Quiet b m) (h : Sound m) :
    (m.world.bus b).dispatching = none := by
  by_contra hsome
  have hpub : (m.world.bus b).isPublishing = true := Option.isSome_iff_ne_none.mpr hsome
  exact hquiet _ ((h.accounted b).dispatch_mem hpub) rfl

theorem Quiet.queue_eq_nil (hquiet : Quiet b m) (h : Sound m) : (m.world.bus b).queue = [] := by
  have hidle : (m.world.bus b).isPublishing = false := by
    rw [Bus.isPublishing, hquiet.dispatching_eq_none h]
    rfl
  apply (h.accounted b).queue_eq_nil hidle
  rintro ⟨event, holds, hhead⟩
  exact hquiet _ (List.mem_of_mem_head? hhead) rfl

/-! ## Over a run -/

/-- The machines that take the next `n` steps. -/
def trail : (n : ℕ) → Machine → List Machine
  | 0, _ => []
  | n + 1, m => m :: trail n m.step

theorem mem_trail {n : ℕ} {m' : Machine} : m' ∈ trail n m ↔ ∃ i < n, m' = step^[i] m := by
  induction n generalizing m with
  | zero => simp [trail]
  | succ n ih =>
      rw [trail, List.mem_cons, ih]
      constructor
      · rintro (rfl | ⟨i, hi, rfl⟩)
        · exact ⟨0, by omega, rfl⟩
        · exact ⟨i + 1, by omega, rfl⟩
      · rintro ⟨i, hi, rfl⟩
        cases i with
        | zero => exact .inl rfl
        | succ i => exact .inr ⟨i, by omega, rfl⟩

/-- Events enter the queue when they are published and leave it when their dispatch begins. -/
theorem queue_step (h : Sound m) (b : BusId) :
    (m.world.bus b).queue ++ published b m = begun b m ++ (m.step.world.bus b).queue := by
  cases h.turn b with
  | aside hpublished hgoes hdelivered hcalm =>
      rw [hpublished, begun_of_isPublishing_eq hcalm.isPublishing, hcalm.queue,
        List.append_nil, List.nil_append]
  | enqueues hpublished hgoes hdelivered hpub hbus =>
      rw [hpublished, begun_of_isPublishing hpub, hbus, List.nil_append]
      rfl
  | begins hpublished hgoes hdelivered hidle hbus =>
      rw [hpublished, begun_of_beginDispatch hidle hbus, hbus]
      rfl
  | calls hpublished hgoes hdelivered hd hcalling hbus =>
      have hpub : (m.world.bus b).isPublishing = true := by simp [Bus.isPublishing, hd]
      rw [hpublished, begun_of_isPublishing hpub, hbus, List.append_nil, List.nil_append]
      rfl
  | ends hpublished hgoes hdelivered hd hdone hbus =>
      have hpub : (m.world.bus b).isPublishing = true := by simp [Bus.isPublishing, hd]
      rw [hpublished, begun_of_isPublishing hpub, hbus, Bus.queue_endDispatch,
        List.append_nil, List.nil_append]

theorem queue_trail (h : Sound m) (b : BusId) (n : ℕ) :
    (m.world.bus b).queue ++ (trail n m).flatMap (published b) =
      (trail n m).flatMap (begun b) ++ ((step^[n] m).world.bus b).queue := by
  induction n generalizing m with
  | zero => simp [trail]
  | succ n ih =>
      rw [trail, List.flatMap_cons, List.flatMap_cons, ← List.append_assoc, queue_step h b,
        List.append_assoc, ih h.step, List.append_assoc, Function.iterate_succ_apply]

end Machine

end Parley
