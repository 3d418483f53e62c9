import Mathlib.Data.List.Chain
import Parley.Proofs.Machine.Step

/-!
# The bus tasks on an agenda

The dispatches on an agenda are the calls of listeners that are under way, innermost first.
Three facts about their places hold at all times (`Stacked`): a listener is being called only
by the dispatch right behind it, and a drain stands right behind a dispatch or another drain
of its bus, or in front of everything.

Routine work does not disturb this (`Continues.below`), and leaves the number of dispatches of
every bus as it is (`Continues.countP_dispatches`).
-/

namespace Parley.Task

/-! ## Places -/

/-- Whether a task goes on with a dispatch of the bus. -/
def dispatches (b : BusId) : Task → Bool
  | .dispatch c => c = b
  | _ => false

/-- A task may stand in front of another: only bus tasks stand in front of a drain. -/
def InFront (task next : Task) : Prop :=
  ∀ b event holds, next = .drain b event holds →
    task = .dispatch b ∨ ∃ event' holds', task = .drain b event' holds'

/-- An agenda on which no listener is being handed an event. -/
structure Below (agenda : List Task) : Prop where
  chain : agenda.IsChain InFront
  deliver : ∀ b listener, .deliver b listener ∉ agenda

/-- The places of bus tasks on an agenda. -/
inductive Stacked : List Task → Prop
  | below {agenda : List Task} (h : Below agenda) : Stacked agenda
  | deliver {b : BusId} {rest : List Task} (listener : Listener)
      (h : Below (.dispatch b :: rest)) : Stacked (.deliver b listener :: .dispatch b :: rest)

/-- The next task of an agenda drains the queue of the bus. -/
def Draining (b : BusId) (agenda : List Task) : Prop :=
  ∃ event holds, agenda.head? = some (.drain b event holds)

/-- The next task of an agenda is not a drain. -/
def NotDraining (agenda : List Task) : Prop :=
  ∀ b event holds, agenda.head? ≠ some (.drain b event holds)

theorem NotDraining.not_draining {agenda : List Task} (h : NotDraining agenda) (b : BusId) :
    ¬ Draining b agenda :=
  fun ⟨event, holds, hhead⟩ => h b event holds hhead

variable {agenda rest : List Task} {task : Task}

theorem Below.nil : Below [] := ⟨.nil, by simp⟩

theorem Below.tail (h : Below (task :: rest)) : Below rest :=
  ⟨h.chain.tail, fun b listener hmem => h.deliver b listener (List.mem_cons_of_mem _ hmem)⟩

theorem Below.of_append {before after : List Task} (h : Below (before ++ after)) :
    Below after :=
  ⟨(List.isChain_append.mp h.chain).2.1,
    fun b listener hmem => h.deliver b listener (List.mem_append_right _ hmem)⟩

theorem Below.cons (h : Below rest) (hfront : ∀ next, rest.head? = some next → InFront task next)
    (htask : ∀ b listener, task ≠ .deliver b listener) : Below (task :: rest) := by
  refine ⟨List.isChain_cons.mpr ⟨fun next hnext => hfront next hnext, h.chain⟩, ?_⟩
  intro b listener hmem
  rcases List.mem_cons.mp hmem with heq | hmem
  exacts [htask b listener heq.symm, h.deliver b listener hmem]

theorem NotDraining.inFront (h : NotDraining rest) (task : Task) :
    ∀ next, rest.head? = some next → InFront task next := by
  rintro next hnext b event holds rfl
  exact absurd hnext (h b event holds)

/-- Right behind other tasks than dispatches and drains there is no drain. -/
theorem Stacked.below_rest (h : Stacked (task :: rest)) (hdispatch : ∀ b, task ≠ .dispatch b)
    (hdrain : ∀ b event holds, task ≠ .drain b event holds) : Below rest ∧ NotDraining rest := by
  cases h with
  | below h =>
      refine ⟨h.tail, fun b event holds hhead => ?_⟩
      rcases (List.isChain_cons.mp h.chain).1 _ hhead b event holds rfl with heq | ⟨_, _, heq⟩
      exacts [hdispatch b heq, hdrain b _ _ heq]
  | deliver listener h => exact ⟨h, by simp [NotDraining]⟩

theorem Stacked.below_of_ne (h : Stacked (task :: rest))
    (hdeliver : ∀ b listener, task ≠ .deliver b listener) : Below (task :: rest) := by
  cases h with
  | below h => exact h
  | deliver listener h => exact absurd rfl (hdeliver _ listener)

theorem Below.inFront (h : Below (task :: rest)) {next : Task} (hnext : rest.head? = some next) :
    InFront task next :=
  (List.isChain_cons.mp h.chain).1 next hnext

theorem Stacked.exists_dispatch {b : BusId} {listener : Listener}
    (h : Stacked (.deliver b listener :: rest)) : ∃ below, rest = .dispatch b :: below := by
  cases h with
  | below h => exact absurd (by simp) (h.deliver b listener)
  | @deliver _ below _ h => exact ⟨below, rfl⟩

/-! ## Routine work -/

theorem KeepsFrames.inFront {f : Task → Task} (hf : KeepsFrames f) {next : Task}
    (h : InFront task next) : InFront (f task) (f next) := by
  intro b event holds hdrain
  have hnext : next = .drain b event holds := by
    rw [← hdrain, hf.eq_of_isFrame (by rw [hdrain]; rfl)]
  rcases h b event holds hnext with rfl | ⟨event', holds', rfl⟩
  · exact .inl (hf.eq_of_isFrame (by rw [hf.isFrame]; rfl))
  · exact .inr ⟨event', holds', hf.eq_of_isFrame (by rw [hf.isFrame]; rfl)⟩

theorem Below.map {f : Task → Task} (hf : KeepsFrames f) (h : Below agenda) :
    Below (agenda.map f) := by
  refine ⟨(List.isChain_map f).mpr (h.chain.imp fun _ _ => hf.inFront), ?_⟩
  -- A delivery after the change was the same delivery before it.
  intro b listener hmem
  obtain ⟨task, htask, heq⟩ := List.mem_map.mp hmem
  rw [hf.eq_of_isFrame (by rw [heq]; rfl)] at heq
  exact h.deliver b listener (heq ▸ htask)

theorem NotDraining.map {f : Task → Task} (hf : KeepsFrames f) (h : NotDraining agenda) :
    NotDraining (agenda.map f) := by
  intro b event holds hhead
  rw [List.head?_map, Option.map_eq_some_iff] at hhead
  obtain ⟨task, htask, heq⟩ := hhead
  rw [hf.eq_of_isFrame (by rw [heq]; rfl)] at heq
  exact h b event holds (heq ▸ htask)

theorem Below.append {w : World} {tasks : List Task} (h : Below agenda ∧ NotDraining agenda)
    (htasks : ∀ task ∈ tasks, task.Ordinary w) :
    Below (tasks ++ agenda) ∧ NotDraining (tasks ++ agenda) := by
  induction tasks with
  | nil => exact h
  | cons task tasks ih =>
      rw [List.forall_mem_cons] at htasks
      obtain ⟨hbelow, hfirst⟩ := ih htasks.2
      have hframe := htasks.1.isFrame
      refine ⟨hbelow.cons (hfirst.inFront task) ?_, ?_⟩
      · rintro b listener rfl
        exact absurd hframe (by simp)
      · intro b event holds hhead
        obtain rfl : task = .drain b event holds := by simpa using hhead
        exact absurd hframe (by simp)

variable {w : World}

/-- Routine work keeps the bus tasks in their places. -/
theorem Continues.below (h : Continues task w rest agenda) (hrest : Below rest)
    (hfirst : NotDraining rest) : Below agenda ∧ NotDraining agenda := by
  cases h with
  | push htasks hf =>
      exact Below.append ⟨hrest.map hf, hfirst.map hf⟩ fun t ht => (htasks t ht).1
  | cut hf heq hbefore hafter =>
      have hmapped := hrest.map hf
      rw [heq] at hmapped
      refine ⟨hmapped.of_append, ?_⟩
      rcases hafter with rfl | ⟨b, below, rfl⟩ <;> simp [NotDraining]

theorem Continues.known (h : Continues task w rest agenda) (hrest : ∀ t ∈ rest, t.Known w) :
    ∀ t ∈ agenda, t.Known w := by
  have hmapped : ∀ {f : Task → Task}, KeepsFrames f → ∀ t ∈ rest.map f, t.Known w :=
    fun hf => List.forall_mem_map.mpr fun t ht => hf.known (hrest t ht)
  cases h with
  | push htasks hf =>
      exact List.forall_mem_append.mpr ⟨fun t ht => (htasks t ht).1.known, hmapped hf⟩
  | cut hf heq hbefore hafter =>
      exact fun t ht => hmapped hf t (heq ▸ List.mem_append_right _ ht)

/-! ## Counting dispatches -/

theorem dispatches_eq_true_iff {b : BusId} : task.dispatches b = true ↔ task = .dispatch b := by
  cases task <;> simp [dispatches]

theorem countP_dispatches_eq_zero {b : BusId} (h : .dispatch b ∉ agenda) :
    agenda.countP (dispatches b) = 0 := by
  rw [List.countP_eq_zero]
  intro task ht htrue
  rw [dispatches_eq_true_iff] at htrue
  exact h (htrue ▸ ht)

theorem KeepsFrames.dispatches {f : Task → Task} (hf : KeepsFrames f) (b : BusId)
    (task : Task) : (f task).dispatches b = task.dispatches b := by
  rcases hf task with heq | ⟨sink, course, course', rfl, heq⟩ <;> rw [heq]
  rfl

theorem countP_dispatches_map {f : Task → Task} (hf : KeepsFrames f) (b : BusId)
    (agenda : List Task) :
    (agenda.map f).countP (dispatches b) = agenda.countP (dispatches b) := by
  rw [List.countP_map]
  congr 1
  funext task
  exact hf.dispatches b task

theorem Continues.countP_dispatches (h : Continues task w rest agenda) (b : BusId) :
    agenda.countP (dispatches b) = rest.countP (dispatches b) := by
  cases h with
  | @push tasks f htasks hf =>
      have hnone : Task.dispatch b ∉ tasks := fun hmem =>
        absurd (htasks _ hmem).1.isFrame (by simp)
      rw [List.countP_append, countP_dispatches_eq_zero hnone, countP_dispatches_map hf,
        Nat.zero_add]
  | @cut before after f hf heq hbefore hafter =>
      rw [← countP_dispatches_map hf b rest, heq, List.countP_append,
        countP_dispatches_eq_zero (hbefore b), Nat.zero_add]

end Parley.Task
