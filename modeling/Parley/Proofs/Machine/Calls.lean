import Parley.Proofs.Machine.Execution

/-!
# Tasks that are worked off

A call that puts several tasks on the agenda comes back to each of them in turn, whatever is done
in between.  Only a failure takes tasks away, and one that takes any of these takes all that are
left, together with the call.  So once the agenda is as long again as it was below the tasks, and
goes on there other than by catching a failure, each of them has been reached
(`Execution.reached_of_worksOff`).

## Strategy

The tasks that have not been reached yet stay right above the rest of the agenda (`Above`).  One
step leaves them there, or takes the first of them because it has been reached, or cuts all of
them off (`Sound.above_step`).
-/

namespace Parley

namespace Task

variable {left rest agenda : List Task}

/-- Some tasks stand right above the rest of an agenda, below the work of a task before them. -/
def Above (left rest agenda : List Task) : Prop :=
  ∃ nested f, KeepsFrames f ∧ agenda = nested ++ (left ++ rest).map f

/-- A failure has been passed on to a dispatch in the rest of an agenda, or to the host. -/
def CutOff (rest agenda : List Task) : Prop :=
  (∃ f, KeepsFrames f ∧ agenda <:+ rest.map f) ∧
    (agenda = [] ∨ ∃ b below, agenda = .dispatch b :: below)

theorem KeepsFrames.dispatch_mem {f : Task → Task} (hf : KeepsFrames f) {b : BusId}
    (h : .dispatch b ∈ agenda.map f) : .dispatch b ∈ agenda := by
  obtain ⟨task, htask, heq⟩ := List.mem_map.mp h
  rw [hf.eq_of_isFrame (by rw [heq]; rfl)] at heq
  exact heq ▸ htask

theorem CutOff.length_le (h : CutOff rest agenda) : agenda.length ≤ rest.length := by
  obtain ⟨⟨f, -, hsuffix⟩, -⟩ := h
  simpa using hsuffix.length_le

/-- A failure that leaves all of the rest has been caught there. -/
theorem CutOff.head?_of_length (h : CutOff rest agenda) (hlength : agenda.length = rest.length) :
    rest = [] ∨ ∃ b, rest.head? = some (.dispatch b) := by
  obtain ⟨⟨f, hf, hsuffix⟩, rfl | ⟨b, below, rfl⟩⟩ := h
  · exact .inl (List.eq_nil_of_length_eq_zero hlength.symm)
  · have hall : .dispatch b :: below = rest.map f :=
      hsuffix.eq_of_length (by rw [hlength, List.length_map])
    cases rest with
    | nil => exact .inl rfl
    | cons task rest =>
        obtain ⟨hhead, -⟩ := List.cons.inj hall
        exact .inr ⟨b, by rw [hhead, hf.eq_of_isFrame (by rw [← hhead]; rfl)]; rfl⟩

/-- A failure leaves all of the tasks or none. -/
theorem Above.of_suffix {before after : List Task} {f : Task → Task} (hf : KeepsFrames f)
    (hleft : ∀ b, .dispatch b ∉ left) {nested : List Task}
    (heq : nested ++ (left ++ rest).map f = before ++ after)
    (hafter : after = [] ∨ ∃ b below, after = .dispatch b :: below) :
    Above left rest after ∨ CutOff rest after := by
  rcases List.append_eq_append_iff.mp heq with ⟨gap, -, htail⟩ | ⟨gap, -, rfl⟩
  · rw [List.map_append] at htail
    rcases List.append_eq_append_iff.mp htail with ⟨more, -, hrest⟩ | ⟨more, hmore, rfl⟩
    · exact .inr ⟨⟨f, hf, _, hrest.symm⟩, hafter⟩
    -- The cut cannot come out within the tasks, which hold no dispatch.
    · cases more with
      | nil => exact .inr ⟨⟨f, hf, List.suffix_refl _⟩, hafter⟩
      | cons task more =>
          obtain habsurd | ⟨b, below, hdispatch⟩ := hafter
          · exact absurd habsurd (by simp)
          · obtain ⟨rfl, -⟩ := List.cons.inj hdispatch
            exact absurd (hf.dispatch_mem (hmore ▸ by simp)) (hleft b)
  · exact .inl ⟨gap, f, hf, rfl⟩

end Task

namespace Machine

variable {x : ℕ → Machine} {m : Machine} {left rest tasks : List Task} {i n : ℕ}

/-- The work of a task in front leaves the tasks in place, unless it fails. -/
theorem Sound.above_of_cons (h : Sound m) {task : Task} {nested : List Task} {f : Task → Task}
    (hagenda : m.agenda = task :: (nested ++ (left ++ rest).map f)) (hf : Task.KeepsFrames f)
    (hleft : ∀ b, .dispatch b ∉ left) :
    Task.Above left rest m.step.agenda ∨ Task.CutOff rest m.step.agenda := by
  obtain ⟨g, hg, ⟨more, -, hstep⟩ | ⟨before, hcut, hafter⟩⟩ := h.yields_or_cuts hagenda
  · refine .inl ⟨more ++ nested.map g, g ∘ f, hf.comp hg, ?_⟩
    calc m.step.agenda
        = more ++ (nested ++ (left ++ rest).map f).map g := hstep
      _ = more ++ nested.map g ++ (left ++ rest).map (g ∘ f) := by
          rw [List.map_append, List.map_map, List.append_assoc]
  · rw [List.map_append, List.map_map] at hcut
    exact Task.Above.of_suffix (hf.comp hg) hleft hcut hafter

theorem Sound.above_step (h : Sound m) (habove : Task.Above left rest m.agenda)
    (hleft : ∀ b, .dispatch b ∉ left) (hbusy : rest.length < m.agenda.length) :
    Task.Above left rest m.step.agenda ∨
      (∃ task later f, left = task :: later ∧ Task.KeepsFrames f ∧
        m.agenda.head? = some (f task) ∧ Task.Above later rest m.step.agenda) ∨
      Task.CutOff rest m.step.agenda := by
  obtain ⟨nested, f, hf, hagenda⟩ := habove
  cases nested with
  | cons task nested => exact (h.above_of_cons hagenda hf hleft).imp_right .inr
  | nil =>
      cases left with
      | nil =>
          rw [hagenda] at hbusy
          exact absurd hbusy (by simp)
      | cons task later =>
          have hlater : ∀ b, .dispatch b ∉ later := fun b hmem =>
            hleft b (List.mem_cons_of_mem _ hmem)
          have hhead : m.agenda = f task :: ([] ++ (later ++ rest).map f) := hagenda
          rcases h.above_of_cons hhead hf hlater with habove | hcut
          · exact .inr (.inl ⟨task, later, f, rfl, hf, by rw [hhead]; rfl, habove⟩)
          · exact .inr (.inr hcut)

/-- From time `i` to time `n` some tasks are worked off above the rest of the agenda. -/
structure WorksOff (tasks rest : List Task) (x : ℕ → Machine) (i n : ℕ) : Prop where
  pushed : (x i).agenda = tasks ++ rest
  later : i ≤ n
  busy : ∀ j, i ≤ j → j < n → rest.length < (x j).agenda.length
  done : (x n).agenda.length = rest.length
  /-- The agenda does not go on with catching a failure. -/
  normal : rest ≠ [] ∧ ∀ b, rest.head? ≠ some (.dispatch b)

/-- The task has been reached between two times. -/
def ReachedIn (x : ℕ → Machine) (i n : ℕ) (task : Task) : Prop :=
  ∃ j, i ≤ j ∧ j < n ∧ ∃ f, Task.KeepsFrames f ∧ (x j).agenda.head? = some (f task)

theorem ReachedIn.mono {k : ℕ} {task : Task} (h : ReachedIn x i n task) (hle : n ≤ k) :
    ReachedIn x i k task := by
  obtain ⟨j, hi, hj, hhead⟩ := h
  exact ⟨j, hi, by omega, hhead⟩

/-- What has not been reached is still there. -/
theorem Execution.above_of_worksOff (h : Execution x) (hworks : WorksOff tasks rest x i n)
    (htasks : ∀ b, .dispatch b ∉ tasks) {j : ℕ} (hi : i ≤ j) (hj : j ≤ n) :
    ∃ done left, tasks = done ++ left ∧ Task.Above left rest (x j).agenda ∧
      ∀ task ∈ done, ReachedIn x i j task := by
  induction j, hi using Nat.le_induction with
  | base =>
      refine ⟨[], tasks, rfl, ⟨[], id, Task.keepsFrames_id, ?_⟩, by simp⟩
      rw [List.map_id]
      exact hworks.pushed
  | succ j hi ih =>
      obtain ⟨done, left, rfl, habove, hreached⟩ := ih (by omega)
      have hbusy := hworks.busy j hi (by omega)
      have hne : (x j).agenda ≠ [] := List.ne_nil_of_length_pos (by omega)
      have hleft : ∀ b, .dispatch b ∉ left := fun b hmem =>
        htasks b (List.mem_append_right _ hmem)
      have hbefore : ∀ task ∈ done, ReachedIn x i (j + 1) task := fun task ht =>
        (hreached task ht).mono (by omega)
      rcases (h.reachable j).sound.above_step habove hleft hbusy with hstays | htakes | hcut
      · rw [← h.eq_step hne] at hstays
        exact ⟨done, left, rfl, hstays, hbefore⟩
      · obtain ⟨task, later, f, rfl, hf, hhead, hlater⟩ := htakes
        rw [← h.eq_step hne] at hlater
        refine ⟨done ++ [task], later, by simp, hlater, fun t ht => ?_⟩
        rcases List.mem_append.mp ht with ht | ht
        · exact hbefore t ht
        · obtain rfl := List.mem_singleton.mp ht
          exact ⟨j, hi, by omega, f, hf, hhead⟩
      -- A failure is not passed on below the tasks before the end, nor caught there in the end.
      · rw [← h.eq_step hne] at hcut
        have hle := hcut.length_le
        rcases Nat.lt_or_ge (j + 1) n with hlt | hge
        · have := hworks.busy (j + 1) (by omega) hlt
          omega
        · obtain rfl : j + 1 = n := by omega
          rcases hcut.head?_of_length hworks.done with hnil | ⟨b, hhead⟩
          · exact absurd hnil hworks.normal.1
          · exact absurd hhead (hworks.normal.2 b)

/-- Tasks that are worked off have all been reached, and leave the rest in place. -/
theorem Execution.reached_of_worksOff (h : Execution x) (hworks : WorksOff tasks rest x i n)
    (htasks : ∀ b, .dispatch b ∉ tasks) :
    (∀ task ∈ tasks, ReachedIn x i n task) ∧
      ∃ f, Task.KeepsFrames f ∧ (x n).agenda = rest.map f := by
  obtain ⟨done, left, rfl, ⟨nested, f, hf, hagenda⟩, hreached⟩ :=
    h.above_of_worksOff hworks htasks hworks.later le_rfl
  have hlength : nested.length + (left.length + rest.length) = rest.length := by
    have hdone := hworks.done
    rw [hagenda, List.length_append, List.length_map, List.length_append] at hdone
    exact hdone
  obtain rfl : nested = [] := List.eq_nil_of_length_eq_zero (by omega)
  obtain rfl : left = [] := List.eq_nil_of_length_eq_zero (by omega)
  rw [List.append_nil]
  exact ⟨hreached, f, hf, hagenda⟩

end Machine

end Parley
