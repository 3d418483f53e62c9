import Parley.Proofs.Manager.Deals

/-!
# What waits on the agenda of a manager

The making of a session on a display, and the forgetting of all sessions, wait on the agenda of
a manager while sessions are finished.  Two facts about what else is there survive a step that a
manager has nothing to do with: nothing stands in the way behind the making of a session
(`Ordered`), and a session that is about to be finished before the manager forgets it remains so
(`Doomed`).
-/

namespace Parley

namespace Task

variable {id : ManagerId} {s : SessionId} {rest agenda : List Task}

/-- Whether a task makes a session of the manager on the display of a title. -/
def launches (id : ManagerId) (title : String) : Task → Bool
  | .launch other _ _ name _ _ => other = id && name = title
  | _ => false

def forgets (id : ManagerId) : Task → Bool
  | .forget other => other = id
  | _ => false

/-- Whether no conversation should be started on a display before this task is done. -/
def blocks (id : ManagerId) (title : String) (task : Task) : Bool :=
  task.launches id title || task.forgets id

theorem KeepsFrames.launches {f : Task → Task} (hf : KeepsFrames f) (id : ManagerId)
    (title : String) (task : Task) : (f task).launches id title = task.launches id title := by
  rcases hf task with heq | ⟨sink, course, course', rfl, heq⟩ <;> rw [heq]
  rfl

theorem KeepsFrames.forgets {f : Task → Task} (hf : KeepsFrames f) (id : ManagerId)
    (task : Task) : (f task).forgets id = task.forgets id := by
  rcases hf task with heq | ⟨sink, course, course', rfl, heq⟩ <;> rw [heq]
  rfl

theorem launches_eq_false {task : Task} (h : task.manages id = false) (title : String) :
    task.launches id title = false := by
  cases task with
  | launch other graph d name node called =>
      have hne : ¬ other = id := by simpa [manages] using h
      simp [launches, hne]
  | _ => rfl

theorem forgets_eq_false {task : Task} (h : task.manages id = false) :
    task.forgets id = false := by
  cases task with
  | forget other => exact h
  | _ => rfl

theorem blocks_eq_false {task : Task} (h : task.manages id = false) (title : String) :
    task.blocks id title = false := by
  rw [blocks, launches_eq_false h, forgets_eq_false h]
  rfl

theorem forgets_of_blocks {task : Task} {title : String} (h : task.blocks id title = false) :
    task.forgets id = false :=
  (Bool.or_eq_false_iff.mp h).2

/-! ## The order of the tasks of a manager -/

/-- Behind the making of a session nothing waits that would stand in the way of it. -/
def Ordered (id : ManagerId) (agenda : List Task) : Prop :=
  agenda.Pairwise fun a b => ∀ title, a.launches id title = true → b.blocks id title = false

theorem Ordered.tail (h : Ordered id agenda) : Ordered id agenda.tail :=
  List.Pairwise.tail h

/-- Tasks that make no session may come in front. -/
theorem Ordered.append {tasks : List Task} (h : Ordered id rest)
    (htasks : ∀ t ∈ tasks, ∀ title, t.launches id title = false) : Ordered id (tasks ++ rest) := by
  refine List.pairwise_append.mpr ⟨?_, h, fun t ht _ _ title hlaunches => ?_⟩
  · refine List.pairwise_of_forall_mem_list fun t ht _ _ title hlaunches => ?_
    exact absurd hlaunches (by simp [htasks t ht])
  · exact absurd hlaunches (by simp [htasks t ht])

theorem Carries.ordered (h : Carries id rest agenda) (hrest : Ordered id rest) :
    Ordered id agenda := by
  have hmapped : ∀ {f : Task → Task}, KeepsFrames f → Ordered id (rest.map f) := by
    intro f hf
    refine List.pairwise_map.mpr (hrest.imp fun hab title => ?_)
    rw [blocks, hf.launches, hf.launches, hf.forgets]
    exact hab title
  cases h with
  | push htasks hf =>
      exact (hmapped hf).append fun t ht => launches_eq_false (htasks t ht)
  | cut hf heq hafter => exact (List.pairwise_append.mp (heq ▸ hmapped hf)).2.1

/-- The making of a session may be put on the agenda where nothing stands in the way of it. -/
theorem Ordered.launch {graph : Ref Graph} {d : DisplayId} {title name : String}
    {node : Option String} {before after : List Task} (h : Ordered id rest)
    (hbefore : ∀ t ∈ before, t.manages id = false) (hafter : ∀ t ∈ after, t.manages id = false)
    (hrest : ∀ t ∈ rest, t.blocks id title = false) :
    Ordered id (before ++ .launch id graph d title node name :: (after ++ rest)) := by
  refine Ordered.append ?_ fun t ht => launches_eq_false (hbefore t ht)
  refine List.pairwise_cons.mpr ⟨fun t ht found hlaunches => ?_,
    h.append fun t ht => launches_eq_false (hafter t ht)⟩
  obtain rfl : title = found := by simpa [launches] using hlaunches
  rcases List.mem_append.mp ht with ht | ht
  · exact blocks_eq_false (hafter t ht) title
  · exact hrest t ht

/-! ## Sessions that are about to be finished -/

def finishes (s : SessionId) : Task → Bool
  | .finish t _ => t = s
  | _ => false

/-- Whether a session is about to be finished when this task has been reached.  What comes in
front of a dispatch may be lost to a failure. -/
def dooms (s : SessionId) (doomed : Bool) : Task → Bool
  | .dispatch _ => false
  | task => doomed || task.finishes s

/-- Whenever the manager comes to forget its sessions, the session has been finished. -/
def Doomed (id : ManagerId) (s : SessionId) : Bool → List Task → Prop
  | _, [] => True
  | doomed, task :: rest =>
      (task.forgets id = true → doomed = true) ∧ Doomed id s (task.dooms s doomed) rest

theorem KeepsFrames.dooms {f : Task → Task} (hf : KeepsFrames f) (s : SessionId) (doomed : Bool)
    (task : Task) : (f task).dooms s doomed = task.dooms s doomed := by
  rcases hf task with heq | ⟨sink, course, course', rfl, heq⟩ <;> rw [heq]
  rfl

theorem dooms_mono {doomed : Bool} {task : Task} (h : task.dooms s false = true) :
    task.dooms s doomed = true := by
  cases task with
  | dispatch b => exact h
  | _ => simp_all [dooms]

theorem Doomed.mono {doomed doomed' : Bool} (h : Doomed id s doomed agenda)
    (hle : doomed = true → doomed' = true) : Doomed id s doomed' agenda := by
  induction agenda generalizing doomed doomed' with
  | nil => trivial
  | cons task rest ih =>
      refine ⟨fun hforgets => hle (h.1 hforgets), ih h.2 fun hdooms => ?_⟩
      cases doomed with
      | false => exact dooms_mono hdooms
      | true => exact hle rfl ▸ hdooms

theorem doomed_of_forgets {doomed : Bool} (h : ∀ t ∈ agenda, t.forgets id = false) :
    Doomed id s doomed agenda := by
  induction agenda generalizing doomed with
  | nil => trivial
  | cons task rest ih =>
      rw [List.forall_mem_cons] at h
      exact ⟨fun hforgets => absurd hforgets (by simp [h.1]), ih h.2⟩

theorem Doomed.append {doomed : Bool} {tasks : List Task} (h : Doomed id s false rest)
    (htasks : ∀ t ∈ tasks, t.forgets id = false) : Doomed id s doomed (tasks ++ rest) := by
  induction tasks generalizing doomed with
  | nil => exact h.mono (by simp)
  | cons task tasks ih =>
      rw [List.forall_mem_cons] at htasks
      exact ⟨fun hforgets => absurd hforgets (by simp [htasks.1]), ih htasks.2⟩

/-- Tasks that finish the session doom it, if they do not come in front of a dispatch. -/
theorem Doomed.of_finishes {doomed : Bool} {tasks : List Task} (h : Doomed id s true rest)
    (htasks : ∀ t ∈ tasks, t.forgets id = false) (hdispatch : ∀ b, .dispatch b ∉ tasks)
    (hfinishes : doomed = true ∨ ∃ t ∈ tasks, t.finishes s = true) :
    Doomed id s doomed (tasks ++ rest) := by
  induction tasks generalizing doomed with
  | nil =>
      rcases hfinishes with rfl | ⟨t, ht, -⟩
      · exact h
      · exact absurd ht (by simp)
  | cons task tasks ih =>
      rw [List.forall_mem_cons] at htasks
      simp only [List.mem_cons, not_or] at hdispatch
      have hdooms : task.dooms s doomed = (doomed || task.finishes s) := by
        cases task with
        | dispatch b => exact absurd rfl (hdispatch b).1
        | _ => rfl
      refine ⟨fun hforgets => absurd hforgets (by simp [htasks.1]),
        ih htasks.2 (fun b => (hdispatch b).2) ?_⟩
      rw [hdooms]
      rcases hfinishes with rfl | ⟨t, ht, hfinish⟩
      · exact .inl rfl
      · rcases List.mem_cons.mp ht with rfl | ht
        · exact .inl (by simp [hfinish])
        · exact .inr ⟨t, ht, hfinish⟩

theorem Doomed.tail (h : Doomed id s false agenda)
    (hhead : ∀ onComplete, agenda.head? ≠ some (.finish s onComplete)) :
    Doomed id s false agenda.tail := by
  cases agenda with
  | nil => trivial
  | cons task rest =>
      refine Doomed.mono h.2 fun hdooms => ?_
      cases task with
      | finish t onComplete =>
          obtain rfl : t = s := by simpa [dooms, finishes] using hdooms
          exact absurd rfl (hhead onComplete)
      | _ => exact absurd hdooms (by simp [dooms, finishes])

/-- Nothing is lost when the agenda is cut down to a dispatch. -/
theorem Doomed.of_append {doomed : Bool} {before after : List Task}
    (h : Doomed id s doomed (before ++ after))
    (hafter : after = [] ∨ ∃ b below, after = .dispatch b :: below) :
    Doomed id s false after := by
  induction before generalizing doomed with
  | nil =>
      rcases hafter with rfl | ⟨b, below, rfl⟩
      · trivial
      · exact ⟨fun hforgets => absurd hforgets (by simp [forgets]), h.2⟩
  | cons task before ih => exact ih h.2

theorem Doomed.map {doomed : Bool} {f : Task → Task} (hf : KeepsFrames f)
    (h : Doomed id s doomed agenda) : Doomed id s doomed (agenda.map f) := by
  induction agenda generalizing doomed with
  | nil => trivial
  | cons task rest ih =>
      refine ⟨fun hforgets => h.1 (hf.forgets id task ▸ hforgets), ?_⟩
      rw [hf.dooms]
      exact ih h.2

theorem Carries.doomed (h : Carries id rest agenda) (hrest : Doomed id s false rest) :
    Doomed id s false agenda := by
  cases h with
  | push htasks hf =>
      exact (hrest.map hf).append fun t ht => forgets_eq_false (htasks t ht)
  | cut hf heq hafter => exact (heq ▸ hrest.map hf).of_append hafter

end Task

end Parley
