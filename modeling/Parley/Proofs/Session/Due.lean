import Parley.Proofs.Session.Closing
import Parley.Proofs.Session.Story

/-!
# Input, and the lines that are due

Input to a session is a task at the head of the agenda (`Task.cue?`).  The step on it carries out
the move of the session (`step_of_cue`).  If the move leads to a line, the line is due from then on
until its turn comes to be shown (`Task.due`); a step that is no input adds no line
(`Sound.due_step`).  What is seen of a step of a session, on some input or when it shows a line, is
what its task comes to by itself, with nothing else left to be done (`sight`).
-/

namespace Parley

/-! ## Tasks -/

/-- The input to a session that a task stands for. -/
def Task.cue? (s : SessionId) : Task → Option Cue
  | .start t title => if t = s then some (.start title) else none
  | .proceed t => if t = s then some .proceed else none
  | .follow t key destination => if t = s then some (.follow key destination) else none
  | _ => none

/-- The line of a session that a task is going to have shown. -/
def Task.due? (s : SessionId) : Task → Option LineRef
  | .present t line => if t = s then some line else none
  | _ => none

/-- The lines of a session that are due, the next one first. -/
def Task.due (s : SessionId) (agenda : List Task) : List LineRef :=
  agenda.filterMap (due? s)

/-- What others see of a task that a session has set. -/
def Task.sign? (w : World) : Task → Option Sign
  | .showNode _ title => some (.node title)
  | .showLine _ line => some (.line (w.line line))
  | .showOver _ => some .over
  | .publish _ event => some (.event (w.written event))
  | .answer a => some (.answer a)
  | _ => none

namespace Cue

/-- The task of handing some input to a session. -/
def task (s : SessionId) : Cue → Task
  | start title => .start s title
  | proceed => .proceed s
  | follow key destination => .follow s key destination

/-- What is answered at once when some input is refused. -/
def refusal : Cue → Option Answer
  | start _ => some (.flag false)
  | _ => none

/-- The tasks that a move sets. -/
def tasks (s : SessionId) (cue : Cue) : Session.Move → List Task
  | .display moved key index =>
    let line : LineRef := ⟨s, moved.generation, key, index⟩
    match cue with
    | start _ =>
      [.showNode moved.display (Session.Move.titleOf moved),
        .publish (.session s)
          { type := .dialogue .nodeEntered,
            data := [("node", .node (Session.Move.titleOf moved))] },
        .present s line, .answer (.flag true)]
    | _ => [.present s line]
  | .ended moved =>
    [.showOver moved.display, .publish (.session s) { type := .dialogue .dialogueOver }]
  | _ => []

/-- What is done about a move that leads to a line, besides moving the session. -/
def shown (s : SessionId) : Cue → Session → LineRef → Machine → Machine
  | start title, moved, line, m =>
    (m.report .info ("Starting conversation node '" ++ Session.Move.titleOf moved ++ "'")).push
      ((start title).tasks s (.display moved line.key line.index))
  | _, _, line, m => m.push [.present s line]

end Cue

namespace Task

variable {s : SessionId} {task : Task} {cue : Cue} {agenda tasks : List Task}

theorem cue?_eq_some (h : task.cue? s = some cue) : task = cue.task s := by
  unfold cue? at h
  split at h
  all_goals first
    | (split at h
       · rename_i hs
         obtain rfl := Option.some.inj h
         rw [← hs]
         rfl
       · exact absurd h (by simp))
    | exact absurd h (by simp)

theorem cue?_task (s : SessionId) (cue : Cue) : (cue.task s).cue? s = some cue := by
  cases cue <;> exact if_pos rfl

theorem actor?_task (s : SessionId) (cue : Cue) : (cue.task s).actor? = some s := by
  cases cue <;> rfl

/-- A session is at work on some input, or when it shows a line. -/
theorem actor?_eq_some (h : task.actor? = some s) :
    (∃ cue : Cue, task = cue.task s) ∨ ∃ line, task = .present s line := by
  cases task with
  | start t title =>
      obtain rfl : t = s := Option.some.inj h
      exact .inl ⟨.start title, rfl⟩
  | proceed t =>
      obtain rfl : t = s := Option.some.inj h
      exact .inl ⟨.proceed, rfl⟩
  | follow t key destination =>
      obtain rfl : t = s := Option.some.inj h
      exact .inl ⟨.follow key destination, rfl⟩
  | present t line =>
      obtain rfl : t = s := Option.some.inj h
      exact .inr ⟨line, rfl⟩
  | _ => exact absurd h (by simp [actor?])

theorem due?_eq_some {line : LineRef} (h : task.due? s = some line) : task = .present s line := by
  cases task with
  | present t ref =>
      by_cases ht : t = s
      · subst ht
        obtain rfl :=
          Option.some.inj ((if_pos rfl : (present t ref).due? t = some ref).symm.trans h)
        rfl
      · exact absurd ((if_neg ht : (present t ref).due? s = none).symm.trans h) (by simp)
  | _ => exact absurd h (by simp [due?])

theorem due_append (s : SessionId) (tasks agenda : List Task) :
    due s (tasks ++ agenda) = due s tasks ++ due s agenda :=
  List.filterMap_append

theorem due_eq_nil (h : ∀ t ∈ tasks, t.due? s = none) : due s tasks = [] :=
  List.filterMap_eq_nil_iff.mpr h

theorem due_cons (task : Task) (agenda : List Task) :
    due s (task :: agenda) = (task.due? s).toList ++ due s agenda := by
  rw [due, List.filterMap_cons]
  cases task.due? s <;> rfl

theorem KeepsFrames.due {f : Task → Task} (h : KeepsFrames f) (s : SessionId)
    (agenda : List Task) : Task.due s (agenda.map f) = Task.due s agenda := by
  have hdue : due? s ∘ f = due? s := by
    funext task
    rw [Function.comp_apply]
    rcases h task with heq | ⟨sink, course, course', rfl, heq⟩ <;> rw [heq]
    rfl
  rw [Task.due, List.filterMap_map, hdue, Task.due]

theorem due_unwind (s : SessionId) (agenda : List Task) :
    due s ((Machine.unwind agenda).elim [] Prod.snd) <:+ due s agenda := by
  obtain ⟨before, heq, -⟩ := Machine.exists_eq_append_unwind agenda
  refine ⟨due s before, ?_⟩
  rw [← due_append, ← heq]

/-- Only input to a session makes a line of it due. -/
theorem Yields.due?_eq_none {t : Task} (h : task.Yields t) (hcue : task.cue? s = none) :
    t.due? s = none := by
  cases t with
  | present u line =>
      refine if_neg fun hu => ?_
      subst hu
      rcases h with ⟨title, rfl⟩ | rfl | ⟨key, destination, rfl⟩ <;>
        exact absurd hcue (by simp [cue?])
  | _ => rfl

theorem due_tasks (s : SessionId) (cue : Cue) (move : Session.Move) :
    due s (cue.tasks s move) =
      match move with
      | .display moved key index => [⟨s, moved.generation, key, index⟩]
      | _ => [] := by
  cases move with
  | display moved key index => cases cue <;> simp [due, due?, Cue.tasks, List.filterMap_cons]
  | _ => rfl

theorem sign?_tasks (w : World) (s : SessionId) (cue : Cue) (move : Session.Move) :
    (cue.tasks s move).filterMap (sign? w) = move.signs cue := by
  cases move with
  | display moved key index => cases cue <;> rfl
  | _ => rfl

end Task

namespace Machine

variable {m : Machine} {s : SessionId} {session : Session} {cue : Cue} {task : Task}
  {rest : List Task}

/-- The next task carried out with nothing else left to be done. -/
def alone (m : Machine) : Machine :=
  { world := m.world, agenda := m.agenda.take 1 : Machine }.step

/-- What is seen of the next step, if it is one of a session. -/
def sight (s : SessionId) (m : Machine) : Option Sight :=
  if m.agenda.head?.bind Task.actor? = some s then
    (m.step.world.session? s).map fun session =>
      { signs := m.alone.agenda.filterMap (Task.sign? m.world)
        log := m.alone.trace
        result := m.alone.result
        state := session.phase.name
        current := session.bookmark }
  else none

/-- The input that the next step hands to a session, and the number of lines that are due then. -/
def cued (s : SessionId) (m : Machine) : Option (Cue × ℕ) :=
  (m.agenda.head?.bind (Task.cue? s)).map (·, (Task.due s m.agenda).length)

/-! ## Steps on input -/

theorem step_of_cue (hagenda : m.agenda = cue.task s :: rest)
    (hs : m.world.session? s = some session) : m.step = { m with agenda := rest }.carryOut s
      cue.refusal (cue.move (m.world.configOf session) session) (cue.shown s) := by
  rw [step_eq hagenda]
  cases cue with
  | start title =>
      simp only [Cue.task, exec, start, hs]
      rfl
  | proceed =>
      simp only [Cue.task, exec, proceed, hs]
      rfl
  | follow key destination =>
      simp only [Cue.task, exec, follow, hs]
      rfl

/-- A move that does not fail sets its tasks in front of what is left to be done. -/
theorem agenda_carryOut {move : Session.Move} (m : Machine)
    (hmove : ∀ moved failure, move ≠ .fail moved failure) :
    (m.carryOut s cue.refusal move (cue.shown s)).agenda = cue.tasks s move ++ m.agenda := by
  cases move with
  | fail moved failure => exact absurd rfl (hmove moved failure)
  | _ => cases cue <;> rfl

/-- Done alone, a move comes to its own tasks, its own log and its own result. -/
theorem alone_of_cue (hagenda : m.agenda = cue.task s :: rest)
    (hs : m.world.session? s = some session) :
    m.alone.agenda = cue.tasks s (cue.move (m.world.configOf session) session) ∧
      m.alone.trace = (cue.move (m.world.configOf session) session).log cue ∧
      m.alone.result = (cue.move (m.world.configOf session) session).result cue := by
  have halone : m.alone = { world := m.world : Machine }.carryOut s cue.refusal
      (cue.move (m.world.configOf session) session) (cue.shown s) := by
    rw [alone, hagenda]
    exact step_of_cue rfl hs
  rw [halone]
  generalize cue.move (m.world.configOf session) session = move
  cases move <;> cases cue <;> exact ⟨rfl, rfl, rfl⟩

/-- On any agenda a move that does not fail sets the tasks that it sets alone. -/
theorem agenda_of_cue (hagenda : m.agenda = cue.task s :: rest)
    (hs : m.world.session? s = some session)
    (hmove : ∀ moved failure,
      cue.move (m.world.configOf session) session ≠ .fail moved failure) :
    m.step.agenda = m.alone.agenda ++ rest := by
  rw [step_of_cue hagenda hs, agenda_carryOut _ hmove, (alone_of_cue hagenda hs).1]

/-- Some input leaves the session as its move has it. -/
theorem session?_of_cue (hagenda : m.agenda = cue.task s :: rest)
    (hs : m.world.session? s = some session) : m.step.world.session? s =
      some ((cue.move (m.world.configOf session) session).outcome session) := by
  have hshown : ∀ moved line m', (cue.shown s moved line m').world = m'.world := by
    intro moved line m'
    cases cue <;> rfl
  rw [step_of_cue hagenda hs,
    session?_carryOut (m := { m with agenda := rest }) hs _ _ hshown, if_pos rfl]

theorem sight_of_cue (hagenda : m.agenda = cue.task s :: rest)
    (hs : m.world.session? s = some session) :
    sight s m = some (cue.sight (m.world.configOf session) session) := by
  have hactor : m.agenda.head?.bind Task.actor? = some s := by
    rw [hagenda]
    exact Task.actor?_task s cue
  obtain ⟨htasks, hlog, hresult⟩ := alone_of_cue hagenda hs
  rw [sight, if_pos hactor, session?_of_cue hagenda hs, htasks, hlog, hresult, Task.sign?_tasks]
  rfl

/-- Unless lines that were due are lost, some input adds the line that its move leads to. -/
theorem due_of_cue (hagenda : m.agenda = cue.task s :: rest)
    (hs : m.world.session? s = some session)
    (hkept : Task.due s rest <:+ Task.due s m.step.agenda) :
    Task.due s m.step.agenda =
      Task.due s (cue.tasks s (cue.move (m.world.configOf session) session)) ++
        Task.due s rest := by
  by_cases hfail : ∃ moved failure,
      cue.move (m.world.configOf session) session = .fail moved failure
  · obtain ⟨moved, failure, hmove⟩ := hfail
    have hcut : Task.due s m.step.agenda <:+ Task.due s rest := by
      rw [step_of_cue hagenda hs, hmove, carryOut, agenda_fail]
      exact Task.due_unwind s rest
    rw [hmove]
    exact (hkept.eq_of_length_le hcut.length_le).symm
  · rw [agenda_of_cue hagenda hs fun moved failure hmove => hfail ⟨moved, failure, hmove⟩,
      Task.due_append, (alone_of_cue hagenda hs).1]

/-! ## Other steps -/

/-- Unless lines that were due are lost, a step that is no input leaves those due that are due
below it. -/
theorem Sound.due_step (h : Sound m) (hagenda : m.agenda = task :: rest)
    (hcue : task.cue? s = none) (hkept : Task.due s rest <:+ Task.due s m.step.agenda) :
    Task.due s m.step.agenda = Task.due s rest := by
  obtain ⟨f, hf, ⟨tasks, htasks, hstep⟩ | ⟨before, hcut, -⟩⟩ := h.yields_or_cuts hagenda
  · rw [hstep, Task.due_append, Task.due_eq_nil fun t ht => (htasks t ht).due?_eq_none hcue,
      List.nil_append, hf.due]
  · have hsuffix : Task.due s m.step.agenda <:+ Task.due s rest := by
      rw [← hf.due s rest, hcut, Task.due_append]
      exact List.suffix_append ..
    exact (hkept.eq_of_length_le hsuffix.length_le).symm

/-- What is seen when a line is shown. -/
theorem sight_present {line : LineRef} (hagenda : m.agenda = .present s line :: rest)
    (hs : m.world.session? s = some session) :
    sight s m = some (session.showing (m.world.line line)) := by
  have hactor : m.agenda.head?.bind Task.actor? = some s := by
    rw [hagenda]
    rfl
  have hpresent : ∀ m' : Machine, m'.world = m.world → m'.present s line =
      m'.push [.showLine session.display line,
        .publish (.session s) { type := .dialogue .lineDisplayed, data := [("line", .line line)] },
        .fireShown s line] := by
    intro m' hworld
    rw [present, hworld, hs]
  have hstep : m.step.world = m.world := by
    have hstep := step_eq hagenda
    rw [exec, hpresent { m with agenda := rest } rfl] at hstep
    rw [hstep]
    rfl
  have halone : m.alone = { world := m.world : Machine }.push
      [.showLine session.display line,
        .publish (.session s) { type := .dialogue .lineDisplayed, data := [("line", .line line)] },
        .fireShown s line] := by
    rw [alone, hagenda]
    exact hpresent { world := m.world } rfl
  rw [sight, if_pos hactor, hstep, hs, halone]
  rfl

/-- Nothing is seen of a session at the steps of others. -/
theorem sight_eq_none (hagenda : m.agenda = task :: rest) (hcue : task.cue? s = none)
    (hdue : task.due? s = none) : sight s m = none := by
  refine if_neg ?_
  rw [hagenda]
  intro hactor
  rcases Task.actor?_eq_some hactor with ⟨cue, rfl⟩ | ⟨line, rfl⟩
  · rw [Task.cue?_task] at hcue
    exact absurd hcue (by simp)
  · exact absurd hdue (by simp [Task.due?])

theorem cued_of_cue (hagenda : m.agenda = cue.task s :: rest) :
    cued s m = some (cue, (Task.due s m.agenda).length) := by
  rw [cued, hagenda, List.head?_cons, Option.bind_some, Task.cue?_task, Option.map_some]

theorem cued_eq_none (hagenda : m.agenda = task :: rest) (hcue : task.cue? s = none) :
    cued s m = none := by
  rw [cued, hagenda, List.head?_cons, Option.bind_some, hcue, Option.map_none]

end Machine

end Parley
