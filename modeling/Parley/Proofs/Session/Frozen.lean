import Parley.Proofs.Session.Closing

/-!
# Finished sessions stay as they are

A finished session refuses to start a node, to go on, to follow an option and to finish again:
each is reported with a warning and leaves nothing behind.  So it stands where it stood, whatever
is called or reported afterwards (`finished_stays_put`).  Loading another conversation is the
exception, for it does not ask whether the session has finished (`finished_is_reloaded`).
-/

namespace Parley

/-- Whether a task has a session start a node, go on, follow an option or finish. -/
def Task.operates (s : SessionId) : Task → Bool
  | .start t _ | .proceed t | .follow t _ _ | .finish t _ => t = s
  | _ => false

namespace Machine

variable {x : ℕ → Machine} {m : Machine} {s : SessionId} {session session' : Session}
  {task : Task} {rest : List Task} {i j : ℕ}

/-- Whether the next step loads a graph into a session, or has the host work on a node of it. -/
def reworks (s : SessionId) (m : Machine) : Bool :=
  match m.agenda.head? with
  | some (.load t _ _) => t = s
  | some (.perform (.session name (.node ..))) => m.world.sessionNames.get? name = some s
  | _ => false

/-- An operation is refused: a warning is logged, and nothing else comes of it. -/
structure Refuses (m : Machine) : Prop where
  world : m.step.world = m.world
  agenda : m.step.agenda = m.agenda.tail
  warned : ∃ text, m.step.trace = m.trace ++ [.log .warning text none]

theorem Refuses.of_move {entry : LogEntry} (hs : m.world.session? s = some session)
    (hmove : Moves s m session (.refuse entry)) (hlevel : entry.level = .warning) :
    Refuses m := by
  obtain ⟨hworld, hagenda, htrace⟩ := step_of_refused hs hmove
  exact ⟨hworld, hagenda, entry.text, hlevel ▸ htrace⟩

theorem refuses_finish {onComplete : Option HandlerId} (hs : m.world.session? s = some session)
    (hfinished : session.finished = true) (hagenda : m.agenda = .finish s onComplete :: rest) :
    Refuses m := by
  have hstep : m.step = { m with agenda := rest }.report .warning
      "finish() called on an already finished session" := by
    rw [step_eq hagenda]
    simp only [exec, finish, hs, hfinished]
    rfl
  constructor
  · rw [hstep, world_report]
  · rw [hstep, hagenda]
    rfl
  · exact ⟨_, by rw [hstep]; rfl⟩

/-- A finished session refuses every operation. -/
theorem refuses_of_finished (hs : m.world.session? s = some session)
    (hfinished : session.finished = true) (hagenda : m.agenda = task :: rest)
    (htask : task.operates s = true) : Refuses m := by
  have hhead : m.agenda.head? = some task := by rw [hagenda]; rfl
  have hrefused : ∀ move, Moves s m session move → Refuses m := by
    intro move hmove
    obtain ⟨entry, rfl, hlevel⟩ := hmove.of.refused hfinished
    exact .of_move hs hmove hlevel
  cases task with
  | start t title =>
      obtain rfl : t = s := by simpa [Task.operates] using htask
      exact hrefused _ (.start hhead)
  | proceed t =>
      obtain rfl : t = s := by simpa [Task.operates] using htask
      exact hrefused _ (.proceed hhead)
  | follow t key destination =>
      obtain rfl : t = s := by simpa [Task.operates] using htask
      exact hrefused _ (.follow hhead)
  | finish t onComplete =>
      obtain rfl : t = s := by simpa [Task.operates] using htask
      exact refuses_finish hs hfinished hagenda
  | _ => exact absurd htask (by simp [Task.operates])

/-- Nothing but loading and work on its nodes moves a finished session. -/
theorem Passage.standing_eq (h : Passage s m session session')
    (hfinished : session.finished = true) (hleft : reworks s m = false) :
    session'.standing = session.standing := by
  cases h with
  | aside h => exact h
  | moved hmove h =>
      obtain ⟨entry, rfl, -⟩ := hmove.of.refused hfinished
      rw [h]
      rfl
  | loaded hhead hgraph h => exact absurd hleft (by simp [reworks, hhead])
  | finished hhead h =>
      rw [h, ← hfinished]
      rfl
  | edited hhead hname hstored hrun h => exact absurd hleft (by simp [reworks, hhead, hname])

theorem Execution.standing_of_finished (h : Execution x)
    (hs : (x i).world.session? s = some session) (hfinished : session.finished = true)
    (hij : i ≤ j) (hleft : ∀ k, i ≤ k → k < j → reworks s (x k) = false) :
    ∃ session', (x j).world.session? s = some session' ∧
      session'.standing = session.standing := by
  induction j, hij using Nat.le_induction with
  | base => exact ⟨session, hs, rfl⟩
  | succ j hij ih =>
      obtain ⟨found, hfound, hstanding⟩ := ih fun k hik hkj => hleft k hik (by omega)
      have hdone : found.finished = true := (congrArg Standing.finished hstanding).trans hfinished
      obtain ⟨session', hs', hpassage⟩ :=
        ((h.reachable j).sound.passes_next (h.next j) s).passage found hfound
      have hsame := hpassage.standing_eq hdone (hleft j hij (Nat.lt_succ_self j))
      exact ⟨session', hs', hsame.trans hstanding⟩

/-- A node is not started in a finished session, and the caller is told so. -/
theorem result_start_of_finished {title : String} (hs : m.world.session? s = some session)
    (hfinished : session.finished = true) (hhead : m.agenda.head? = some (.start s title)) :
    m.step.result = .ok (.flag false) := by
  exact result_start_of_refused hs hhead (Session.start_of_finished hfinished title)

/-- Unless a conversation is loaded into it, or the host works on its nodes, a finished session
keeps its phase, its graph and all cursors for good.  Each operation on it is refused with a
warning and leaves nothing to be done; starting a node answers that it has failed.  It tells its
display of no node and no end any more, and if no line of it was waiting, it shows none. -/
theorem finished_stays_put (h : Execution x) (hs : (x i).world.session? s = some session)
    (hfinished : session.finished = true) (hij : i ≤ j)
    (hleft : ∀ k, i ≤ k → k < j → reworks s (x k) = false) :
    (∃ session', (x j).world.session? s = some session' ∧
        session'.standing = session.standing) ∧
      (∀ task rest, (x j).agenda = task :: rest → task.operates s = true → Refuses (x j)) ∧
      (∀ title, (x j).agenda.head? = some (.start s title) →
        (x j).step.result = .ok (.flag false)) ∧
      (∀ call ∈ asked s (x j), ∃ d line, call = .showLine d line) ∧
      (Task.waiting s (x i).agenda = [] → displayed s (x j) = none) := by
  obtain ⟨session', hs', hstanding⟩ := h.standing_of_finished hs hfinished hij hleft
  have hfinished' : session'.finished = true :=
    (congrArg Standing.finished hstanding).trans hfinished
  refine ⟨⟨session', hs', hstanding⟩, ?_, ?_, ?_, ?_⟩
  · intro task rest hagenda htask
    exact refuses_of_finished hs' hfinished' hagenda htask
  · intro title hhead
    exact result_start_of_finished hs' hfinished' hhead
  · intro call hcall
    exact calls_of_finished hs' hfinished' hcall
  · intro hnone
    exact h.displayed_of_finished hs hfinished hij hnone

/-- A host that goes on with a conversation that it has finished. -/
def belated : ℕ → Machine :=
  course { world := World.ofHandlers [] }
    [.newDisplay "c" "c" (.recording {} false),
      .newSession "s" "c" none (.graph (some
        (.array [.object [("title", .string "A"), ("body", .string "one\ntwo")]]))),
      .session "s" (.start "A"), .session "s" (.finish none), .session "s" .proceed,
      .session "s" (.load (.array [.object [("title", .string "B")]]) none)]

theorem finished_stays_put_belated :
    Execution belated ∧ (belated 42).agenda = [] ∧ Refuses (belated 44) ∧
      ∃ session session', (belated 42).world.session? ⟨0⟩ = some session ∧
        session.finished = true ∧ (belated 44).world.session? ⟨0⟩ = some session' ∧
        session'.standing = session.standing := by
  have h : Execution belated := execution_course (initial_ofHandlers _) _
  have hdone : ((belated 42).world.session? ⟨0⟩).map (·.finished) = some true := by
    decide +kernel
  obtain ⟨session, hs, hfinished⟩ := Option.map_eq_some_iff.mp hdone
  have hleft : ∀ k < 44, reworks ⟨0⟩ (belated k) = false := by decide +kernel
  obtain ⟨⟨session', hs', hstanding⟩, hrefuses, -⟩ :=
    finished_stays_put h hs hfinished (by omega : 42 ≤ 44) fun k _ hk => hleft k hk
  have hhead : ((belated 44).agenda.head?.map (Task.operates ⟨0⟩)) = some true := by
    decide +kernel
  obtain ⟨task, htask, hoperates⟩ := Option.map_eq_some_iff.mp hhead
  obtain ⟨rest, hagenda⟩ := List.head?_eq_some_iff.mp htask
  have hrest : (belated 42).agenda.isEmpty = true := by decide +kernel
  exact ⟨h, List.isEmpty_iff.mp hrest, hrefuses task rest hagenda hoperates, session, session',
    hs, hfinished, hs', hstanding⟩

/-- Loading a conversation moves a session that has long been finished. -/
theorem finished_is_reloaded :
    Execution belated ∧ (belated 42).agenda.isEmpty = true ∧
      ((belated 42).world.session? ⟨0⟩).map (fun session =>
        (session.finished, session.phase, session.graph.map Graph.titles)) =
          some (true, .inNode "A", some ["A"]) ∧
      ((belated 52).world.session? ⟨0⟩).map (fun session =>
        (session.finished, session.phase, session.graph.map Graph.titles)) =
          some (true, .idle, some ["B"]) :=
  ⟨execution_course (initial_ofHandlers _) _, by decide +kernel, by decide +kernel,
    by decide +kernel⟩

end Machine

end Parley
