import Parley.Proofs.Session.Waiting

/-!
# A session after its closing

A finished session refuses every move, so it never again tells its display of a new node or of
the end of a conversation.  A line is different: the move that fixes it and the call that shows
it lie apart, and nothing looks again whether the session has finished in between
(`shown_after_closing`).  The lines shown after the closing are lines that were waiting when the
session finished, each at most once and in their order; if none was waiting, the display is not
called any more (`silent_after_closing`).

## Strategy

Only a move makes a line wait, and a refused move makes none (`Flow`).  So from the moment a
session is finished the list of its waiting lines can only lose lines, by showing them or by a
failure.
-/

namespace Parley

namespace Session

variable {session : Session}

/-! ## Finished sessions refuse to move -/

theorem start_of_finished (h : session.finished = true) (title : String) :
    session.start title =
      .refuse ⟨.warning, "start_node('" ++ title ++ "') called on a finished session"⟩ :=
  if_pos h

theorem activeNode?_of_finished (h : session.finished = true) : session.activeNode? = none :=
  if_pos h

theorem proceed_of_finished (h : session.finished = true) :
    session.proceed = .refuse (session.ignored "continue_pressed") := by
  rw [proceed, activeNode?_of_finished h]

theorem follow_of_finished (h : session.finished = true) (config : Config)
    (option destination : String) :
    session.follow config option destination = .refuse (session.ignored "option_selected") := by
  rw [follow, activeNode?_of_finished h]

theorem Move.Of.refused {move : Move} (hmove : Move.Of session move)
    (h : session.finished = true) : ∃ entry, move = .refuse entry ∧ entry.level = .warning := by
  cases hmove with
  | start title => exact ⟨_, start_of_finished h title, rfl⟩
  | proceed => exact ⟨_, proceed_of_finished h, rfl⟩
  | follow config option destination =>
      exact ⟨_, follow_of_finished h config option destination, rfl⟩

end Session

/-! ## Calling a display -/

namespace Task

/-- Whether a task calls a display to show something. -/
def isCall : Task → Bool
  | .showNode .. | .showLine .. | .showOver _ => true
  | _ => false

end Task

namespace Machine

variable {x : ℕ → Machine} {m : Machine} {s : SessionId} {session : Session} {task : Task}
  {rest : List Task} {i j n : ℕ}

/-- The tasks that the next step puts in front of those that are left. -/
def added (m : Machine) : List Task :=
  m.step.agenda.take (m.step.agenda.length - m.agenda.tail.length)

/-- The calls of its display that the next step has a session make. -/
def asked (s : SessionId) (m : Machine) : List Task :=
  if m.agenda.head?.bind Task.actor? = some s then m.added.filter Task.isCall else []

/-- Whether the next step asks a display to close for a session. -/
def closes (s : SessionId) (m : Machine) : Bool :=
  match m.agenda.head? with
  | some (.close _ (some (.session t _))) => t = s
  | _ => false

theorem added_eq_of_map {tasks : List Task} {f : Task → Task} (hagenda : m.agenda = task :: rest)
    (hstep : m.step.agenda = tasks ++ rest.map f) : m.added = tasks := by
  rw [added, hstep, hagenda, List.tail_cons, List.length_append, List.length_map,
    Nat.add_sub_cancel, List.take_left]

theorem added_eq {tasks : List Task} (hagenda : m.agenda = task :: rest)
    (hstep : m.step.agenda = tasks ++ rest) : m.added = tasks :=
  added_eq_of_map (f := id) hagenda (by rw [hstep, List.map_id])

theorem added_eq_nil (hagenda : m.agenda = task :: rest)
    (hcut : m.step.agenda.length ≤ rest.length) : m.added = [] := by
  rw [added, hagenda, List.tail_cons, Nat.sub_eq_zero_of_le hcut, List.take_zero]

/-- A refused move is logged, and that is all there is to it. -/
theorem step_of_refused {entry : LogEntry} (hs : m.world.session? s = some session)
    (hmove : Moves s m session (.refuse entry)) :
    m.step.world = m.world ∧ m.step.agenda = m.agenda.tail ∧
      m.step.trace = m.trace ++ [.log entry.level entry.text none] := by
  obtain ⟨refused, shown, -, hstep⟩ := hmove.exists_step_eq hs
  rw [hstep]
  cases refused <;> exact ⟨rfl, rfl, rfl⟩

/-- The caller is told that a node was not started. -/
theorem result_start_of_refused {title : String} {entry : LogEntry}
    (hs : m.world.session? s = some session) (hhead : m.agenda.head? = some (.start s title))
    (hrefuse : session.start title = .refuse entry) : m.step.result = .ok (.flag false) := by
  obtain ⟨rest, hagenda⟩ := List.head?_eq_some_iff.mp hhead
  rw [step_eq hagenda]
  simp only [exec, start, hs, hrefuse, carryOut]
  rfl

/-- A step that adds no work asks nothing of a display. -/
theorem asked_eq_nil (hcut : m.step.agenda.length ≤ m.agenda.tail.length) : asked s m = [] := by
  have hadded : m.added = [] := by
    rw [added, Nat.sub_eq_zero_of_le hcut, List.take_zero]
  rw [asked, hadded]
  split <;> rfl

theorem asked_of_refused {entry : LogEntry} (hs : m.world.session? s = some session)
    (hmove : Moves s m session (.refuse entry)) : asked s m = [] := by
  obtain ⟨-, hagenda, -⟩ := step_of_refused hs hmove
  exact asked_eq_nil (by rw [hagenda])

/-- Showing a line is a call of the display, a report, and the actions of the line. -/
theorem agenda_of_present {line : LineRef} (hs : m.world.session? s = some session)
    (hagenda : m.agenda = .present s line :: rest) :
    m.step.agenda = [.showLine session.display line,
      .publish (.session s) { type := .dialogue .lineDisplayed, data := [("line", .line line)] },
      .fireShown s line] ++ rest := by
  rw [step_eq hagenda]
  simp only [exec, present, hs]
  rfl

theorem asked_present {line : LineRef} (hs : m.world.session? s = some session)
    (hagenda : m.agenda = .present s line :: rest) :
    asked s m = [.showLine session.display line] := by
  rw [asked, hagenda, added_eq hagenda (agenda_of_present hs hagenda)]
  exact if_pos rfl

/-- A finished session makes no call but to show a line that it was about to show. -/
theorem asked_of_finished (hs : m.world.session? s = some session)
    (hfinished : session.finished = true) :
    asked s m = [] ∨ ∃ line, m.agenda.head? = some (.present s line) ∧
      asked s m = [.showLine session.display line] := by
  have hrefused : ∀ move, Moves s m session move → asked s m = [] := by
    intro move hmove
    obtain ⟨entry, rfl, -⟩ := hmove.of.refused hfinished
    exact asked_of_refused hs hmove
  cases hagenda : m.agenda with
  | nil => exact .inl (by rw [asked, hagenda]; rfl)
  | cons task rest =>
      have hhead : m.agenda.head? = some task := by rw [hagenda]; rfl
      by_cases hactor : task.actor? = some s
      · cases task with
        | start t title =>
            obtain rfl : t = s := Option.some.inj hactor
            exact .inl (hrefused _ (.start hhead))
        | proceed t =>
            obtain rfl : t = s := Option.some.inj hactor
            exact .inl (hrefused _ (.proceed hhead))
        | follow t key destination =>
            obtain rfl : t = s := Option.some.inj hactor
            exact .inl (hrefused _ (.follow hhead))
        | present t line =>
            obtain rfl : t = s := Option.some.inj hactor
            exact .inr ⟨line, rfl, asked_present hs hagenda⟩
        | _ => exact absurd hactor (by simp [Task.actor?])
      · refine .inl (if_neg ?_)
        rw [hhead]
        exact hactor

/-! ## Lines that wait when a session finishes -/

theorem Execution.finished_of_le (h : Execution x) (hs : (x i).world.session? s = some session)
    (hfinished : session.finished = true) (hij : i ≤ j) :
    ∃ session', (x j).world.session? s = some session' ∧ session'.finished = true := by
  induction j, hij using Nat.le_induction with
  | base => exact ⟨session, hs, hfinished⟩
  | succ j hij ih =>
      obtain ⟨found, hfound, hdone⟩ := ih
      obtain ⟨session', hs', hpassage⟩ :=
        ((h.reachable j).sound.passes_next (h.next j) s).passage found hfound
      exact ⟨session', hs', hpassage.finished_of_finished hdone⟩

/-- A step of a finished session shows the next of its waiting lines, or loses some. -/
theorem waiting_of_finished (h : Execution x) (hs : (x i).world.session? s = some session)
    (hfinished : session.finished = true) :
    ((displayed s (x i)).toList ++ Task.waiting s (x (i + 1)).agenda).Sublist
      (Task.waiting s (x i).agenda) := by
  generalize hnext : x (i + 1) = m
  cases (hnext ▸ h.next i : Next (x i) m) with
  | host hagenda step => simp [displayed, hagenda, Task.waiting, Task.line?]
  | step =>
      cases (h.reachable i).sound.flow s with
      | stays hdisplayed hwaiting =>
          rw [hdisplayed, hwaiting]
          exact .refl _
      | shows hdisplayed hwaiting =>
          rw [hdisplayed, hwaiting]
          exact .refl _
      | loses hdisplayed hsuffix =>
          rw [hdisplayed]
          exact hsuffix.sublist
      | adds hdisplayed hfound hmove =>
          obtain rfl : session = _ := Option.some.inj (hs.symm.trans hfound)
          obtain ⟨entry, hentry, -⟩ := hmove.of.refused hfinished
          exact absurd hentry (by simp)

theorem Execution.shown_sublist_waiting (h : Execution x)
    (hs : (x i).world.session? s = some session) (hfinished : session.finished = true) :
    ((stretch x i n).filterMap (displayed s) ++ Task.waiting s (x (i + n)).agenda).Sublist
      (Task.waiting s (x i).agenda) := by
  induction n generalizing i session with
  | zero => exact .refl _
  | succ n ih =>
      obtain ⟨session', hs', hfinished'⟩ := h.finished_of_le hs hfinished (Nat.le_succ i)
      have hlater := ih hs' hfinished'
      have hnow := waiting_of_finished h hs hfinished
      have hlast : i + (n + 1) = i.succ + n := by omega
      rw [stretch_succ, List.filterMap_cons, hlast]
      cases hdisplayed : displayed s (x i) with
      | none =>
          rw [hdisplayed] at hnow
          exact hlater.trans hnow
      | some line =>
          rw [hdisplayed] at hnow
          exact (hlater.cons_cons line).trans hnow

theorem calls_of_finished {call : Task} (hs : m.world.session? s = some session)
    (hfinished : session.finished = true) (hcall : call ∈ asked s m) :
    ∃ d line, call = .showLine d line := by
  rcases asked_of_finished hs hfinished with hnone | ⟨line, -, hline⟩
  · rw [hnone] at hcall
    exact absurd hcall List.not_mem_nil
  · rw [hline, List.mem_singleton] at hcall
    exact ⟨_, line, hcall⟩

/-- If no line of a session waits when it is finished, none is shown later. -/
theorem Execution.displayed_of_finished (h : Execution x)
    (hs : (x i).world.session? s = some session) (hfinished : session.finished = true)
    (hij : i ≤ j) (hnone : Task.waiting s (x i).agenda = []) : displayed s (x j) = none := by
  have hshown := h.shown_sublist_waiting (n := j - i + 1) hs hfinished
  rw [hnone, List.sublist_nil, List.append_eq_nil_iff, List.filterMap_eq_nil_iff] at hshown
  refine hshown.1 (x j) (List.mem_map.mpr ⟨j - i, by simp, ?_⟩)
  rw [Nat.add_sub_cancel' hij]

/-- Once a session is finished, it calls its display only to show lines that were waiting to be
shown at that time, each at most once and in their order. -/
theorem silent_after_closing (h : Execution x) (hs : (x i).world.session? s = some session)
    (hfinished : session.finished = true) :
    (∀ j ≥ i, ∀ call ∈ asked s (x j), ∃ d line, call = .showLine d line) ∧
      ∀ n, ((stretch x i n).filterMap (displayed s)).Sublist (Task.waiting s (x i).agenda) := by
  constructor
  · intro j hij call hcall
    obtain ⟨session', hs', hfinished'⟩ := h.finished_of_le hs hfinished hij
    exact calls_of_finished hs' hfinished' hcall
  · intro n
    exact (List.sublist_append_left _ _).trans (h.shown_sublist_waiting hs hfinished)

/-- A host that finishes the session as soon as it is told of a new node. -/
def abrupt : ℕ → Machine :=
  course { world := World.ofHandlers [("stop", [(1, [.session "s" (.finish none)])])] }
    [.newDisplay "c" "c" (.recording { node := some "stop" } false),
      .newSession "s" "c" none (.graph (some
        (.array [.object [("title", .string "A"), ("body", .string "one\ntwo")]]))),
      .session "s" (.start "A")]

/-- When the session is finished its first line waits to be shown, and nothing else is left for the
display to be told. -/
theorem silent_after_closing_abrupt :
    Execution abrupt ∧ ∃ session, (abrupt 14).world.session? ⟨0⟩ = some session ∧
      session.finished = true ∧ Task.waiting ⟨0⟩ (abrupt 14).agenda = [⟨⟨0⟩, 0, "A", 0⟩] ∧
      (∀ j ≥ 14, ∀ call ∈ asked ⟨0⟩ (abrupt j), ∃ d line, call = .showLine d line) ∧
      ∀ n, ((stretch abrupt 14 n).filterMap (displayed ⟨0⟩)).Sublist [⟨⟨0⟩, 0, "A", 0⟩] := by
  have h : Execution abrupt := execution_course (initial_ofHandlers _) _
  have hdone : ((abrupt 14).world.session? ⟨0⟩).map (·.finished) = some true := by
    decide +kernel
  obtain ⟨session, hs, hfinished⟩ := Option.map_eq_some_iff.mp hdone
  have hwaits : Task.waiting ⟨0⟩ (abrupt 14).agenda = [⟨⟨0⟩, 0, "A", 0⟩] := by decide +kernel
  obtain ⟨hcalls, hshown⟩ := silent_after_closing h hs hfinished
  rw [hwaits] at hshown
  exact ⟨h, session, hs, hfinished, hwaits, hcalls, hshown⟩

/-- A line that waited when the session finished is shown after the display has been asked to
close. -/
theorem shown_after_closing :
    Execution abrupt ∧ closes ⟨0⟩ (abrupt 14) = true ∧
      ((abrupt 14).world.session? ⟨0⟩).map (·.finished) = some true ∧
      displayed ⟨0⟩ (abrupt 34) = some ⟨⟨0⟩, 0, "A", 0⟩ :=
  ⟨execution_course (initial_ofHandlers _) _, by decide +kernel, by decide +kernel,
    by decide +kernel⟩

end Machine

end Parley
