import Parley.Proofs.Session.Passage

/-!
# The lines that wait to be shown

A move fixes the line that it leads to and leaves it on the agenda; the line is shown once the
display has been told of the node and the event has been reported.  Until then it waits.  Each
step adds a line by a move, shows the first one, loses some by a failure, or leaves the lines
that wait as they are (`Sound.flow`).
-/

namespace Parley

namespace Task

/-- The line that a task is going to show. -/
def line? : Task → Option LineRef
  | .present _ line | .showLine _ line => some line
  | _ => none

/-- What an input leaves for when the line it leads to has been shown. -/
def behind : Task → List Task
  | .start .. => [.answer (.flag true)]
  | _ => []

theorem line?_of_mem_behind {task other : Task} (h : other ∈ task.behind) : other.line? = none := by
  cases task with
  | start s title =>
      obtain rfl := List.mem_singleton.mp h
      rfl
  | _ => exact absurd h List.not_mem_nil

/-- The lines of a session that an agenda is going to show, the next one first. -/
def waiting (s : SessionId) (agenda : List Task) : List LineRef :=
  (agenda.filterMap line?).filter fun line => line.session = s

variable {s : SessionId} {tasks agenda : List Task}

theorem waiting_append (s : SessionId) (tasks agenda : List Task) :
    waiting s (tasks ++ agenda) = waiting s tasks ++ waiting s agenda := by
  simp [waiting]

theorem waiting_eq_nil (h : ∀ t ∈ tasks, t.line? = none) : waiting s tasks = [] := by
  rw [waiting, List.filterMap_eq_nil_iff.mpr h, List.filter_nil]

theorem waiting_cons_of_none {task : Task} (h : task.line? = none) :
    waiting s (task :: agenda) = waiting s agenda := by
  simp [waiting, h]

theorem waiting_cons_of_line {task : Task} {line : LineRef} (h : task.line? = some line) :
    waiting s (task :: agenda) =
      if line.session = s then line :: waiting s agenda else waiting s agenda := by
  simp [waiting, h, List.filter_cons]

theorem KeepsFrames.line? {f : Task → Task} (h : KeepsFrames f) (task : Task) :
    (f task).line? = task.line? := by
  rcases h task with heq | ⟨sink, course, course', rfl, heq⟩ <;> rw [heq]
  rfl

theorem waiting_map {f : Task → Task} (h : KeepsFrames f) (s : SessionId)
    (agenda : List Task) : waiting s (agenda.map f) = waiting s agenda := by
  have hline : line? ∘ f = line? := funext h.line?
  rw [waiting, List.filterMap_map, hline, waiting]

theorem line?_of_isFrame {task : Task} (h : task.isFrame = true) : task.line? = none := by
  cases task <;> first | rfl | exact absurd h (by simp)

theorem waiting_unwind (s : SessionId) (agenda : List Task) :
    waiting s ((Machine.unwind agenda).elim [] Prod.snd) <:+ waiting s agenda := by
  obtain ⟨before, heq, -⟩ := Machine.exists_eq_append_unwind agenda
  refine ⟨waiting s before, ?_⟩
  rw [← waiting_append, ← heq]

/-- Only a move or the task of showing a line puts a line on the agenda. -/
theorem Yields.line?_eq_none {task t : Task} (h : task.Yields t) (hmoves : ∀ s, ¬ task.Moves s)
    (hpresent : ∀ s line, task ≠ .present s line) : t.line? = none := by
  cases t with
  | present s line =>
      rcases h with ⟨title, rfl⟩ | rfl | ⟨key, destination, rfl⟩
      exacts [absurd (.start title) (hmoves s), absurd .proceed (hmoves s),
        absurd (.follow key destination) (hmoves s)]
  | showLine d line =>
      obtain ⟨s, rfl⟩ := h
      exact absurd rfl (hpresent s line)
  | _ => rfl

end Task

namespace Machine

variable {m : Machine} {s t : SessionId} {session : Session} {task : Task} {rest : List Task}

/-- The line of a session that the next step gives to a display, if it does. -/
def displayed (s : SessionId) (m : Machine) : Option LineRef :=
  match m.agenda.head? with
  | some (.showLine _ line) => if line.session = s then some line else none
  | _ => none

/-- What the next step does to the lines of a session that wait to be shown. -/
inductive Flow (s : SessionId) (m : Machine) : Prop
  | stays (hdisplayed : displayed s m = none)
      (h : Task.waiting s m.step.agenda = Task.waiting s m.agenda)
  | adds {session moved : Session} {key : String} {index : ℕ} (hdisplayed : displayed s m = none)
      (hs : m.world.session? s = some session)
      (hmove : Moves s m session (.display moved key index))
      (hmoved : m.step.world.session? s = some moved)
      (h : Task.waiting s m.step.agenda =
        ⟨s, moved.generation, key, index⟩ :: Task.waiting s m.agenda)
  | shows {line : LineRef} (hdisplayed : displayed s m = some line)
      (h : Task.waiting s m.agenda = line :: Task.waiting s m.step.agenda)
  | loses (hdisplayed : displayed s m = none)
      (h : Task.waiting s m.step.agenda <:+ Task.waiting s m.agenda)

theorem displayed_of_head (hagenda : m.agenda = task :: rest)
    (htask : ∀ d line, task ≠ .showLine d line) : displayed s m = none := by
  rw [displayed, hagenda]
  cases task with
  | showLine d line => exact absurd rfl (htask d line)
  | _ => rfl

/-- A task that shows nothing puts nothing to be shown in its place. -/
theorem Flow.of_tasks {tasks : List Task} {f : Task → Task} (hagenda : m.agenda = task :: rest)
    (htask : task.line? = none) (htasks : ∀ t ∈ tasks, t.line? = none)
    (hf : Task.KeepsFrames f) (hstep : m.step.agenda = tasks ++ rest.map f) : Flow s m := by
  refine .stays (displayed_of_head hagenda ?_) ?_
  · rintro d line rfl
    exact absurd htask (by simp [Task.line?])
  · rw [hstep, hagenda, Task.waiting_append, Task.waiting_eq_nil htasks, List.nil_append,
      Task.waiting_map hf, Task.waiting_cons_of_none htask]

theorem Flow.of_fail {m' : Machine} {failure : Failure} (hagenda : m.agenda = task :: rest)
    (htask : ∀ d line, task ≠ .showLine d line) (hm' : m'.agenda = rest)
    (hstep : m.step = m'.fail failure) : Flow s m := by
  refine .loses (displayed_of_head hagenda htask) ?_
  have hrest : Task.waiting s rest <:+ Task.waiting s m.agenda := by
    rw [hagenda, ← List.singleton_append, Task.waiting_append]
    exact List.suffix_append ..
  rw [hstep, agenda_fail, hm']
  exact (Task.waiting_unwind s rest).trans hrest

/-! ## The tasks that show lines -/

/-- What a move that leads to a line leaves behind: the session as moved, and the line among
tasks that show nothing. -/
structure Leads (t : SessionId) (m : Machine) (moved : Session) (line : LineRef) : Prop where
  session : m.step.world.session? t = some moved
  agenda : ∃ task rest before, m.agenda = task :: rest ∧ task.line? = none ∧
    (∀ other ∈ before, other.line? = none) ∧
    m.step.agenda = before ++ .present t line :: (task.behind ++ rest)

theorem leads_of_display {moved : Session} {key : String} {index : ℕ}
    (hs : m.world.session? t = some session)
    (hmove : Moves t m session (.display moved key index)) :
    Leads t m moved ⟨t, moved.generation, key, index⟩ := by
  have hset : ∀ m' : Machine, m'.world = m.world →
      (m'.setSession t moved).world.session? t = some moved := by
    intro m' hworld
    rw [session?_setSession (hworld ▸ hs), if_pos rfl]
  generalize hdisplay : Session.Move.display moved key index = move at hmove
  obtain ⟨task, rest, hagenda⟩ : ∃ task rest, m.agenda = task :: rest := by
    cases hagenda : m.agenda with
    | nil => cases hmove <;> rename_i hhead <;> simp [hagenda] at hhead
    | cons task rest => exact ⟨task, rest, rfl⟩
  have hstep := step_eq hagenda
  cases hmove with
  | start hhead =>
      obtain rfl : task = .start t _ := by simpa [hagenda] using hhead
      simp only [exec, start, hs, ← hdisplay, carryOut] at hstep
      let title := (moved.currentNode?).elim "" Node.title
      let told : List Task := [.showNode moved.display title, .publish (.session t)
        { type := .dialogue .nodeEntered, data := [("node", .node title)] }]
      refine ⟨by rw [hstep]; exact hset _ rfl, _, rest, told, hagenda, rfl,
        by simp [told, Task.line?], ?_⟩
      rw [hstep]
      rfl
  | proceed hhead =>
      obtain rfl : task = .proceed t := by simpa [hagenda] using hhead
      simp only [exec, proceed, hs, ← hdisplay, carryOut] at hstep
      refine ⟨by rw [hstep]; exact hset _ rfl, _, rest, [], hagenda, rfl, by simp, ?_⟩
      rw [hstep]
      rfl
  | follow hhead =>
      obtain rfl : task = .follow t _ _ := by simpa [hagenda] using hhead
      have hmove : session.follow (World.configOf m.world session) _ _ = _ := hdisplay.symm
      simp only [exec, follow, hs, hmove, carryOut] at hstep
      refine ⟨by rw [hstep]; exact hset _ rfl, _, rest, [], hagenda, rfl, by simp, ?_⟩
      rw [hstep]
      rfl

theorem Leads.waiting {moved : Session} {line : LineRef} (h : Leads t m moved line)
    (s : SessionId) : Task.waiting s m.step.agenda =
      if line.session = s then line :: Task.waiting s m.agenda else Task.waiting s m.agenda := by
  obtain ⟨task, rest, before, hagenda, htask, hnone, hstep⟩ := h.agenda
  rw [hstep, hagenda, Task.waiting_append, Task.waiting_eq_nil hnone, List.nil_append,
    Task.waiting_cons_of_line rfl, Task.waiting_append,
    Task.waiting_eq_nil fun _ => Task.line?_of_mem_behind, List.nil_append,
    Task.waiting_cons_of_none htask]

/-- Other moves leave no line. -/
theorem Flow.of_carryOut {refused : Option Answer} {move : Session.Move}
    {shown : Session → LineRef → Machine → Machine} (hs : m.world.session? t = some session)
    (hagenda : m.agenda = task :: rest) (htask : task.line? = none)
    (hmove : Moves t m session move)
    (hstep : m.step = { m with agenda := rest }.carryOut t refused move shown) : Flow s m := by
  have hhead : ∀ d line, task ≠ .showLine d line := by
    rintro d line rfl
    exact absurd htask (by simp [Task.line?])
  cases move with
  | refuse entry =>
      have hsame : m.step.agenda = [] ++ rest.map id := by
        rw [hstep, List.nil_append, List.map_id]
        cases refused <;> rfl
      exact .of_tasks hagenda htask (by simp) Task.keepsFrames_id hsame
  | fail moved failure => exact .of_fail hagenda hhead rfl hstep
  | ended moved =>
      have hover : m.step.agenda = [.showOver moved.display,
          .publish (.session t) { type := .dialogue .dialogueOver }] ++ rest.map id := by
        rw [hstep, List.map_id]
        rfl
      exact .of_tasks hagenda htask (by simp [Task.line?]) Task.keepsFrames_id hover
  | display moved key index =>
      have hleads := leads_of_display hs hmove
      have hwaiting := hleads.waiting s
      by_cases ht : t = s
      · subst ht
        rw [if_pos rfl] at hwaiting
        exact .adds (displayed_of_head hagenda hhead) hs hmove hleads.session hwaiting
      · rw [if_neg ht] at hwaiting
        exact .stays (displayed_of_head hagenda hhead) hwaiting

theorem flow_of_moves (hagenda : m.agenda = task :: rest) (htask : task.Moves t) :
    Flow s m := by
  have hline : task.line? = none := by cases htask <;> rfl
  cases ht : m.world.session? t with
  | none =>
      refine .of_fail hagenda ?_ rfl (step_of_missing hagenda htask ht)
      rintro d line rfl
      exact absurd hline (by simp [Task.line?])
  | some session =>
      obtain ⟨move, hmove⟩ := exists_moves hagenda htask session
      obtain ⟨refused, shown, -, hstep⟩ := hmove.exists_step_eq ht
      rw [hagenda, List.tail_cons] at hstep
      exact .of_carryOut ht hagenda hline hmove hstep

theorem flow_present {line : LineRef} (hagenda : m.agenda = .present t line :: rest) :
    Flow s m := by
  have hstep := step_eq hagenda
  dsimp only [exec, present] at hstep
  split at hstep
  · exact .of_fail hagenda (by simp) rfl hstep
  · refine .stays (displayed_of_head hagenda (by simp)) ?_
    -- The line goes on waiting, now for its display.
    have hpushed : ∀ display event, Task.waiting s
        [.showLine display line, .publish (.session t) event, .fireShown t line] =
          if line.session = s then [line] else [] := by
      intro display event
      rw [Task.waiting_cons_of_line rfl, Task.waiting_eq_nil (by simp [Task.line?])]
    rw [hstep, hagenda, agenda_push, Task.waiting_append, hpushed,
      Task.waiting_cons_of_line rfl]
    split <;> rfl

theorem flow_showLine {d : DisplayId} {line : LineRef}
    (hagenda : m.agenda = .showLine d line :: rest) : Flow s m := by
  have hstepped : Task.waiting s m.step.agenda = Task.waiting s rest := by
    rw [step_eq hagenda]
    dsimp only [exec, showLine]
    split
    · rfl
    · split
      · rw [agenda_push, Task.waiting_append, Task.waiting_eq_nil (by simp [Task.line?])]
        rfl
      · rfl
  have hwaiting : Task.waiting s m.agenda =
      if line.session = s then line :: Task.waiting s rest else Task.waiting s rest := by
    rw [hagenda, Task.waiting_cons_of_line rfl]
  have hdisplayed : displayed s m = if line.session = s then some line else none := by
    rw [displayed, hagenda]
    rfl
  by_cases hline : line.session = s
  · rw [if_pos hline] at hwaiting hdisplayed
    exact .shows hdisplayed (by rw [hwaiting, hstepped])
  · rw [if_neg hline] at hwaiting hdisplayed
    exact .stays hdisplayed (by rw [hwaiting, hstepped])

/-! ## Every step -/

theorem Sound.flow (h : Sound m) (s : SessionId) : Flow s m := by
  cases hagenda : m.agenda with
  | nil =>
      refine .stays (by rw [displayed, hagenda]; rfl) ?_
      rw [step_of_agenda_eq_nil hagenda]
  | cons task rest =>
      cases hline : task.line? with
      | some line =>
          cases task with
          | present t line => exact flow_present hagenda
          | showLine d line => exact flow_showLine hagenda
          | _ => exact absurd hline (by simp [Task.line?])
      | none =>
          cases hworks : task.worksBus with
          | true =>
              obtain ⟨tasks, hframes, hstep⟩ := h.exists_step_agenda_eq hagenda hworks
              refine .of_tasks hagenda hline (fun t ht => Task.line?_of_isFrame (hframes t ht))
                Task.keepsFrames_id ?_
              rw [hstep, List.map_id]
          | false =>
              by_cases hmoves : ∃ t, task.Moves t
              · obtain ⟨t, htask⟩ := hmoves
                exact flow_of_moves hagenda htask
              · simp only [not_exists] at hmoves
                have hknown : task.Known m.world := h.known task (by simp [hagenda])
                have hcontinues := continues_step hagenda hknown hworks
                generalize hafter : m.step.agenda = after at hcontinues
                cases hcontinues with
                | push htasks hf =>
                    refine .of_tasks hagenda hline (fun t ht => ?_) hf hafter
                    refine Task.Yields.line?_eq_none (htasks t ht).2 hmoves ?_
                    rintro s line rfl
                    exact absurd hline (by simp [Task.line?])
                | @cut before _ f hf heq hbefore hafter' =>
                    refine .loses (displayed_of_head hagenda ?_) ⟨Task.waiting s before, ?_⟩
                    · rintro d line rfl
                      exact absurd hline (by simp [Task.line?])
                    · rw [hafter, ← Task.waiting_append, ← heq, Task.waiting_map hf, hagenda,
                        Task.waiting_cons_of_none hline]

end Machine

end Parley
