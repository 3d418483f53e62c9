import Parley.Proofs.Display.Handling
import Parley.Proofs.Session.Frozen
import Parley.Proofs.Session.Reports

/-!
# Who calls a display

A display is told of a node, given a line or told of an end by a session that is on it.  Such a
call is the next thing to be done as soon as it is made, so whenever one comes up, a session has
just made it of its own display (`Execution.exists_asked`).  The line that a session presents is
one of its own (`Execution.session_of_present`), and if a display is asked to close for a session,
the session is finished (`Execution.finished_of_close`).

## Strategy

A task on an agenda was there before the last step, or the step has added it, and then only certain
tasks can have been carried out (`Execution.mem_agenda_cases`).
-/

namespace Parley

/-- Only a session that works on its conversation calls a display. -/
theorem Task.Yields.exists_actor {task call : Task} (h : task.Yields call)
    (hcall : call.isCall = true) : ∃ s, task.actor? = some s := by
  cases call with
  | showNode d title => exact h
  | showOver d => exact h
  | showLine d line =>
      obtain ⟨s, rfl⟩ := h
      exact ⟨s, rfl⟩
  | _ => exact absurd hcall (by simp [Task.isCall])

namespace Machine

variable {x : ℕ → Machine} {m : Machine} {s t : SessionId} {d : DisplayId}
  {session : Session} {task call : Task} {rest : List Task} {line : LineRef} {i n : ℕ}

/-! ## Where a task comes from -/

theorem mem_of_mem_map {f : Task → Task} (hf : Task.KeepsFrames f) (h : task ∈ rest.map f)
    (hne : ∀ sink course, task ≠ .actions sink course) : task ∈ rest := by
  obtain ⟨before, hbefore, rfl⟩ := List.mem_map.mp h
  rcases hf before with heq | ⟨sink, course, course', -, heq⟩
  · rwa [heq]
  · exact absurd heq (hne sink course')

/-- A task that a step leaves on the agenda was there before, below the one that is carried out,
or is added. -/
theorem Sound.mem_agenda_cases (h : Sound m) (hagenda : m.agenda = task :: rest)
    (hmem : call ∈ m.step.agenda) (hne : ∀ sink course, call ≠ .actions sink course) :
    call ∈ rest ∨ call ∈ m.added ∧ task.Yields call := by
  obtain ⟨f, hf, ⟨tasks, htasks, hstep⟩ | ⟨before, hcut, -⟩⟩ := h.yields_or_cuts hagenda
  · rw [added_eq_of_map hagenda hstep]
    rw [hstep, List.mem_append] at hmem
    rcases hmem with hnew | hold
    · exact .inr ⟨hnew, htasks call hnew⟩
    · exact .inl (mem_of_mem_map hf hold hne)
  · exact .inl (mem_of_mem_map hf (hcut ▸ List.mem_append_right before hmem) hne)

theorem Execution.mem_agenda_cases (h : Execution x) (hmem : call ∈ (x (i + 1)).agenda)
    (hne : ∀ sink course, call ≠ .actions sink course) (hstep : ∀ step, call ≠ .perform step) :
    call ∈ (x i).agenda.tail ∨ x (i + 1) = (x i).step ∧
      ∃ task rest, (x i).agenda = task :: rest ∧ call ∈ (x i).added ∧ task.Yields call := by
  generalize hm : x (i + 1) = m at hmem ⊢
  cases (hm ▸ h.next i : Next (x i) m) with
  | host hagenda step => exact absurd (List.mem_singleton.mp hmem) (hstep step)
  | step =>
      cases hagenda : (x i).agenda with
      | nil =>
          rw [step_of_agenda_eq_nil hagenda, hagenda] at hmem
          exact absurd hmem List.not_mem_nil
      | cons task rest =>
          exact ((h.reachable i).sound.mem_agenda_cases hagenda hmem hne).imp_right
            fun hnew => ⟨rfl, task, rest, rfl, hnew⟩

/-! ## The calls of sessions -/

/-- A session that works on its conversation makes at most one call, and this comes first. -/
theorem isCall_of_mem_added_tail (hagenda : m.agenda = task :: rest)
    (hactor : task.actor? = some s) (hmem : call ∈ m.added.tail) : call.isCall = false := by
  have hasked := asked_of_actor hagenda hactor
  cases told_of_actor hagenda hactor with
  | silent hnone =>
      rw [hnone] at hasked
      have hall := List.filter_eq_nil_iff.mp hasked.symm call (List.mem_of_mem_tail hmem)
      simpa using hall
  | @calls first event after hone hnotice hadded =>
      have hfirst : first.isCall = true := by
        cases first <;> first | rfl | exact absurd hnotice (by simp [Task.notice?])
      rw [hone, hadded, List.filter_cons_of_pos hfirst] at hasked
      have hlater := (List.cons.inj hasked).2
      rw [hadded, List.tail_cons] at hmem
      simpa using List.filter_eq_nil_iff.mp hlater.symm call hmem

theorem ne_actions_of_isCall (hcall : call.isCall = true) (sink : Sink) (course : Course) :
    call ≠ .actions sink course := by
  rintro rfl
  exact absurd hcall (by simp [Task.isCall])

/-- If no call waits for other tasks, then none does after the next step. -/
theorem Sound.isCall_of_mem_tail_step (h : Sound m)
    (hnone : ∀ call ∈ m.agenda.tail, call.isCall = false) :
    ∀ call ∈ m.step.agenda.tail, call.isCall = false := by
  intro call hmem
  cases hagenda : m.agenda with
  | nil =>
      rw [step_of_agenda_eq_nil hagenda] at hmem
      exact hnone call hmem
  | cons task rest =>
      rw [hagenda, List.tail_cons] at hnone
      by_contra hcall
      rw [Bool.not_eq_false] at hcall
      have hrest : ∀ f, Task.KeepsFrames f → call ∉ rest.map f := fun f hf hold => by
        have hfalse := hnone call (mem_of_mem_map hf hold (ne_actions_of_isCall hcall))
        exact absurd (hfalse.symm.trans hcall) (by simp)
      obtain ⟨f, hf, ⟨tasks, htasks, hstep⟩ | ⟨before, hcut, -⟩⟩ := h.yields_or_cuts hagenda
      · rw [hstep] at hmem
        cases tasks with
        | nil => exact hrest f hf (List.mem_of_mem_tail hmem)
        | cons first later =>
            rw [List.cons_append, List.tail_cons, List.mem_append] at hmem
            rcases hmem with hlater | hold
            · obtain ⟨s, hactor⟩ :=
                (htasks call (List.mem_cons_of_mem _ hlater)).exists_actor hcall
              have hlater' : call ∈ m.added.tail := by
                rwa [added_eq_of_map hagenda hstep]
              have hfalse := isCall_of_mem_added_tail hagenda hactor hlater'
              exact absurd (hfalse.symm.trans hcall) (by simp)
            · exact hrest f hf hold
      · exact hrest f hf (hcut ▸ List.mem_append_right before (List.mem_of_mem_tail hmem))

/-- A call does not wait for other tasks. -/
theorem Execution.isCall_of_mem_tail (h : Execution x) (i : ℕ) :
    ∀ call ∈ (x i).agenda.tail, call.isCall = false := by
  induction i with
  | zero => simp [h.initial.agenda]
  | succ i ih =>
      generalize hm : x (i + 1) = m
      cases (hm ▸ h.next i : Next (x i) m) with
      | host hagenda step => simp
      | step => exact (h.reachable i).sound.isCall_of_mem_tail_step ih

/-- A call that comes up has just been made by a session. -/
theorem Execution.exists_asked (h : Execution x) (hhead : (x i).agenda.head? = some call)
    (hcall : call.isCall = true) :
    ∃ j s session, i = j + 1 ∧ x i = (x j).step ∧ (x j).world.session? s = some session ∧
      call ∈ asked s (x j) := by
  have hmem := List.mem_of_head? hhead
  cases i with
  | zero => exact absurd hmem (by simp [h.initial.agenda])
  | succ j =>
      have hne := ne_actions_of_isCall hcall
      have hperform : ∀ step, call ≠ .perform step := by
        rintro step rfl
        exact absurd hcall (by simp [Task.isCall])
      rcases h.mem_agenda_cases hmem hne hperform with
        hold | ⟨hstep, task, rest, hagenda, hnew, hyields⟩
      · exact absurd ((h.isCall_of_mem_tail j call hold).symm.trans hcall) (by simp)
      · obtain ⟨s, hactor⟩ := hyields.exists_actor hcall
        have hasked : call ∈ asked s (x j) := by
          rw [asked_of_actor hagenda hactor]
          exact List.mem_filter.mpr ⟨hnew, hcall⟩
        cases hs : (x j).world.session? s with
        | none =>
            rw [added_of_missing hagenda hactor hs] at hnew
            exact absurd hnew List.not_mem_nil
        | some session => exact ⟨j, s, session, rfl, hstep, hs, hasked⟩

/-! ## What the calls are about -/

/-- A session calls a display because of some input, or when it presents a line. -/
theorem mem_asked_cases (hs : m.world.session? s = some session) (hasked : call ∈ asked s m) :
    (∃ (cue : Cue) (rest : List Task), m.agenda = cue.task s :: rest ∧
        call ∈ cue.tasks s (cue.move (m.world.configOf session) session)) ∨
      ∃ line rest, m.agenda = .present s line :: rest ∧
        call = .showLine session.display line := by
  cases hagenda : m.agenda with
  | nil =>
      rw [asked, hagenda] at hasked
      exact absurd hasked List.not_mem_nil
  | cons task rest =>
      by_cases hactor : task.actor? = some s
      · rcases Task.actor?_eq_some hactor with ⟨cue, rfl⟩ | ⟨line, rfl⟩
        · rw [asked_of_actor hagenda hactor, added_of_cue hagenda hs] at hasked
          exact .inl ⟨cue, rest, rfl, (List.mem_filter.mp hasked).1⟩
        · rw [asked_present hs hagenda, List.mem_singleton] at hasked
          exact .inr ⟨line, rest, rfl, hasked⟩
      · rw [asked_of_not_actor hagenda hactor] at hasked
        exact absurd hasked List.not_mem_nil

/-- A line is given to the display of the session that presents it. -/
theorem presents_of_asked (hs : m.world.session? s = some session)
    (hasked : .showLine d line ∈ asked s m) :
    (∃ rest, m.agenda = .present s line :: rest) ∧ session.display = d := by
  rcases mem_asked_cases hs hasked with ⟨cue, rest, -, hmem⟩ | ⟨shown, rest, hagenda, heq⟩
  · cases hmove : cue.move (m.world.configOf session) session <;> rw [hmove] at hmem <;>
      cases cue <;> simp [Cue.tasks] at hmem
  · obtain ⟨rfl, rfl⟩ := Task.showLine.inj heq
    exact ⟨⟨rest, hagenda⟩, rfl⟩

/-- When a conversation has ended, the display is told of it first. -/
theorem step_of_ended {ended : Session} (hs : m.world.session? s = some session)
    (hmove : Moves s m session (.ended ended)) :
    m.step.world.session? s = some ended ∧
      m.step.agenda = .showOver ended.display ::
        .publish (.session s) { type := .dialogue .dialogueOver } :: m.agenda.tail := by
  obtain ⟨refused, shown, -, hstep⟩ := hmove.exists_step_eq hs
  rw [hstep]
  refine ⟨?_, rfl⟩
  have hset := session?_setSession (m := { m with agenda := m.agenda.tail }) hs ended s
  rw [if_pos rfl] at hset
  exact hset

/-- A session that is finished asks its display to close. -/
theorem step_of_finish {onComplete : Option HandlerId}
    (hagenda : m.agenda = .finish s onComplete :: rest) (hs : m.world.session? s = some session)
    (hopen : session.finished = false) :
    m.step.world.session? s =
        some { session with finished := true, actions := Table.empty } ∧
      m.step.agenda = .close session.display (some (.session s onComplete)) :: rest := by
  rw [step_eq hagenda]
  dsimp only [exec, finish]
  rw [hs]
  dsimp only
  rw [hopen]
  refine ⟨?_, rfl⟩
  show ((m.world.modifyDisplay _ _).modifySession s _).session? s = _
  rw [World.session?_modifySession, if_pos rfl, World.session?_modifyDisplay, hs]
  rfl

/-! ## Lines and their sessions -/

/-- The line that a session presents is one of its own. -/
theorem Execution.session_of_present (h : Execution x) (i : ℕ)
    (hmem : .present s line ∈ (x i).agenda) : line.session = s := by
  induction i with
  | zero => exact absurd hmem (by simp [h.initial.agenda])
  | succ i ih =>
      rcases h.mem_agenda_cases hmem (by simp) (by simp) with
        hold | ⟨-, task, rest, hagenda, hnew, hyields⟩
      · exact ih (List.mem_of_mem_tail hold)
      · obtain ⟨cue, rfl⟩ : ∃ cue : Cue, task = cue.task s := by
          rcases hyields with ⟨title, rfl⟩ | rfl | ⟨key, destination, rfl⟩
          exacts [⟨.start title, rfl⟩, ⟨.proceed, rfl⟩, ⟨.follow key destination, rfl⟩]
        cases hs : (x i).world.session? s with
        | none =>
            rw [added_of_missing hagenda (Task.actor?_task s cue) hs] at hnew
            exact absurd hnew List.not_mem_nil
        | some session =>
            rw [added_of_cue hagenda hs] at hnew
            cases hmove : cue.move ((x i).world.configOf session) session <;>
              rw [hmove] at hnew <;> cases cue <;> simp_all [Cue.tasks]

/-- A line is shown on the display that its session is on. -/
theorem Execution.shown_on (h : Execution x)
    (hhead : (x i).agenda.head? = some (.showLine d line)) :
    (x i).world.MadeOn d line.session := by
  obtain ⟨j, s, session, rfl, -, hs, hasked⟩ := h.exists_asked hhead rfl
  obtain ⟨⟨rest, hagenda⟩, hdisplay⟩ := presents_of_asked hs hasked
  obtain rfl : line.session = s := h.session_of_present j (hagenda ▸ List.mem_cons_self)
  obtain ⟨session', hs', hpassage⟩ :=
    ((h.reachable j).sound.passes_next (h.next j) line.session).passage session hs
  exact ⟨session', hs', hpassage.display_eq.trans hdisplay⟩

end Machine

end Parley
