import Parley.Proofs.Display.Handling
import Parley.Proofs.Manager.Records

/-!
# Closings that are under way

A session that is finished asks its display to close, and takes note of it when that has happened.
In between the closing is under way: it stands on the agenda, or a deferred display has it among
its pending ones (`closings`).  Tasks hand it on or lose it, but none brings about a second one
(`Sound.count_closings_step`).  So a session takes note of no more closings than it has asked for
(`Execution.count_noted_le`).

A closing is told from others by what the session is going to call after it.
-/

namespace Parley

/-! ## Where closings stand -/

/-- What a session is going to call after its closing, for a callback that tells it of that. -/
def Callback.closings (s : SessionId) : Option Callback → List (Option HandlerId)
  | some (.session t onComplete) => if t = s then [onComplete] else []
  | _ => []

/-- The closings of a session that a task is there for. -/
def Task.closings (s : SessionId) : Task → List (Option HandlerId)
  | .close _ c | .settle _ c => Callback.closings s c
  | .flush _ _ waiting => waiting.flatMap (Callback.closings s)
  | .callback c => Callback.closings s (some c)
  | _ => []

/-- The closings of a session that displays have put off. -/
def World.closings (s : SessionId) (w : World) : List (Option HandlerId) :=
  w.displays.flatMap fun display => display.pending.flatMap (Callback.closings s)

namespace Machine

/-- The closings of a session that are under way. -/
def closings (s : SessionId) (m : Machine) : List (Option HandlerId) :=
  m.agenda.flatMap (Task.closings s) ++ m.world.closings s

/-- The closing that a session asks for in the next step, because it is finished. -/
def tornDown (s : SessionId) (m : Machine) : List (Option HandlerId) :=
  match m.agenda.head? with
  | some (.finish t onComplete) => if t = s ∧ m.world.running s = true then [onComplete] else []
  | _ => []

/-- The closing that a session is told of in the next step. -/
def noted (s : SessionId) (m : Machine) : List (Option HandlerId) :=
  match m.agenda.head? with
  | some (.callback c) => Callback.closings s (some c)
  | _ => []

end Machine

/-! ## Lists with an entry changed -/

variable {α β : Type}

/-- What entries contribute to a list stays, and new entries contribute nothing. -/
theorem World.flatMap_eq_of_kept {l l' : List α} {g : α → List β}
    (hkept : ∀ (i : ℕ) a, l[i]? = some a → ∃ a', l'[i]? = some a' ∧ g a' = g a)
    (hnew : ∀ (i : ℕ) a', l[i]? = none → l'[i]? = some a' → g a' = []) :
    l'.flatMap g = l.flatMap g := by
  induction l generalizing l' with
  | nil =>
      rw [List.flatMap_nil, List.flatMap_eq_nil_iff]
      intro a' ha'
      obtain ⟨i, hi⟩ := List.mem_iff_getElem?.mp ha'
      exact hnew i a' rfl hi
  | cons a l ih =>
      obtain ⟨a', hfirst, hsame⟩ := hkept 0 a rfl
      cases l' with
      | nil => exact absurd hfirst (by simp)
      | cons b l' =>
          obtain rfl : b = a' := Option.some.inj hfirst
          rw [List.flatMap_cons, List.flatMap_cons, hsame,
            ih (fun i => hkept (i + 1)) fun i => hnew (i + 1)]

/-- The contribution of an entry that is changed takes the place of what it contributed before. -/
theorem World.count_flatMap_modify [BEq β] {l : List α} {i : ℕ} {a : α} (h : l[i]? = some a)
    (f : α → α) (g : α → List β) (b : β) :
    ((l.modify i f).flatMap g).count b + (g a).count b =
      (l.flatMap g).count b + (g (f a)).count b := by
  induction l generalizing i with
  | nil => exact absurd h (by simp)
  | cons first l ih =>
      cases i with
      | zero =>
          obtain rfl : first = a := Option.some.inj h
          rw [List.modify_zero_cons, List.flatMap_cons, List.flatMap_cons, List.count_append,
            List.count_append]
          omega
      | succ i =>
          rw [List.modify_succ_cons, List.flatMap_cons, List.flatMap_cons, List.count_append,
            List.count_append]
          have hrest := ih h
          omega

/-! ## Tasks that do nothing about closings -/

namespace Task

variable {s : SessionId} {task : Task} {f : Task → Task}

/-- Whether a task asks for a closing, hands it on or brings it about. -/
def handlesClosings : Task → Bool
  | .finish .. | .close .. | .settle .. | .flush .. | .callback _ => true
  | .perform (.display _ .flushClose) => true
  | _ => false

theorem KeepsFrames.closings (hf : KeepsFrames f) (task : Task) :
    (f task).closings s = task.closings s := by
  rcases hf task with heq | ⟨sink, course, course', rfl, heq⟩ <;> rw [heq]
  rfl

theorem flatMap_closings_map (hf : KeepsFrames f) (agenda : List Task) :
    (agenda.map f).flatMap (Task.closings s) = agenda.flatMap (Task.closings s) := by
  rw [List.flatMap_map]
  simp only [hf.closings]

/-- Whoever asked for a closing is told by one task, if anybody. -/
theorem flatMap_closings_callback (callback : Option Callback) :
    (callback.toList.map Task.callback).flatMap (Task.closings s) =
      Callback.closings s callback := by
  cases callback with
  | none => rfl
  | some callback => exact List.flatMap_singleton ..

/-- A task that does nothing about closings leaves none of a session behind. -/
theorem Yields.closings_eq_nil {t : Task} (h : task.Yields t)
    (htask : task.handlesClosings = false) : t.closings s = [] := by
  have hother : ∀ t' : Task, t'.handlesClosings = true → task ≠ t' := by
    rintro t' htrue rfl
    exact absurd (htask.symm.trans htrue) (by simp)
  cases t with
  | close d c =>
      rcases h with ⟨t, onComplete, heq⟩ | hnone
      · exact absurd heq (hother _ rfl)
      · cases c with
        | none => rfl
        | some c =>
            cases c with
            | session t onComplete => exact absurd rfl (hnone t onComplete)
            | handler h => rfl
  | settle d c => exact absurd h (hother _ rfl)
  | flush d settled waiting =>
      rcases h with ⟨settled', waiting', heq⟩ | ⟨name, heq⟩ <;> exact absurd heq (hother _ rfl)
  | callback c =>
      obtain ⟨d, heq | ⟨settled, waiting, heq⟩⟩ := h <;> exact absurd heq (hother _ rfl)
  | _ => rfl

end Task

namespace Machine

open World

variable {x : ℕ → Machine} {m m' : Machine} {s : SessionId} {d : DisplayId} {task : Task}
  {rest : List Task} {face face' : Display} {n : ℕ} {c : Option HandlerId}

/-- Only by closing, or letting the noted closings happen, is anything changed about them. -/
theorem Handling.pending_eq (h : Handling d m m' face face')
    (hsettle : ∀ callback, m.agenda.head? ≠ some (.settle d callback))
    (hflush : ∀ name, m.agenda.head? ≠ some (.perform (.display name .flushClose))) :
    face'.pending = face.pending := by
  cases h with
  | left hhead hs => split <;> rfl
  | noted hhead hlater => exact absurd hhead (hsettle _)
  | emptied hconcerns =>
      obtain ⟨name, hhead, -⟩ := hconcerns
      exact absurd hhead (hflush name)
  | _ => rfl

theorem closings_world_step (hagenda : m.agenda = task :: rest)
    (hsettle : ∀ d callback, task ≠ .settle d callback)
    (hflush : ∀ name, task ≠ .perform (.display name .flushClose)) :
    m.step.world.closings s = m.world.closings s := by
  have hhead : ∀ t, task ≠ t → m.agenda.head? ≠ some t := by
    intro t hne heq
    rw [hagenda] at heq
    exact hne (Option.some.inj heq)
  refine flatMap_eq_of_kept (fun i display hi => ?_) fun i display hnone hi => ?_
  · have hhandles := handles_step ⟨i⟩ m
    obtain ⟨face', hface', hhandling⟩ :=
      hhandles.handling display.face (by rw [face?, display?, hi]; rfl)
    obtain ⟨display', hdisplay', rfl⟩ := Option.map_eq_some_iff.mp hface'
    refine ⟨display', hdisplay', ?_⟩
    have hpending : display'.pending = display.pending :=
      hhandling.pending_eq (fun callback => hhead _ (hsettle _ _)) fun name => hhead _ (hflush name)
    rw [hpending]
  · have hnew : display.pending = [] :=
      ((handles_step ⟨i⟩ m).newDisplay (by rw [face?, display?, hnone]; rfl) display.face
        (by rw [face?, display?, hi]; rfl)).pending
    rw [hnew]
    rfl

/-- What is left of an agenda has no more closings on it. -/
theorem count_closings_fail (m : Machine) (failure : Failure) (c : Option HandlerId) :
    (closings s (m.fail failure)).count c ≤ (closings s m).count c := by
  obtain ⟨before, hcut, -⟩ := exists_eq_append_unwind m.agenda
  have hagenda := congrArg (fun agenda => (agenda.flatMap (Task.closings s)).count c) hcut
  simp only [List.flatMap_append, List.count_append] at hagenda
  rw [closings, closings, agenda_fail, world_fail, List.count_append, List.count_append]
  omega

/-! ## One step -/

theorem closings_cons (hagenda : m.agenda = task :: rest) :
    closings s m = task.closings s ++ closings s { m with agenda := rest } := by
  rw [closings, closings, hagenda, List.flatMap_cons, List.append_assoc]

theorem closings_push (m : Machine) (tasks : List Task) :
    closings s (m.push tasks) = tasks.flatMap (Task.closings s) ++ closings s m := by
  rw [closings, closings, agenda_push, world_push, List.flatMap_append, List.append_assoc]

/-- The closings after a step that puts tasks on the agenda. -/
theorem closings_step {tasks : List Task} (hworld : m.step.world.closings s = m.world.closings s)
    (hstep : m.step.agenda = tasks ++ rest) :
    closings s m.step =
      tasks.flatMap (Task.closings s) ++ closings s { m with agenda := rest } := by
  rw [closings, closings, hstep, hworld, List.flatMap_append, List.append_assoc]

theorem Sound.count_closings_other (h : Sound m) (hagenda : m.agenda = task :: rest)
    (htask : task.handlesClosings = false) (c : Option HandlerId) :
    (closings s m.step).count c ≤ (closings s m).count c := by
  have hworld : m.step.world.closings s = m.world.closings s := by
    refine closings_world_step hagenda (fun d callback heq => ?_) fun name heq => ?_
    · exact absurd htask (by simp [heq, Task.handlesClosings])
    · exact absurd htask (by simp [heq, Task.handlesClosings])
  rw [closings_cons hagenda, closings, closings, hworld, List.count_append, List.count_append,
    List.count_append]
  obtain ⟨f, hf, ⟨tasks, htasks, hstep⟩ | ⟨before, hcut, -⟩⟩ := h.yields_or_cuts hagenda
  · have hnone : tasks.flatMap (Task.closings s) = [] :=
      List.flatMap_eq_nil_iff.mpr fun t ht => (htasks t ht).closings_eq_nil htask
    dsimp only
    rw [hstep, List.flatMap_append, hnone, List.nil_append, Task.flatMap_closings_map hf]
    omega
  · have hall := congrArg (List.flatMap (Task.closings s)) hcut
    rw [Task.flatMap_closings_map hf, List.flatMap_append] at hall
    dsimp only
    rw [hall, List.count_append]
    omega

/-- A session that is torn down asks for one closing; otherwise nothing is asked for. -/
theorem count_closings_finish {t : SessionId} {onComplete : Option HandlerId}
    (hagenda : m.agenda = .finish t onComplete :: rest) (c : Option HandlerId) :
    (closings s m.step).count c ≤ (tornDown s m).count c + (closings s m).count c := by
  have hworld : m.step.world.closings s = m.world.closings s :=
    closings_world_step hagenda (by simp) (by simp)
  have htorn : tornDown s m = if t = s ∧ m.world.running s = true then [onComplete] else [] := by
    rw [tornDown, hagenda]
    rfl
  have hcons : closings s m = closings s { m with agenda := rest } := closings_cons hagenda
  rw [hcons]
  cases ht : m.world.session? t with
  | none =>
      have hstep : m.step = fail { m with agenda := rest } .unknownName := by
        rw [step_eq hagenda]
        simp only [exec, finish, ht]
      have hfail := count_closings_fail (s := s) { m with agenda := rest } .unknownName c
      rw [← hstep] at hfail
      omega
  | some session =>
      have hrunning : m.world.running t = !session.finished := by
        rw [running, ht, Option.any_some]
      cases hfinished : session.finished with
      | true =>
          have hstep : m.step.agenda = [] ++ rest := by
            rw [step_eq hagenda]
            simp only [exec, finish, ht, hfinished, if_true]
            rfl
          rw [closings_step hworld hstep, List.flatMap_nil, List.nil_append]
          omega
      | false =>
          have hstep : m.step.agenda =
              [.close session.display (some (.session t onComplete))] ++ rest := by
            rw [step_eq hagenda]
            simp only [exec, finish, ht, hfinished]
            rfl
          rw [closings_step hworld hstep, htorn, List.count_append, List.flatMap_singleton,
            Task.closings, Callback.closings]
          by_cases hs : t = s
          · rw [if_pos hs, if_pos ⟨hs, by rw [← hs, hrunning, hfinished]; rfl⟩]
          · rw [if_neg hs, List.count_nil]
            omega

theorem count_closings_close {callback : Option Callback}
    (hagenda : m.agenda = .close d callback :: rest) (c : Option HandlerId) :
    (closings s m.step).count c ≤ (closings s m).count c := by
  have hworld : m.step.world.closings s = m.world.closings s :=
    closings_world_step hagenda (by simp) (by simp)
  have hstep : m.step.agenda = [] ++ rest ∨
      (∃ hook, m.step.agenda = [.hook hook "", .settle d callback] ++ rest) ∨
      m.step.agenda = [.settle d callback] ++ rest := by
    rw [step_eq hagenda]
    dsimp only [exec, close]
    split
    · exact .inl rfl
    · split
      · exact .inr (.inl ⟨_, rfl⟩)
      · exact .inr (.inr rfl)
  rw [closings_cons hagenda, List.count_append, Task.closings]
  rcases hstep with hlost | ⟨hook, hcalls⟩ | hgoes
  · rw [closings_step hworld hlost, List.flatMap_nil, List.nil_append]
    omega
  · rw [closings_step hworld hcalls, List.count_append]
    simp [Task.closings]
  · rw [closings_step hworld hgoes, List.count_append]
    simp [Task.closings]

/-- What a display has put off when it is changed. -/
theorem count_closings_modifyDisplay {w : World} {display : Display}
    (hd : w.display? d = some display) (f : Display → Display) (c : Option HandlerId) :
    ((w.modifyDisplay d f).closings s).count c +
        (display.pending.flatMap (Callback.closings s)).count c =
      (w.closings s).count c + ((f display).pending.flatMap (Callback.closings s)).count c :=
  count_flatMap_modify hd f _ c

/-- A closing happens, or the display notes it down. -/
theorem count_closings_settle {callback : Option Callback}
    (hagenda : m.agenda = .settle d callback :: rest) (c : Option HandlerId) :
    (closings s m.step).count c ≤ (closings s m).count c := by
  rw [closings_cons hagenda, List.count_append, Task.closings]
  cases hd : m.world.display? d with
  | none =>
      have hstep : m.step = { m with agenda := rest } := by
        rw [step_eq hagenda]
        simp only [exec, settle, hd]
      rw [hstep]
      omega
  | some display =>
      cases hlater : isDeferred display with
      | true =>
          have hstep : m.step = withWorld { m with agenda := rest } fun w =>
              w.modifyDisplay d fun display =>
                { display with pending := display.pending ++ [callback] } := by
            rw [step_eq hagenda]
            simp only [exec, settle, hd, hlater, if_true]
          have hnoted := count_closings_modifyDisplay (s := s) hd (fun display =>
            { display with pending := display.pending ++ [callback] }) c
          rw [List.flatMap_append, List.count_append, List.flatMap_singleton] at hnoted
          rw [hstep, closings, closings, List.count_append, List.count_append]
          dsimp only [withWorld]
          omega
      | false =>
          have hstep : m.step = (withWorld { m with agenda := rest } fun w =>
              w.modifyDisplay d fun display => { display with isOpen := false }).push
                (callback.toList.map .callback) := by
            rw [step_eq hagenda]
            simp only [exec, settle, hd, hlater, Bool.false_eq_true, if_false, shut]
          have hshut := count_closings_modifyDisplay (s := s) hd (fun display =>
            { display with isOpen := false }) c
          rw [hstep, closings_push, Task.flatMap_closings_callback, List.count_append, closings,
            closings, List.count_append, List.count_append]
          dsimp only [withWorld] at hshut ⊢
          omega

theorem count_closings_flush {settled waiting : List (Option Callback)}
    (hagenda : m.agenda = .flush d settled waiting :: rest) (c : Option HandlerId) :
    (closings s m.step).count c ≤ (closings s m).count c := by
  have hworld : m.step.world.closings s = m.world.closings s :=
    closings_world_step hagenda (by simp) (by simp)
  rw [closings_cons hagenda, List.count_append, Task.closings]
  cases waiting with
  | nil =>
      have hstep : m.step.agenda = [] ++ rest := by
        rw [step_eq hagenda]
        rfl
      rw [closings_step hworld hstep, List.flatMap_nil, List.nil_append]
      omega
  | cons callback waiting =>
      have hstep : m.step.agenda = (callback.toList.map Task.callback ++
          [.flush d (settled ++ [callback]) waiting]) ++ rest := by
        rw [step_eq hagenda, List.append_assoc]
        rfl
      rw [closings_step hworld hstep, List.flatMap_append, Task.flatMap_closings_callback,
        List.flatMap_singleton, List.flatMap_cons, List.count_append]
      exact Nat.le_of_eq rfl

/-- A session takes note of its closing. -/
theorem count_closings_callback {callback : Callback}
    (hagenda : m.agenda = .callback callback :: rest) (c : Option HandlerId) :
    (noted s m).count c + (closings s m.step).count c ≤ (closings s m).count c := by
  have hworld : m.step.world.closings s = m.world.closings s :=
    closings_world_step hagenda (by simp) (by simp)
  have hnoted : noted s m = Callback.closings s (some callback) := by rw [noted, hagenda]; rfl
  have hpushed : ∀ tasks : List Task, tasks.flatMap (Task.closings s) = [] →
      m.step.agenda = tasks ++ rest →
      (noted s m).count c + (closings s m.step).count c ≤ (closings s m).count c := by
    intro tasks htasks hstep
    rw [closings_cons hagenda, closings_step hworld hstep, htasks, hnoted, List.nil_append,
      List.count_append]
    exact Nat.le_of_eq rfl
  cases callback with
  | handler h => exact hpushed [.call h ""] rfl (by rw [step_eq hagenda]; rfl)
  | session t onComplete =>
      cases ht : m.world.session? t with
      | none =>
          have hfail := count_closings_fail (s := s) { m with agenda := rest } .unknownName c
          rw [step_callback_of_missing hagenda ht, closings_cons hagenda, hnoted,
            List.count_append, Task.closings]
          omega
      | some session =>
          refine hpushed _ ?_ (agenda_callback hagenda ht)
          cases onComplete <;> rfl

/-- The closings that a display has noted leave it together, to be brought about. -/
theorem count_closings_flushClose {name : String}
    (hagenda : m.agenda = .perform (.display name .flushClose) :: rest) (c : Option HandlerId) :
    (closings s m.step).count c ≤ (closings s m).count c := by
  rw [closings_cons hagenda, List.count_append]
  have hstep := step_eq hagenda
  dsimp only [exec, perform] at hstep
  rcases withDisplay_cases { m with agenda := rest } name _ with ⟨d, display, -, hd, heq⟩ | heq
  · have hpushed : m.step = (withWorld { m with agenda := rest } fun w =>
        w.modifyDisplay d fun display => { display with pending := [] }).push
          [.flush d [] display.pending, .answer .nothing] := hstep.trans heq
    have hemptied := count_closings_modifyDisplay (s := s) hd (fun display =>
      { display with pending := [] }) c
    rw [hpushed, closings_push, List.count_append, closings, closings, List.count_append,
      List.count_append]
    simp only [withWorld, List.flatMap_cons, List.flatMap_nil, Task.closings, List.append_nil,
      List.count_nil] at hemptied ⊢
    omega
  · have hfail := count_closings_fail (s := s) { m with agenda := rest } .unknownName c
    rw [hstep, heq]
    omega

theorem noted_eq_nil (hagenda : m.agenda = task :: rest)
    (htask : ∀ callback, task ≠ .callback callback) : noted s m = [] := by
  rw [noted, hagenda]
  cases task with
  | callback callback => exact absurd rfl (htask callback)
  | _ => rfl

/-- A step brings no closing about that has not been asked for. -/
theorem Sound.count_closings_step (h : Sound m) (c : Option HandlerId) :
    (noted s m).count c + (closings s m.step).count c ≤
      (tornDown s m).count c + (closings s m).count c := by
  cases hagenda : m.agenda with
  | nil =>
      have hnone : noted s m = [] := by rw [noted, hagenda]; rfl
      rw [hnone, step_of_agenda_eq_nil hagenda, List.count_nil, Nat.zero_add]
      exact Nat.le_add_left _ _
  | cons task rest =>
      by_cases hcallback : ∃ callback, task = .callback callback
      · obtain ⟨callback, rfl⟩ := hcallback
        exact Nat.le_add_left_of_le (count_closings_callback hagenda c)
      · rw [noted_eq_nil hagenda fun callback heq => hcallback ⟨callback, heq⟩, List.count_nil,
          Nat.zero_add]
        cases hother : task.handlesClosings with
        | false => exact Nat.le_add_left_of_le (h.count_closings_other hagenda hother c)
        | true =>
            cases task with
            | finish t onComplete => exact count_closings_finish hagenda c
            | close d callback => exact Nat.le_add_left_of_le (count_closings_close hagenda c)
            | settle d callback => exact Nat.le_add_left_of_le (count_closings_settle hagenda c)
            | flush d settled waiting =>
                exact Nat.le_add_left_of_le (count_closings_flush hagenda c)
            | callback callback => exact absurd ⟨callback, rfl⟩ hcallback
            | perform step =>
                obtain ⟨name, rfl⟩ : ∃ name, step = .display name .flushClose := by
                  unfold Task.handlesClosings at hother
                  split at hother <;> simp_all
                exact Nat.le_add_left_of_le (count_closings_flushClose hagenda c)
            | _ => exact absurd hother (by simp [Task.handlesClosings])

/-! ## Whole runs -/

/-- A session has taken note of no more closings than it has asked for, unless some were under way
at the beginning. -/
theorem Execution.count_noted_le (h : Execution x) (c : Option HandlerId) (n : ℕ) :
    ((stretch x 0 n).flatMap (noted s)).count c + (closings s (x n)).count c ≤
      ((stretch x 0 n).flatMap (tornDown s)).count c + (closings s (x 0)).count c := by
  induction n with
  | zero => exact le_rfl
  | succ n ih =>
      have hstep : (noted s (x n)).count c + (closings s (x (n + 1))).count c ≤
          (tornDown s (x n)).count c + (closings s (x n)).count c := by
        generalize hm : x (n + 1) = m
        cases (hm ▸ h.next n : Next (x n) m) with
        | step => exact (h.reachable n).sound.count_closings_step c
        | host hagenda step => simp [closings, noted, tornDown, hagenda, Task.closings]
      rw [stretch_add_one, Nat.zero_add, List.flatMap_append, List.flatMap_append,
        List.flatMap_singleton, List.flatMap_singleton, List.count_append, List.count_append]
      omega

end Machine

end Parley
