import Parley.Proofs.Display.Handling
import Parley.Proofs.Machine.Calls

/-!
# Winding up a session

A session that is to be finished is taken off the bus of its display, which is asked to close; once
it has closed, the session lets go of it and reports the closing.  Handlers of the host may be
called on the way.  As long as none of them takes a step, and no input reaches a session, all of
this is work on one session and one display: every other session stays where it stands, every other
display keeps its face, and the managers do not change (`Execution.windsUp_of_worksOff`).

## Strategy

The tasks of this work put only tasks of the same kind on the agenda, or steps of the host
(`windsUp_exec`), so that the tasks above the rest of the agenda are always of that kind.  What one
of them does to sessions and displays is known from the exact case splits `steady_step` and
`handles_step`; of the cases there, only those that are about the one session and the one display
are left (`Sound.woundUp_step`).
-/

namespace Parley

/-- A task by which a session on a display winds up, or by which a handler of the host is called
and goes through its steps. -/
def Task.WindsUp (s : SessionId) (d : DisplayId) : Task → Prop
  | .finish t _ | .leave t | .hold t => t = s
  | .close e c | .settle e c => e = d ∧ ∃ onComplete, c = some (.session s onComplete)
  | .callback c => ∃ onComplete, c = .session s onComplete
  | .publish b _ | .dispatch b | .drain b .. | .deliver b _ | .callWith _ b => b = .session s
  | .hook .. | .call .. | .script .. | .returned .. | .perform _ => True
  | _ => False

/-- Whether a task is a step of the host, or tells a session of input. -/
def Task.intervenes : Task → Bool
  | .perform _ | .deliver _ (.input ..) => true
  | _ => false

namespace World

variable {w w' w₁ w₂ w₃ : World} {s : SessionId} {d : DisplayId}

/-- A world in which nothing has changed but one session, which may have been finished, and the
face of one display. -/
structure WoundUp (s : SessionId) (d : DisplayId) (w w' : World) : Prop where
  sessions : w'.sessions.length = w.sessions.length
  others : ∀ t, t ≠ s →
    (w'.session? t).map Session.standing = (w.session? t).map Session.standing
  self : ∀ session, w.session? s = some session → ∃ session' finished,
    w'.session? s = some session' ∧ session'.standing = { session.standing with finished }
  managers : w'.managers = w.managers
  face : ∀ e face, w.face? e = some face →
    ∃ face', w'.face? e = some face' ∧ (e ≠ d → face' = face)

theorem WoundUp.refl (s : SessionId) (d : DisplayId) (w : World) : WoundUp s d w w :=
  ⟨rfl, fun _ _ => rfl, fun session hs => ⟨session, session.finished, hs, rfl⟩, rfl,
    fun _ face hface => ⟨face, hface, fun _ => rfl⟩⟩

theorem WoundUp.trans (h : WoundUp s d w₁ w₂) (h' : WoundUp s d w₂ w₃) : WoundUp s d w₁ w₃ := by
  constructor
  case sessions => exact h'.sessions.trans h.sessions
  case others => exact fun t ht => (h'.others t ht).trans (h.others t ht)
  case self =>
    intro session hs
    obtain ⟨between, _, hbetween, hstanding⟩ := h.self session hs
    obtain ⟨session', finished, hs', hstanding'⟩ := h'.self between hbetween
    exact ⟨session', finished, hs', by rw [hstanding', hstanding]⟩
  case managers => exact h'.managers.trans h.managers
  case face =>
    intro e face hface
    obtain ⟨between, hbetween, hsame⟩ := h.face e face hface
    obtain ⟨face', hface', hsame'⟩ := h'.face e between hbetween
    exact ⟨face', hface', fun hne => (hsame' hne).trans (hsame hne)⟩

theorem WoundUp.display_eq (h : WoundUp s d w w') {session session' : Session}
    (hs : w.session? s = some session) (hs' : w'.session? s = some session') :
    session'.display = session.display := by
  obtain ⟨found, finished, hfound, hstanding⟩ := h.self session hs
  obtain rfl : found = session' := Option.some.inj (hfound.symm.trans hs')
  exact congrArg Standing.display hstanding

end World

namespace Machine

open World

variable {x : ℕ → Machine} {m m' : Machine} {s : SessionId} {d : DisplayId} {task : Task}
  {rest tasks below : List Task} {session : Session} {i j n : ℕ}

/-! ## What comes onto the agenda -/

/-- The work of a task puts tasks of a kind on the agenda, or fails. -/
inductive Adds (P : Task → Prop) (m : Machine) : Machine → Prop
  | push {m' : Machine} (tasks : List Task) (htasks : ∀ t ∈ tasks, P t)
      (hagenda : m'.agenda = tasks ++ m.agenda) : Adds P m m'
  | fail {m' : Machine} (hagenda : m'.agenda = m.agenda) (failure : Failure) :
      Adds P m (m'.fail failure)

theorem Adds.none {P : Task → Prop} (h : m'.agenda = m.agenda) : Adds P m m' :=
  .push [] (by simp) h

theorem adds_runHandler (h : HandlerId) (source : Option BusId) (argument : Argument) :
    Adds (Task.WindsUp s d) m (m.runHandler h source argument) := by
  unfold runHandler
  split
  · exact .fail rfl _
  · split
    · exact .none rfl
    · exact .push [_] (by simp [Task.WindsUp]) rfl

theorem adds_script (h : HandlerId) (source : Option BusId) (steps : List Step) :
    Adds (Task.WindsUp s d) m (m.script h source steps) := by
  unfold script
  split
  · exact .none rfl
  · rename_i rest
    refine .push [.script h source rest] (by simp [Task.WindsUp]) ?_
    cases source <;> rfl
  · exact .fail rfl _
  · exact .push [_, _, _] (by simp [Task.WindsUp]) rfl

theorem adds_finish (onComplete : Option HandlerId)
    (hd : ∀ session, m.world.session? s = some session → session.display = d) :
    Adds (Task.WindsUp s d) m (m.finish s onComplete) := by
  unfold finish
  split
  · exact .fail rfl _
  · rename_i session hs
    split
    · exact .none rfl
    · exact .push [_] (by simp [Task.WindsUp, hd session hs]) rfl

theorem adds_close (onComplete : Option HandlerId) :
    Adds (Task.WindsUp s d) m (m.close d (some (.session s onComplete))) := by
  unfold close
  split
  · exact .none rfl
  · split
    · exact .push [_, _] (by simp [Task.WindsUp]) rfl
    · exact .push [_] (by simp [Task.WindsUp]) rfl

theorem adds_settle (onComplete : Option HandlerId) :
    Adds (Task.WindsUp s d) m (m.settle d (some (.session s onComplete))) := by
  unfold settle
  split
  · exact .none rfl
  · split
    · exact .none rfl
    · exact .push [_] (by simp [Task.WindsUp]) rfl

theorem adds_sessionClosed (now : List Task) (onComplete : Option HandlerId) :
    Adds (Task.WindsUp s d) m (m.sessionClosed now s onComplete) := by
  unfold sessionClosed
  split
  · exact .fail rfl _
  · refine .push _ (fun t ht => ?_) rfl
    rcases List.mem_append.mp ht with ht | ht
    · rcases List.mem_cons.mp ht with rfl | ht
      · exact rfl
      · obtain ⟨h, -, rfl⟩ := List.mem_map.mp ht
        trivial
    · obtain rfl := List.mem_singleton.mp ht
      exact rfl

/-- The work of winding up stays of its kind, as long as no session is told of input. -/
theorem windsUp_exec (h : task.WindsUp s d) (hown : task.intervenes = false)
    (hd : ∀ session, m.world.session? s = some session → session.display = d) (now : List Task) :
    Adds (Task.WindsUp s d) m (m.exec now task) := by
  cases task with
  | finish t onComplete =>
      obtain rfl : t = s := h
      exact adds_finish onComplete hd
  | close e callback =>
      obtain ⟨rfl, onComplete, rfl⟩ := h
      exact adds_close onComplete
  | settle e callback =>
      obtain ⟨rfl, onComplete, rfl⟩ := h
      exact adds_settle onComplete
  | callback callback =>
      obtain ⟨onComplete, rfl⟩ := h
      exact adds_sessionClosed now onComplete
  | hook name text =>
      dsimp only [exec, hook]
      split
      · exact .none rfl
      · split
        · exact .fail rfl _
        · exact .push [_] (by simp [Task.WindsUp]) rfl
  | publish b event =>
      obtain rfl : b = .session s := h
      dsimp only [exec, publish]
      split
      · exact .none rfl
      · exact .push [_] (by simp [Task.WindsUp]) rfl
  | dispatch b =>
      obtain rfl : b = .session s := h
      dsimp only [exec, dispatch]
      split
      · exact .none rfl
      · split
        · exact .push [_, _] (by simp [Task.WindsUp]) rfl
        · exact .push [_] (by simp [Task.WindsUp]) rfl
  | drain b event holds =>
      obtain rfl : b = .session s := h
      dsimp only [exec, drain]
      split
      · exact .none rfl
      · exact .push [_, _] (by simp [Task.WindsUp]) rfl
  | deliver b listener =>
      obtain rfl : b = .session s := h
      dsimp only [exec, deliver]
      split
      · exact .none rfl
      · cases listener with
        | handler handler => exact .push [_] (by simp [Task.WindsUp]) rfl
        | observer t => exact .none rfl
        | input t kind => exact absurd hown (by simp [Task.intervenes])
  | call handler param => exact adds_runHandler ..
  | callWith handler b =>
      dsimp only [exec, callWith]
      split
      · exact .none rfl
      · exact adds_runHandler ..
  | script handler source steps => exact adds_script ..
  | returned handler step =>
      dsimp only [exec, returned]
      split <;> exact .none rfl
  | perform step => exact absurd hown (by simp [Task.intervenes])
  | leave t => exact .none rfl
  | hold t => exact .none rfl
  | _ => exact absurd h (by simp [Task.WindsUp])

/-- A failure in the middle of the work leaves some of it, or less than all that is below. -/
theorem Adds.above_or_cut {P : Task → Prop} (h : Adds P m m') (hagenda : m.agenda = tasks ++ below)
    (htasks : ∀ t ∈ tasks, P t) (hnormal : below ≠ [] ∧ ∀ b, below.head? ≠ some (.dispatch b)) :
    (∃ left, m'.agenda = left ++ below ∧ ∀ t ∈ left, P t) ∨
      m'.agenda.length < below.length := by
  cases h with
  | push new hnew heq =>
      refine .inl ⟨new ++ tasks, by rw [heq, hagenda, List.append_assoc], fun t ht => ?_⟩
      exact (List.mem_append.mp ht).elim (hnew t) (htasks t)
  | fail heq failure =>
      rename_i m'
      obtain ⟨before, hcut, -, hafter⟩ := exists_eq_append_unwind m'.agenda
      rw [agenda_fail]
      generalize (unwind m'.agenda).elim [] Prod.snd = after at hcut hafter
      rw [heq, hagenda] at hcut
      rcases List.append_eq_append_iff.mp hcut with ⟨gap, -, hbelow⟩ | ⟨gap, hsplit, rfl⟩
      · cases gap with
        | nil =>
            obtain rfl : below = after := hbelow
            rcases hafter with hnil | ⟨b, rest, hdispatch⟩
            · exact absurd hnil hnormal.1
            · exact absurd (by rw [hdispatch]; rfl) (hnormal.2 b)
        | cons task gap =>
            refine .inr ?_
            rw [hbelow, List.length_append, List.length_cons]
            omega
      · refine .inl ⟨gap, rfl, fun t ht => htasks t ?_⟩
        rw [hsplit]
        exact List.mem_append_right _ ht

/-! ## What becomes of sessions and displays -/

theorem woundUp_of_steady (h : m.world.Steady m'.world)
    (hface : ∀ e face, m.world.face? e = some face →
      ∃ face', m'.world.face? e = some face' ∧ (e ≠ d → face' = face)) :
    m.world.WoundUp s d m'.world := by
  constructor
  case sessions => simpa [standings] using congrArg List.length h.standings
  case others => exact fun t _ => h.session? t
  case self =>
    intro session hs
    have hstanding := h.session? s
    rw [hs] at hstanding
    obtain ⟨session', hs', hsame⟩ := Option.map_eq_some_iff.mp hstanding
    exact ⟨session', session.finished, hs', hsame⟩
  case managers => exact h.managers
  case face => exact hface

theorem woundUp_finish (onComplete : Option HandlerId) :
    m.world.WoundUp s d (m.finish s onComplete).world := by
  have hfaces := sameFaces_finish (m := m) s onComplete
  have hface : ∀ e face, m.world.face? e = some face →
      ∃ face', (m.finish s onComplete).world.face? e = some face' ∧ (e ≠ d → face' = face) :=
    fun e face he => ⟨face, hfaces.face? e face he, fun _ => rfl⟩
  unfold finish at hface ⊢
  split
  · exact woundUp_of_steady (by rw [world_fail]; exact .refl _) fun e face he =>
      ⟨face, by rw [world_fail]; exact he, fun _ => rfl⟩
  · rename_i session hs
    split
    · exact .refl ..
    · rename_i hrunning
      constructor
      case sessions =>
        rw [world_push, withWorld, World.sessions_modifySession, List.length_modify]
        rfl
      case others =>
        intro t ht
        rw [world_push, withWorld, World.session?_modifySession, if_neg (Ne.symm ht)]
        rfl
      case self =>
        intro found hfound
        obtain rfl : session = found := Option.some.inj (hs.symm.trans hfound)
        refine ⟨{ session with finished := true, actions := Table.empty }, true, ?_, rfl⟩
        rw [world_push, withWorld, World.session?_modifySession, if_pos rfl,
          World.session?_modifyDisplay, hs]
        rfl
      case managers => exact World.managers_modifySession ..
      case face =>
        intro e face he
        obtain ⟨face', he', hsame⟩ := hface e face he
        rw [hs] at he'
        simp only [hrunning] at he'
        exact ⟨face', he', hsame⟩

/-- Of all that can happen to a display, only the part about the one display is left. -/
theorem face_of_windsUp (h : task.WindsUp s d) (hagenda : m.agenda = task :: rest)
    (hown : task.intervenes = false)
    (hd : ∀ session, m.world.session? s = some session → session.display = d) {e : DisplayId}
    (hne : e ≠ d) {face face' : Display} (hhandling : Handling e m m' face face') :
    face' = face := by
  have hhead : ∀ t, m.agenda.head? = some t → t = task := fun t ht => by
    rw [hagenda, List.head?_cons, Option.some.injEq] at ht
    exact ht.symm
  have hhost : ∀ step, m.agenda.head? ≠ some (.perform step) := by
    intro step hstep
    rw [← hhead _ hstep] at hown
    exact absurd hown (by simp [Task.intervenes])
  have hconcerns : ∀ step, ¬ concerns e m step := by
    rintro step ⟨name, hstep, -⟩
    exact hhost _ hstep
  cases hhandling with
  | aside => rfl
  | joined hstep => exact absurd hstep (hhost _)
  | launched hstep => rw [← hhead _ hstep] at h; exact absurd h (by simp [Task.WindsUp])
  | left hstep hs =>
      obtain ⟨session, hs, rfl⟩ := hs
      rw [← hhead _ hstep] at h
      obtain ⟨onComplete, hcallback⟩ := h
      obtain ⟨rfl, -⟩ := Callback.session.inj hcallback
      exact absurd (hd session hs) hne
  | attached hstep => exact absurd hstep (hconcerns _)
  | detached hstep => exact absurd hstep (hconcerns _)
  | opened hstep => exact absurd hstep (hconcerns _)
  | emptied hstep => exact absurd hstep (hconcerns _)
  | shut hstep => rw [← hhead _ hstep] at h; exact absurd h.1 hne
  | noted hstep => rw [← hhead _ hstep] at h; exact absurd h.1 hne
  | flushed hstep => rw [← hhead _ hstep] at h; exact absurd h (by simp [Task.WindsUp])
  | shown hstep => rw [← hhead _ hstep] at h; exact absurd h (by simp [Task.WindsUp])
  | cleared hstep =>
      rcases hstep with hover | ⟨callback, hclose⟩
      · rw [← hhead _ hover] at h
        exact absurd h (by simp [Task.WindsUp])
      · rw [← hhead _ hclose] at h
        exact absurd h.1 hne

theorem Sound.woundUp_step (hsound : Sound m) (h : task.WindsUp s d)
    (hagenda : m.agenda = task :: rest) (hown : task.intervenes = false)
    (hd : ∀ session, m.world.session? s = some session → session.display = d) :
    m.world.WoundUp s d m.step.world := by
  cases hplain : task.isPlain with
  | true =>
      refine woundUp_of_steady (hsound.steady_step hagenda hplain) fun e face hface => ?_
      obtain ⟨face', hface', hhandling⟩ := (handles_step e m).handling face hface
      exact ⟨face', hface', fun hne => face_of_windsUp h hagenda hown hd hne hhandling⟩
  | false =>
      cases task with
      | finish t onComplete =>
          obtain rfl : t = s := h
          rw [step_eq hagenda]
          exact woundUp_finish (m := { m with agenda := rest }) onComplete
      | perform step => exact absurd hown (by simp [Task.intervenes])
      | start _ _ | proceed _ | follow _ _ _ | load _ _ _ | launch _ _ _ _ _ _ | forget _ =>
          exact False.elim h
      | _ => exact absurd hplain (by simp [Task.isPlain])

/-! ## The whole of it -/

/-- Nothing but work of winding the session up is left above the rest of the agenda, and nothing
has changed since the given world but that session and the face of its display. -/
structure Winding (s : SessionId) (d : DisplayId) (below : List Task) (w : World) (m : Machine) :
    Prop where
  above : ∃ left, m.agenda = left ++ below ∧ ∀ t ∈ left, t.WindsUp s d
  wound : w.WoundUp s d m.world

/-- A step of the work leaves more of it, or is a failure that is not caught above the rest. -/
theorem Winding.step {w : World} (h : Winding s d below w m) (hsound : m.Sound)
    (hs : w.session? s = some session) (hd : session.display = d)
    (hnormal : below ≠ [] ∧ ∀ b, below.head? ≠ some (.dispatch b))
    (hbusy : below.length < m.agenda.length)
    (hquiet : m.agenda.head?.any Task.intervenes = false) :
    Winding s d below w m.step ∨ m.step.agenda.length < below.length := by
  obtain ⟨⟨left, hagenda, hleft⟩, hwound⟩ := h
  cases left with
  | nil =>
      rw [hagenda] at hbusy
      exact absurd hbusy (lt_irrefl _)
  | cons task left =>
      have hhead : m.agenda = task :: (left ++ below) := hagenda
      have hown : task.intervenes = false := by
        rw [hhead] at hquiet
        exact hquiet
      have hdisplay : ∀ found, m.world.session? s = some found → found.display = d :=
        fun found hfound => (hwound.display_eq hs hfound).trans hd
      have hwinds := hleft task List.mem_cons_self
      have hwound' := hwound.trans (hsound.woundUp_step hwinds hhead hown hdisplay)
      have hadds : Adds (Task.WindsUp s d) { m with agenda := left ++ below } m.step := by
        rw [step_eq hhead]
        exact windsUp_exec (m := { m with agenda := left ++ below }) hwinds hown hdisplay _
      rcases hadds.above_or_cut rfl (fun t ht => hleft t (List.mem_cons_of_mem _ ht)) hnormal with
        habove | hcut
      · exact .inl ⟨habove, hwound'⟩
      · exact .inr hcut

/-- Between two times the host takes no step, and no input reaches a session. -/
def HostIdle (x : ℕ → Machine) (i n : ℕ) : Prop :=
  ∀ j, i ≤ j → j < n → (x j).agenda.head?.any Task.intervenes = false

theorem Execution.winding_of_worksOff (h : Execution x) (hworks : WorksOff tasks below x i n)
    (htasks : ∀ t ∈ tasks, t.WindsUp s d) (hquiet : HostIdle x i n)
    (hs : (x i).world.session? s = some session) (hd : session.display = d) {j : ℕ} (hij : i ≤ j)
    (hjn : j ≤ n) : Winding s d below (x i).world (x j) := by
  induction j, hij using Nat.le_induction with
  | base => exact ⟨⟨tasks, hworks.pushed, htasks⟩, .refl ..⟩
  | succ j hij ih =>
      have hbusy := hworks.busy j hij (by omega)
      have hstep : x (j + 1) = (x j).step := h.eq_step fun hnil => by
        rw [hnil] at hbusy
        exact absurd hbusy (Nat.not_lt_zero _)
      rcases (ih (by omega)).step (h.reachable j).sound hs hd hworks.normal hbusy
        (hquiet j hij (by omega)) with hwinding | hcut
      · rw [hstep]
        exact hwinding
      -- While the work goes on, and at its end, all of the rest is there.
      · rw [← hstep] at hcut
        have hthere : below.length ≤ (x (j + 1)).agenda.length := by
          rcases hjn.lt_or_eq with hlt | rfl
          · exact (hworks.busy (j + 1) (by omega) hlt).le
          · exact hworks.done.ge
        omega

/-- When the work of winding a session up has been done undisturbed, nothing is left of it on the
agenda, and nothing has changed but that session and the face of its display. -/
theorem Execution.windsUp_of_worksOff (h : Execution x) (hworks : WorksOff tasks below x i n)
    (htasks : ∀ t ∈ tasks, t.WindsUp s d) (hquiet : HostIdle x i n)
    (hs : (x i).world.session? s = some session) (hd : session.display = d) :
    (x n).agenda = below ∧ (x i).world.WoundUp s d (x n).world := by
  obtain ⟨⟨left, hagenda, -⟩, hwound⟩ :=
    h.winding_of_worksOff hworks htasks hquiet hs hd hworks.later le_rfl
  have hlength : left.length + below.length = below.length := by
    rw [← List.length_append, ← hagenda]
    exact hworks.done
  obtain rfl : left = [] := List.eq_nil_of_length_eq_zero (by omega)
  exact ⟨hagenda, hwound⟩

end Machine

end Parley
