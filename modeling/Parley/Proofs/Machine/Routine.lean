import Parley.Machine.Run
import Parley.Proofs.World.Steady

/-!
# Routine work

Only three kinds of tasks carry out the work of a bus: publishing, going on with a dispatch and
draining the queue.  All others are routine: they change every bus calmly, put ordinary tasks
in front of the agenda, and leave what was there before in place (`Routine`).  Or they fail
after such work (`RoutineOrFail`).

What a task does besides depends on its kind.  Unless it belongs to the few that move sessions
or work on managers, it leaves the world steady (`Task.isPlain`); unless it is there to end
subscriptions, all of them stay (`Task.unsubscribes`); unless it is there to change a registry,
all registries stay (`Task.rewritesActions`); a session comes to listen to its own bus, or to that
of the display that it is made on (`Task.Seats`); and some tasks are put on the agenda by certain
others only (`Task.Yields`).

What was there before may change in one way: a loop over the actions of a line is cut off from
the line when actions are removed from it (`Task.Loosens`).

This module shows how routine work is put together; the next shows that the tasks are routine.
-/

namespace Parley

/-! ## Kinds of tasks -/

/-- Whether a step of a host only looks something up, works on buses, displays and handlers, or
leaves the rest to other tasks. -/
def Step.isPlain : Step → Bool
  | .newSession .. | .newManager _ | .manager _ | .session _ (.node ..) => false
  | _ => true

namespace Task

/-- Whether a task leaves the sessions where they stand, and the managers as they are. -/
def isPlain : Task → Bool
  | .start .. | .proceed _ | .follow .. | .load .. | .finish .. | .launch .. | .forget _ => false
  | .perform step => step.isPlain
  | _ => true

/-- The session that works on its conversation by a task. -/
def actor? : Task → Option SessionId
  | .start s _ | .proceed s | .follow s _ _ | .present s _ => some s
  | _ => none

/-- Whether a task ends subscriptions to a bus. -/
def unsubscribes (b : BusId) : Task → Bool
  | .perform (.bus _ (.unsubscribe ..)) | .perform (.bus _ (.clear _)) => true
  | .finish .. => match b with
    | .display _ => true
    | _ => false
  | _ => false

/-- A task makes a session on a display. -/
def Makes (w : World) (d : DisplayId) (s : SessionId) : Task → Prop
  | .launch _ _ e .. => e = d ∧ s = ⟨w.sessions.length⟩
  | .perform (.newSession _ display ..) =>
    w.displayNames.get? display = some d ∧ s = ⟨w.sessions.length⟩
  | _ => False

/-- A task may let a listener subscribe to a bus.  Input comes to a session from the display that
it is made on, and what happens to a session is observed on its own bus. -/
def Seats (w : World) (task : Task) (b : BusId) : Listener → Prop
  | .handler _ => True
  | .observer s => b = .session s
  | .input s _ => ∃ d, b = .display d ∧ task.Makes w d s

/-- Whether a task changes the action handlers of a session. -/
def rewritesActions : Task → Bool
  | .finish .. | .perform (.session _ (.registerAction ..))
  | .perform (.session _ (.removeAction ..)) => true
  | _ => false

/-- Whether a task removes actions of a line, and so may cut the loops over them off. -/
def cutsLoops : Task → Bool
  | .perform (.session _ (.node _ (.line _ (.removeAction _)))) => true
  | _ => false

/-- Whether a task may put another on the agenda.  A line waits to be shown only after a move of
its session; a display is told of a node or of the end of a conversation by the session that works
on it; an event is published on the bus of a session by the session itself, by the host, or
because the session has closed; a session is told of a closing only if it has been finished, and
by the display that it has asked to close; and a manager makes and forgets sessions only when it
is asked to. -/
@[simp] def Yields (task : Task) : Task → Prop
  | .present s _ => (∃ title, task = .start s title) ∨ task = .proceed s ∨
      ∃ key destination, task = .follow s key destination
  | .showLine _ line => ∃ s, task = .present s line
  | .showNode .. | .showOver _ => ∃ s, task.actor? = some s
  | .publish b event => ∀ s, b = .session s → task.actor? = some s ∨
      (event.type = .dialogue .contextClosed ∧ ∃ c, task = .callback c) ∨
      ∃ name step, task = .perform (.bus name step)
  | .close _ c => (∃ s onComplete, task = .finish s onComplete) ∨
      ∀ s onComplete, c ≠ some (.session s onComplete)
  | .settle d c => task = .close d c
  | .flush d .. => (∃ settled waiting, task = .flush d settled waiting) ∨
      ∃ name, task = .perform (.display name .flushClose)
  | .callback c => ∃ d, task = .settle d (some c) ∨
      ∃ settled waiting, task = .flush d settled waiting
  | .launch .. | .forget _ => ∃ step, task = .perform (.manager step)
  | _ => True

/-- Whether a task marks a place in the work of a bus. -/
@[simp] def isFrame : Task → Bool
  | .dispatch _ | .drain .. | .deliver .. => true
  | _ => false

/-- The buses a task works on are there. -/
@[simp] def Known (w : World) : Task → Prop
  | .publish b _ | .dispatch b | .drain b .. | .deliver b _ => w.HasBus b
  | .actions (.display d) _ => w.HasBus (.display d)
  | _ => True

/-- A task that a routine task may put on the agenda. -/
structure Ordinary (w : World) (task : Task) : Prop where
  isFrame : task.isFrame = false
  known : task.Known w

theorem Known.grow {w w' : World} (h : ∀ b, w.HasBus b → w'.HasBus b) {task : Task}
    (hknown : task.Known w) : task.Known w' := by
  cases task with
  | publish b event => exact h b hknown
  | dispatch b => exact h b hknown
  | drain b event holds => exact h b hknown
  | deliver b listener => exact h b hknown
  | actions sink course =>
      cases sink with
      | session s => trivial
      | display d => exact h (.display d) hknown
  | _ => trivial

@[simp] theorem ordinary_iff {w : World} {task : Task} :
    task.Ordinary w ↔ task.isFrame = false ∧ task.Known w :=
  ⟨fun h => ⟨h.isFrame, h.known⟩, fun h => ⟨h.1, h.2⟩⟩

theorem Ordinary.grow {w w' : World} (h : ∀ b, w.HasBus b → w'.HasBus b) {task : Task}
    (hordinary : task.Ordinary w) : task.Ordinary w' :=
  ⟨hordinary.isFrame, hordinary.known.grow h⟩

/-- A change of tasks that affects nothing but the course of a loop. -/
def KeepsFrames (f : Task → Task) : Prop :=
  ∀ task, f task = task ∨
    ∃ sink course course', task = .actions sink course ∧ f task = .actions sink course'

theorem keepsFrames_id : KeepsFrames id := fun _ => .inl rfl

theorem KeepsFrames.comp {f g : Task → Task} (hf : KeepsFrames f) (hg : KeepsFrames g) :
    KeepsFrames (g ∘ f) := by
  intro task
  rcases hf task with heq | ⟨sink, course, course', rfl, heq⟩
  · rw [Function.comp_apply, heq]
    exact hg task
  · rw [Function.comp_apply, heq]
    rcases hg (.actions sink course') with hkept | ⟨sink', before, after, hfrom, hto⟩
    · exact .inr ⟨sink, course, course', rfl, hkept⟩
    · obtain ⟨rfl, rfl⟩ := Task.actions.inj hfrom
      exact .inr ⟨sink, course, after, rfl, hto⟩

theorem keepsFrames_cutOff (line : LineRef) (had : List Action) :
    KeepsFrames (Machine.cutOff line had) := by
  intro task
  cases task with
  | actions sink course =>
      cases course with
      | live ref n =>
          by_cases h : ref = line
          · exact .inr ⟨sink, _, _, rfl, if_pos h⟩
          · exact .inl (if_neg h)
      | frozen rest => exact .inl rfl
  | _ => exact .inl rfl

/-- What a step may make of the tasks that it leaves on the agenda of a world: the loops over
one line are cut off from it, with the actions it has. -/
inductive Loosens (w : World) : (Task → Task) → Prop
  | none : Loosens w id
  | cut (line : LineRef) : Loosens w (Machine.cutOff line (w.line line).actions)

theorem Loosens.keepsFrames {w : World} {f : Task → Task} (h : Loosens w f) : KeepsFrames f := by
  cases h with
  | none => exact keepsFrames_id
  | cut line => exact keepsFrames_cutOff line _

theorem KeepsFrames.isFrame {f : Task → Task} (h : KeepsFrames f) (task : Task) :
    (f task).isFrame = task.isFrame := by
  rcases h task with heq | ⟨sink, course, course', rfl, heq⟩
  · rw [heq]
  · rw [heq]
    rfl

theorem KeepsFrames.eq_of_isFrame {f : Task → Task} (h : KeepsFrames f) {task : Task}
    (hframe : (f task).isFrame = true) : f task = task := by
  rcases h task with heq | ⟨sink, course, course', rfl, heq⟩
  · exact heq
  · rw [heq] at hframe
    exact absurd hframe (by simp [Task.isFrame])

theorem KeepsFrames.eq_of_ne {f : Task → Task} (h : KeepsFrames f) {task : Task}
    (hne : ∀ sink course, task ≠ .actions sink course) : f task = task := by
  rcases h task with heq | ⟨sink, course, course', heq, -⟩
  exacts [heq, absurd heq (hne sink course)]

theorem KeepsFrames.known {f : Task → Task} (h : KeepsFrames f) {w : World} {task : Task}
    (hknown : task.Known w) : (f task).Known w := by
  rcases h task with heq | ⟨sink, course, course', rfl, heq⟩
  · rw [heq]
    exact hknown
  · rw [heq]
    cases sink with
    | session s => trivial
    | display d => exact hknown

end Task

namespace Machine

/-! ## Small changes -/

@[simp] theorem world_logAll (m : Machine) (log : List LogEntry) :
    (m.logAll log).world = m.world := rfl

@[simp] theorem world_report (m : Machine) (level : Level) (text : String) :
    (m.report level text).world = m.world := rfl

@[simp] theorem world_give (m : Machine) (answer : Answer) : (m.give answer).world = m.world := rfl

@[simp] theorem world_push (m : Machine) (tasks : List Task) : (m.push tasks).world = m.world := rfl

theorem world_fail (m : Machine) (failure : Failure) : (m.fail failure).world = m.world := by
  unfold fail
  split <;> rfl

@[simp] theorem managers_setSession (m : Machine) (s : SessionId) (session : Session) :
    (m.setSession s session).world.managers = m.world.managers :=
  World.managers_modifySession ..

@[simp] theorem agenda_push (m : Machine) (tasks : List Task) :
    (m.push tasks).agenda = tasks ++ m.agenda := rfl

/-! ## Routine work -/

/-- The work of a routine task, but for failing. -/
structure Routine (task : Task) (m m' : Machine) : Prop where
  world : m.world.Calm m'.world
  steady : task.isPlain = true → m.world.Steady m'.world
  retains : ∀ b, task.unsubscribes b = false → (m.world.bus b).Retains (m'.world.bus b)
  admits : ∀ b, (m.world.bus b).Admits (task.Seats m.world b) (m'.world.bus b)
  registries : task.rewritesActions = false → m.world.SameRegistries m'.world
  agenda : ∃ tasks f, (∀ t ∈ tasks, t.Ordinary m'.world ∧ task.Yields t) ∧
    Task.Loosens m.world f ∧ (task.cutsLoops = false → f = id) ∧
    m'.agenda = tasks ++ m.agenda.map f

/-- The work of a routine task. -/
inductive RoutineOrFail (task : Task) (m : Machine) : Machine → Prop
  | routine {m' : Machine} (h : Routine task m m') : RoutineOrFail task m m'
  | fail {m' : Machine} (h : Routine task m m') (failure : Failure) :
      RoutineOrFail task m (m'.fail failure)

variable {task : Task} {m m' m'' : Machine}

namespace Routine

/-- The world changes calmly, and the agenda stays as it is. -/
theorem of_calm (h : m.world.Calm m'.world)
    (hsteady : task.isPlain = true → m.world.Steady m'.world)
    (hretains : ∀ b, task.unsubscribes b = false → (m.world.bus b).Retains (m'.world.bus b))
    (hadmits : ∀ b, (m.world.bus b).Admits (task.Seats m.world b) (m'.world.bus b))
    (hregistries : task.rewritesActions = false → m.world.SameRegistries m'.world)
    (hagenda : m'.agenda = m.agenda) : Routine task m m' :=
  ⟨h, hsteady, hretains, hadmits, hregistries, [], id, by simp, .none, fun _ => rfl,
    by simpa using hagenda⟩

theorem refl (m : Machine) : Routine task m m :=
  of_calm (World.SameBuses.refl _).calm (fun _ => .refl _) (fun _ _ => .refl _)
    (fun _ => .refl _) (fun _ => .refl _) rfl

/-- One bus changes calmly. -/
theorem modifyBus (m : Machine) (b : BusId) {f : Bus → Bus} (h : ∀ bus : Bus, bus.Calm (f bus))
    (hretains : ∀ c, task.unsubscribes c = false → ∀ bus : Bus, bus.Retains (f bus))
    (hadmits : ∀ bus : Bus, bus.Admits (task.Seats m.world b) (f bus)) :
    Routine task m (m.withWorld fun w => w.modifyBus b f) :=
  of_calm (World.calm_modifyBus h) (fun _ => World.steady_modifyBus ..)
    (fun c hc => World.bus_modifyBus_rel .refl (hretains c hc) c) (World.admits_modifyBus hadmits)
    (fun _ => World.sameRegistries_modifyBus m.world b f) rfl

/-- After that, the buses and the agenda stay as they are. -/
theorem same (h : Routine task m m') (hworld : m'.world.SameBuses m''.world)
    (hsteady : task.isPlain = true → m'.world.Steady m''.world)
    (hregistries : task.rewritesActions = false → m'.world.SameRegistries m''.world)
    (hagenda : m''.agenda = m'.agenda) : Routine task m m'' := by
  obtain ⟨tasks, f, htasks, hf, hcuts, heq⟩ := h.agenda
  refine ⟨h.world.trans_same hworld, fun hplain => (h.steady hplain).trans (hsteady hplain),
    fun b hb => hworld.bus b ▸ h.retains b hb, fun b => hworld.bus b ▸ h.admits b,
    fun hkept => (h.registries hkept).trans (hregistries hkept), tasks, f,
    fun t ht => ⟨(htasks t ht).1.grow hworld.grows, (htasks t ht).2⟩, hf, hcuts,
    hagenda.trans heq⟩

/-- After that, the world is kept. -/
theorem kept (h : Routine task m m') (hworld : m'.world.Kept m''.world)
    (hagenda : m''.agenda = m'.agenda) : Routine task m m'' :=
  h.same hworld.buses (fun _ => hworld.steady) (fun _ => hworld.registries) hagenda

theorem emit (h : Routine task m m') (entries : List TraceEntry) :
    Routine task m (m'.emit entries) :=
  h.kept (.refl _) rfl

theorem logAll (h : Routine task m m') (log : List LogEntry) : Routine task m (m'.logAll log) :=
  h.emit _

theorem report (h : Routine task m m') (level : Level) (text : String) :
    Routine task m (m'.report level text) :=
  h.logAll _

theorem give (h : Routine task m m') (answer : Answer) : Routine task m (m'.give answer) :=
  h.kept (.refl _) rfl

theorem push (h : Routine task m m') {tasks : List Task}
    (htasks : ∀ t ∈ tasks, t.Ordinary m'.world ∧ task.Yields t) :
    Routine task m (m'.push tasks) := by
  obtain ⟨before, f, hbefore, hf, hcuts, heq⟩ := h.agenda
  refine ⟨h.world, h.steady, h.retains, h.admits, h.registries, tasks ++ before, f, ?_, hf, hcuts,
    ?_⟩
  · exact List.forall_mem_append.mpr ⟨htasks, hbefore⟩
  · rw [Machine.push, heq, List.append_assoc]

theorem withWorld (h : Routine task m m') {f : World → World}
    (hf : m'.world.Kept (f m'.world)) : Routine task m (m'.withWorld f) :=
  h.kept hf rfl

/-- A task that is not plain may do as it likes with everything but buses and registries. -/
theorem rework (h : Routine task m m') {f : World → World} (htask : task.isPlain = false)
    (hf : m'.world.SameBuses (f m'.world)) (hregistries : m'.world.SameRegistries (f m'.world)) :
    Routine task m (m'.withWorld f) :=
  h.same hf (fun hplain => absurd (htask.symm.trans hplain) (by simp)) (fun _ => hregistries) rfl

/-- A task that is not plain puts a session back that has kept its bus and its registry. -/
theorem setSession (h : Routine task m m') {s : SessionId} {old session : Session}
    (htask : task.isPlain = false) (hold : m'.world.session? s = some old)
    (hbus : session.bus = old.bus) (hactions : session.actions = old.actions) :
    Routine task m (m'.setSession s session) := by
  refine h.rework htask (World.sameBuses_modifySession fun found hfound => ?_)
    (World.sameRegistries_modifySession fun found hfound => ?_)
  · rw [hold, Option.some.injEq] at hfound
    rw [hbus, hfound]
  · rw [hold, Option.some.injEq] at hfound
    rw [hactions, hfound]

/-- A session is put back that has kept its bus and its place. -/
theorem resetSession (h : Routine task m m') {s : SessionId} {old session : Session}
    (hold : m'.world.session? s = some old) (hbus : session.bus = old.bus)
    (hstanding : session.standing = old.standing)
    (hactions : task.rewritesActions = false → session.actions = old.actions) :
    Routine task m (m'.setSession s session) := by
  have hfound : ∀ found, m'.world.session? s = some found → found = old := fun found hfound =>
    Option.some.inj (hfound.symm.trans hold)
  refine h.same (World.sameBuses_modifySession fun found hs => ?_)
    (fun _ => World.steady_modifySession fun found hs => ?_)
    (fun hkept => World.sameRegistries_modifySession fun found hs => ?_) rfl
  · rw [hfound found hs, hbus]
  · rw [hfound found hs, hstanding]
  · rw [hfound found hs, hactions hkept]

/-- The loops over a line are cut off from it, with the actions that it had. -/
theorem cutOff (h : Routine task m m') (hcuts : task.cutsLoops = true)
    (hagenda : m'.agenda = m.agenda) (line : LineRef) :
    Routine task m
      { m' with agenda := m'.agenda.map (Machine.cutOff line (m.world.line line).actions) } :=
  ⟨h.world, h.steady, h.retains, h.admits, h.registries, [], _, by simp, .cut line,
    fun hnot => absurd (hcuts.symm.trans hnot) (by simp), by simp [hagenda]⟩

end Routine

theorem Routine.toFail (h : Routine task m m') : RoutineOrFail task m m' := .routine h

theorem routineOrFail_fail (m : Machine) (failure : Failure) :
    RoutineOrFail task m (m.fail failure) :=
  .fail (.refl m) failure

end Machine

end Parley
