import Parley.Proofs.Input.Hushed

/-!
# The same work beside a hushed display

While a session works on an input of its display, the dispatch of that input waits below on the
agenda.  Beside it stands a machine that carries out the same operation directly, with the
display hushed and nothing below (`Twin`).  This module shows how such a pair of machines goes
on alike until the operation is over.  If it fails, the failure is logged by the dispatch, while
the operation that was called directly ends with it (`Beside`).
-/

namespace Parley

/-- Whether an entry tells of the conversation.  The answers that the steps of a handler get are
left out, for they may tell of the bus of the display. -/
def TraceEntry.isSeen : TraceEntry → Bool
  | .returned .. => false
  | _ => true

/-- What is seen of a conversation. -/
def seen (trace : List TraceEntry) : List TraceEntry :=
  trace.filter TraceEntry.isSeen

@[simp] theorem seen_append (first second : List TraceEntry) :
    seen (first ++ second) = seen first ++ seen second :=
  List.filter_append ..

namespace Task

/-- A task that has no part in the work of the bus of a display. -/
@[simp] def Beyond (d : DisplayId) : Task → Prop
  | .dispatch b | .drain b .. | .deliver b _ | .callWith _ b => b ≠ .display d
  | .script _ source _ => source ≠ some (.display d)
  | _ => True

/-- A task that reports the input of a display, or what is left of it when that is done. -/
@[simp] def Reports (d : DisplayId) (s : SessionId) : Task → Prop
  | .publish b _ => b = .display d
  | .drain b _ holds => b = .display d ∧ ∀ listener ∈ holds, ∃ kind, listener = .input s kind
  | .actions sink _ => sink = .display d
  | .answer _ => True
  | _ => False

variable {d : DisplayId} {s : SessionId} {task : Task}

theorem beyond_cutOff {line : LineRef} {had : List Action} (h : task.Beyond d) :
    (Machine.cutOff line had task).Beyond d := by
  rcases keepsFrames_cutOff line had task with heq | ⟨sink, course, course', rfl, heq⟩ <;> rw [heq]
  · exact h
  · trivial

theorem reports_cutOff {line : LineRef} {had : List Action} (h : task.Reports d s) :
    (Machine.cutOff line had task).Reports d s := by
  rcases keepsFrames_cutOff line had task with heq | ⟨sink, course, course', rfl, heq⟩ <;> rw [heq]
  · exact h
  · exact h

end Task

namespace Machine

variable {d : DisplayId} {s : SessionId} {earlier : List TraceEntry} {m m' : Machine}

/-- A machine at work on an input of a display, and one at work on the same operation called
directly.  What the first has seen before the operation is given apart. -/
structure Twin (d : DisplayId) (s : SessionId) (earlier : List TraceEntry) (m m' : Machine) :
    Prop where
  world : m'.world = m.world.hush d
  seen : seen m.trace = earlier ++ seen m'.trace
  result : ∃ answer, m'.result = .ok answer
  agenda : ∃ work below, m.agenda = work ++ .leave s :: .dispatch (.display d) :: below ∧
    m'.agenda = work ++ [.leave s, .answer .nothing] ∧
    (∀ task ∈ work, task.Beyond d) ∧ ∀ task ∈ below, task.Reports d s

/-- What is logged of an operation by the dispatch that it was part of. -/
def logged (w : World) (d : DisplayId) : Except Failure Answer → List TraceEntry
  | .ok _ => []
  | .error failure => [listenerFailure w (.display d) failure]

/-- The two machines go on alike, or the operation is over. -/
inductive Beside (d : DisplayId) (s : SessionId) (earlier : List TraceEntry) (m m' : Machine) :
    Prop
  | twin (h : Twin d s earlier m m')
  | ended (hworld : m'.world = m.world.hush d)
      (hseen : Parley.seen m.trace =
        earlier ++ Parley.seen m'.trace ++ logged m.world d m'.result)
      (hagenda : ∃ below, m.agenda = .dispatch (.display d) :: below ∧
        ∀ task ∈ below, task.Reports d s)
      (hagenda' : m'.agenda = [])

/-! ## Looking things up -/

namespace Twin

theorem session? (h : Twin d s earlier m m') (t : SessionId) :
    m'.world.session? t = m.world.session? t := by
  rw [h.world, World.session?_hush]

theorem handler? (h : Twin d s earlier m m') (handler : HandlerId) :
    m'.world.handler? handler = m.world.handler? handler := by
  rw [h.world, World.handler?_hush]

theorem manager? (h : Twin d s earlier m m') (id : ManagerId) :
    m'.world.manager? id = m.world.manager? id := by
  rw [h.world, World.manager?_hush]

theorem cached? (h : Twin d s earlier m m') (id : ManagerId) (conversation : String) :
    m'.world.cached? id conversation = m.world.cached? id conversation := by
  rw [h.world]
  rfl

theorem display? (h : Twin d s earlier m m') (e : DisplayId) :
    (m.world.display? e = none ∧ m'.world.display? e = none) ∨
      ∃ display bus, m.world.display? e = some display ∧
        m'.world.display? e = some { display with bus := bus } := by
  rw [h.world]
  exact World.display?_hush m.world d e

theorem bus (h : Twin d s earlier m m') {b : BusId} (hb : b ≠ .display d) :
    m'.world.bus b = m.world.bus b := by
  rw [h.world, World.bus_hush_of_ne hb]

theorem config (h : Twin d s earlier m m') (c : ConfigId) :
    m'.world.config c = m.world.config c := by
  rw [h.world]
  rfl

theorem configOf (h : Twin d s earlier m m') (session : Session) :
    m'.world.configOf session = m.world.configOf session := by
  rw [h.world]
  rfl

theorem line (h : Twin d s earlier m m') (line : LineRef) :
    m'.world.line line = m.world.line line := by
  rw [h.world]
  rfl

theorem written (h : Twin d s earlier m m') (event : Event LineRef) :
    m'.world.written event = m.world.written event := by
  rw [h.world]
  rfl

theorem labelOf (h : Twin d s earlier m m') (t : SessionId) :
    m'.world.labelOf t = m.world.labelOf t := by
  rw [h.world]
  rfl

theorem handlerNames (h : Twin d s earlier m m') :
    m'.world.handlerNames = m.world.handlerNames := by
  rw [h.world]
  rfl

theorem sessionNames (h : Twin d s earlier m m') :
    m'.world.sessionNames = m.world.sessionNames := by
  rw [h.world]
  rfl

theorem displayNames (h : Twin d s earlier m m') :
    m'.world.displayNames = m.world.displayNames := by
  rw [h.world]
  rfl

theorem manager (h : Twin d s earlier m m') : m'.world.manager = m.world.manager := by
  rw [h.world]
  rfl

/-! ## Going on alike -/

theorem setWorld (h : Twin d s earlier m m') {w w' : World} (hworld : w' = w.hush d) :
    Twin d s earlier { m with world := w } { m' with world := w' } :=
  ⟨hworld, h.seen, h.result, h.agenda⟩

/-- The worlds change in ways that differ by no more than the hushed display. -/
theorem withWorld (h : Twin d s earlier m m') {f g : World → World}
    (hf : (f m.world).hush d = g (m.world.hush d)) :
    Twin d s earlier (m.withWorld f) (m'.withWorld g) :=
  h.setWorld (by rw [h.world, hf])

theorem setSession (h : Twin d s earlier m m') (t : SessionId) (session : Session) :
    Twin d s earlier (m.setSession t session) (m'.setSession t session) :=
  h.withWorld rfl

theorem modifyDisplay (h : Twin d s earlier m m') {e : DisplayId} {f : Display → Display}
    (hf : ∀ display : Display, ({ f display with bus := {} } : Display) =
      f { display with bus := {} }) :
    Twin d s earlier (m.withWorld fun w => w.modifyDisplay e f)
      (m'.withWorld fun w => w.modifyDisplay e f) :=
  h.withWorld (World.hush_modifyDisplay hf)

theorem emit (h : Twin d s earlier m m') (entries : List TraceEntry) :
    Twin d s earlier (m.emit entries) (m'.emit entries) := by
  refine ⟨h.world, ?_, h.result, h.agenda⟩
  rw [Machine.emit, Machine.emit, seen_append, seen_append, h.seen, List.append_assoc]

/-- Answers that are left out of what is seen may differ. -/
theorem emitUnseen (h : Twin d s earlier m m') {entries entries' : List TraceEntry}
    (hentries : Parley.seen entries = []) (hentries' : Parley.seen entries' = []) :
    Twin d s earlier (m.emit entries) (m'.emit entries') := by
  refine ⟨h.world, ?_, h.result, h.agenda⟩
  rw [Machine.emit, Machine.emit, seen_append, seen_append, hentries, hentries',
    List.append_nil, List.append_nil, h.seen]

theorem logAll (h : Twin d s earlier m m') (log : List LogEntry) :
    Twin d s earlier (m.logAll log) (m'.logAll log) :=
  h.emit _

theorem report (h : Twin d s earlier m m') (level : Level) (text : String) :
    Twin d s earlier (m.report level text) (m'.report level text) :=
  h.logAll _

theorem give (h : Twin d s earlier m m') (answer answer' : Answer) :
    Twin d s earlier (m.give answer) (m'.give answer') :=
  ⟨h.world, h.seen, ⟨answer', rfl⟩, h.agenda⟩

theorem push (h : Twin d s earlier m m') {tasks : List Task}
    (htasks : ∀ task ∈ tasks, task.Beyond d) :
    Twin d s earlier (m.push tasks) (m'.push tasks) := by
  obtain ⟨work, below, hagenda, hagenda', hwork, hbelow⟩ := h.agenda
  refine ⟨h.world, h.seen, h.result, tasks ++ work, below, ?_, ?_, ?_, hbelow⟩
  · rw [agenda_push, hagenda, List.append_assoc]
  · rw [agenda_push, hagenda', List.append_assoc]
  · exact List.forall_mem_append.mpr ⟨htasks, hwork⟩

theorem cutOff (h : Twin d s earlier m m') (line : LineRef) (had : List Action) :
    Twin d s earlier { m with agenda := m.agenda.map (Machine.cutOff line had) }
      { m' with agenda := m'.agenda.map (Machine.cutOff line had) } := by
  obtain ⟨work, below, hagenda, hagenda', hwork, hbelow⟩ := h.agenda
  refine ⟨h.world, h.seen, h.result, work.map (Machine.cutOff line had),
    below.map (Machine.cutOff line had), ?_, ?_, ?_, ?_⟩
  · rw [hagenda, List.map_append]
    rfl
  · rw [hagenda', List.map_append]
    rfl
  · exact List.forall_mem_map.mpr fun task htask => Task.beyond_cutOff (hwork task htask)
  · exact List.forall_mem_map.mpr fun task htask => Task.reports_cutOff (hbelow task htask)

theorem beside (h : Twin d s earlier m m') : Beside d s earlier m m' := .twin h

/-! ## Failing -/

theorem listenerFailure_eq (h : Twin d s earlier m m') {b : BusId} (hb : b ≠ .display d)
    (failure : Failure) :
    listenerFailure m'.world b failure = listenerFailure m.world b failure := by
  rw [listenerFailure, h.bus hb, listenerFailure]

end Twin

theorem fail_of_unwind_eq_none (h : unwind m.agenda = none) (failure : Failure) :
    m.fail failure = { m with agenda := [], result := .error failure } := by
  rw [fail, h]

theorem fail_of_unwind_eq_some {b : BusId} {rest : List Task}
    (h : unwind m.agenda = some (b, rest)) (failure : Failure) :
    m.fail failure =
      { m with agenda := rest, trace := m.trace ++ [listenerFailure m.world b failure] } := by
  rw [fail, h]

/-- A failure ends with the innermost dispatch.  If that is the dispatch of the input, nothing is
left of the operation. -/
theorem Twin.fail (h : Twin d s earlier m m') (failure : Failure) :
    Beside d s earlier (m.fail failure) (m'.fail failure) := by
  obtain ⟨work, below, hagenda, hagenda', hwork, hbelow⟩ := h.agenda
  obtain ⟨before, hbefore, hnone, hafter⟩ := exists_eq_append_unwind work
  generalize (unwind work).elim [] Prod.snd = after at hbefore hafter
  rcases hafter with rfl | ⟨b, after, rfl⟩
  · rw [List.append_nil] at hbefore
    subst hbefore
    have hunwind : unwind m.agenda = some (.display d, .dispatch (.display d) :: below) := by
      rw [hagenda, unwind_append hnone]
      rfl
    have hunwind' : unwind m'.agenda = none := by
      rw [hagenda', unwind_append hnone]
      rfl
    rw [fail_of_unwind_eq_some hunwind, fail_of_unwind_eq_none hunwind']
    refine .ended h.world ?_ ⟨below, rfl, hbelow⟩ rfl
    rw [seen_append, h.seen]
    rfl
  · subst hbefore
    rw [List.append_assoc, List.cons_append] at hagenda hagenda'
    have hunwind : unwind m.agenda = some (b, .dispatch b ::
        (after ++ .leave s :: .dispatch (.display d) :: below)) := by
      rw [hagenda, unwind_append hnone]
      rfl
    have hunwind' : unwind m'.agenda = some (b, .dispatch b ::
        (after ++ [.leave s, .answer .nothing])) := by
      rw [hagenda', unwind_append hnone]
      rfl
    have hafter := (List.forall_mem_append.mp hwork).2
    have hb : b ≠ .display d := (List.forall_mem_cons.mp hafter).1
    rw [fail_of_unwind_eq_some hunwind, fail_of_unwind_eq_some hunwind']
    refine .twin ⟨h.world, ?_, h.result, .dispatch b :: after, below, rfl, rfl, hafter, hbelow⟩
    rw [seen_append, seen_append, h.seen, h.listenerFailure_eq hb, List.append_assoc]

/-! ## Who is alive -/

/-- The same listeners are alive for the two machines. -/
def SameLife (now now' : List Task) (m m' : Machine) : Prop :=
  m'.world.alive (Task.heldBy m'.world now') = m.world.alive (Task.heldBy m.world now)

/-- The dispatch of an input keeps nobody alive but the session that hears it. -/
def KeepsOnly (d : DisplayId) (s : SessionId) (w : World) : Prop :=
  ∀ listener ∈ (w.bus (.display d)).dispatching.elim [] Dispatch.holds,
    ∃ kind, listener = .input s kind

theorem dispatchHolds_hush {task : Task} {w : World} (h : task.Beyond d) :
    task.dispatchHolds (w.hush d) = task.dispatchHolds w := by
  cases task with
  | dispatch b => rw [Task.dispatchHolds, World.bus_hush_of_ne h, Task.dispatchHolds]
  | _ => rfl

/-- Tasks that hold on to nothing but a session. -/
structure HoldOnly (s : SessionId) (w : World) (agenda : List Task) : Prop where
  sessions : ∀ t, t ∈ (Task.heldBy w agenda).sessions → t = s
  handlers : (Task.heldBy w agenda).handlers = []
  managers : (Task.heldBy w agenda).managers = []

theorem HoldOnly.cons {task : Task} {w : World} {agenda : List Task} (h : HoldOnly s w agenda)
    (hsessions : ∀ t ∈ task.sessions, t = s) (hhandlers : task.handlers = [])
    (hmanagers : task.managers = [])
    (hdispatch : ∀ listener ∈ task.dispatchHolds w, ∃ kind, listener = .input s kind) :
    HoldOnly s w (task :: agenda) := by
  constructor
  · intro t ht
    simp only [Task.heldBy, List.flatMap_cons, List.mem_append] at ht
    rcases ht with (ht | ht) | ht
    · exact hsessions t ht
    · obtain ⟨listener, hlistener, heq⟩ := List.mem_filterMap.mp ht
      obtain ⟨kind, rfl⟩ := hdispatch listener hlistener
      exact (Option.some.inj heq).symm
    · exact h.sessions t ht
  · have hnone : World.listenerHandlers (task.dispatchHolds w) = [] := by
      refine List.filterMap_eq_nil_iff.mpr fun listener hlistener => ?_
      obtain ⟨kind, rfl⟩ := hdispatch listener hlistener
      rfl
    have hrest := h.handlers
    simp only [Task.heldBy] at hrest
    simp only [Task.heldBy, List.flatMap_cons, hhandlers, hnone, hrest, List.append_nil]
  · have hrest := h.managers
    simp only [Task.heldBy] at hrest
    simp only [Task.heldBy, List.flatMap_cons, hmanagers, hrest, List.append_nil]

theorem holdOnly_reports {w : World} {below : List Task}
    (h : ∀ task ∈ below, task.Reports d s) : HoldOnly s w below := by
  induction below with
  | nil => exact ⟨by simp [Task.heldBy], rfl, rfl⟩
  | cons task below ih =>
      rw [List.forall_mem_cons] at h
      obtain ⟨htask, hbelow⟩ := h
      have hnone : ∀ listener ∈ ([] : List Listener), ∃ kind, listener = .input s kind := by simp
      cases task with
      | publish b event => exact (ih hbelow).cons (by simp [Task.sessions]) rfl rfl hnone
      | answer a => exact (ih hbelow).cons (by simp [Task.sessions]) rfl rfl hnone
      | actions sink course =>
          obtain rfl : sink = .display d := htask
          exact (ih hbelow).cons (by simp [Task.sessions]) rfl rfl hnone
      | drain b event holds =>
          have hlisteners := htask.2
          refine (ih hbelow).cons (fun t ht => ?_) ?_ rfl hnone
          · obtain ⟨listener, hlistener, heq⟩ := List.mem_filterMap.mp ht
            obtain ⟨kind, rfl⟩ := hlisteners listener hlistener
            exact (Option.some.inj heq).symm
          · refine List.filterMap_eq_nil_iff.mpr fun listener hlistener => ?_
            obtain ⟨kind, rfl⟩ := hlisteners listener hlistener
            rfl
      | _ => exact absurd htask (by simp)

theorem Twin.sameHold (h : Twin d s earlier m m') (hkeeps : KeepsOnly d s m.world) :
    World.SameHold (Task.heldBy m.world m.agenda) (Task.heldBy m'.world m'.agenda) := by
  obtain ⟨work, below, hagenda, hagenda', hwork, hbelow⟩ := h.agenda
  have hrest : HoldOnly s m.world (.dispatch (.display d) :: below) :=
    (holdOnly_reports hbelow).cons (by simp [Task.sessions]) rfl rfl hkeeps
  have hdispatches : ∀ task ∈ work, task.dispatchHolds m'.world = task.dispatchHolds m.world :=
    fun task htask => h.world ▸ dispatchHolds_hush (hwork task htask)
  have hsessions : work.flatMap (fun task =>
      task.sessions ++ Task.listenerSessions (task.dispatchHolds m'.world)) =
        work.flatMap fun task =>
          task.sessions ++ Task.listenerSessions (task.dispatchHolds m.world) :=
    List.flatMap_congr fun task htask => by rw [hdispatches task htask]
  have hhandlers : work.flatMap (fun task =>
      task.handlers ++ World.listenerHandlers (task.dispatchHolds m'.world)) =
        work.flatMap fun task =>
          task.handlers ++ World.listenerHandlers (task.dispatchHolds m.world) :=
    List.flatMap_congr fun task htask => by rw [hdispatches task htask]
  rw [hagenda, hagenda']
  constructor
  · intro t
    have hsession := hrest.sessions t
    simp only [Task.heldBy] at hsession
    simp only [Task.heldBy, List.flatMap_append, hsessions, List.mem_append]
    refine or_congr_right ?_
    have hleave : t ∈ [Task.leave s, .answer .nothing].flatMap (fun task =>
        task.sessions ++ Task.listenerSessions (task.dispatchHolds m'.world)) ↔ t = s := by
      simp [Task.sessions, Task.dispatchHolds, Task.listenerSessions]
    rw [List.flatMap_cons, List.mem_append, hleave]
    refine ⟨fun ht => ht.elim (fun ht => ?_) hsession, fun ht => .inl ?_⟩
    · simpa [Task.sessions, Task.dispatchHolds, Task.listenerSessions] using ht
    · simp [ht, Task.sessions]
  · intro handler
    have hnone := hrest.handlers
    simp only [Task.heldBy] at hnone
    simp only [Task.heldBy, List.flatMap_append, hhandlers, List.mem_append]
    refine or_congr_right ?_
    rw [List.flatMap_cons, hnone]
    simp [Task.handlers, Task.dispatchHolds, World.listenerHandlers]
  · intro id
    have hnone := hrest.managers
    simp only [Task.heldBy] at hnone
    simp only [Task.heldBy, List.flatMap_append, List.mem_append]
    refine or_congr_right ?_
    rw [List.flatMap_cons, hnone]
    simp [Task.managers]

theorem Twin.sameLife (h : Twin d s earlier m m') (hears : m.world.Hears d s)
    (hkeeps : KeepsOnly d s m.world) : SameLife m.agenda m'.agenda m m' := by
  have hhold := h.sameHold hkeeps
  rw [h.world] at hhold
  rw [SameLife, h.world]
  exact World.alive_hush hears hhold

theorem SameLife.sessionAlive {now now' : List Task} (h : SameLife now now' m m') :
    m'.world.sessionAlive (Task.heldBy m'.world now') =
      m.world.sessionAlive (Task.heldBy m.world now) := by
  funext t
  exact congrFun h (.input t .continuePressed)

theorem SameLife.attachedTo {now now' : List Task} (h : SameLife now now' m m')
    (display : Display) (bus : Bus) :
    m'.world.attachedTo (Task.heldBy m'.world now') { display with bus := bus } =
      m.world.attachedTo (Task.heldBy m.world now) display := by
  rw [World.attachedTo, World.attachedTo, h.sessionAlive]

theorem Twin.replacementsOf {now now' : List Task} (h : Twin d s earlier m m')
    (hlife : SameLife now now' m m') (display : Display) (bus : Bus) :
    m'.world.replacementsOf (Task.heldBy m'.world now') { display with bus := bus } =
      m.world.replacementsOf (Task.heldBy m.world now) display := by
  rw [World.replacementsOf, World.replacementsOf, hlife.attachedTo, funext h.session?]

end Machine

end Parley
