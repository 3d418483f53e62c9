import Parley.Proofs.Machine.Names
import Parley.Proofs.Machine.Routine
import Parley.Proofs.Session.Moves

/-!
# The routine tasks

The tasks of names, sessions, managers, displays and handlers, one after the other.  A move of
a session keeps its bus, so putting the session back changes no bus.
-/

namespace Parley.Machine

variable {task : Task} {m m' : Machine}

/-! ## Names -/

theorem routineOrFail_withSession (name : String) {f : SessionId → Session → Machine}
    (h : ∀ s session, m.world.session? s = some session → RoutineOrFail task m (f s session)) :
    RoutineOrFail task m (m.withSession name f) := by
  rcases m.withSession_cases name f with ⟨s, session, -, hs, heq⟩ | heq <;> rw [heq]
  · exact h s session hs
  · exact routineOrFail_fail m _

theorem routineOrFail_withDisplay (name : String) {f : DisplayId → Display → Machine}
    (h : ∀ d display, m.world.displayNames.get? name = some d →
      m.world.display? d = some display → RoutineOrFail task m (f d display)) :
    RoutineOrFail task m (m.withDisplay name f) := by
  rcases m.withDisplay_cases name f with ⟨d, display, hname, hd, heq⟩ | heq <;> rw [heq]
  · exact h d display hname hd
  · exact routineOrFail_fail m _

theorem routineOrFail_withHandler (name : String) {f : HandlerId → Machine}
    (h : ∀ handler, RoutineOrFail task m (f handler)) :
    RoutineOrFail task m (m.withHandler name f) := by
  rcases m.withHandler_cases name f with ⟨handler, -, heq⟩ | heq <;> rw [heq]
  · exact h handler
  · exact routineOrFail_fail m _

theorem routineOrFail_withHandler? (name : Option String) {f : Option HandlerId → Machine}
    (h : ∀ handler, RoutineOrFail task m (f handler)) :
    RoutineOrFail task m (m.withHandler? name f) := by
  rcases m.withHandler?_cases name f with ⟨handler, heq⟩ | heq <;> rw [heq]
  · exact h handler
  · exact routineOrFail_fail m _

theorem routineOrFail_withBus (name : BusName) {f : BusId → Machine}
    (h : ∀ b, m.world.HasBus b → RoutineOrFail task m (f b)) :
    RoutineOrFail task m (m.withBus name f) := by
  rcases m.withBus_cases name f with ⟨b, heq, hbus⟩ | heq <;> rw [heq]
  · refine h b ?_
    rcases hbus with ⟨s, session, rfl, hs⟩ | ⟨d, display, rfl, hd⟩ | ⟨free, rfl⟩
    exacts [World.hasBus_session hs, World.hasBus_display hd, trivial]
  · exact routineOrFail_fail m _

theorem routineOrFail_withSettings (settings : Option Json.Value) {f : Config → Machine}
    (h : ∀ config, RoutineOrFail task m (f config)) :
    RoutineOrFail task m (m.withSettings settings f) := by
  rcases m.withSettings_cases settings f with ⟨config, heq⟩ | ⟨failure, heq⟩ <;> rw [heq]
  · exact h config
  · exact routineOrFail_fail m _

theorem routineOrFail_withNode (session : Session) (title : Option String)
    {f : String → Node → Machine}
    (h : ∀ key node, session.graph.bind (·.nodes.get? key) = some node →
      RoutineOrFail task m (f key node)) :
    RoutineOrFail task m (m.withNode session title f) := by
  rcases m.withNode_cases session title f with ⟨key, node, hstored, heq⟩ | heq <;> rw [heq]
  · exact h key node hstored
  · exact routineOrFail_fail m _

theorem routineOrFail_withLine (s : SessionId) (session : Session) (place : LinePlace)
    {f : LineRef → Machine} (h : ∀ line, RoutineOrFail task m (f line)) :
    RoutineOrFail task m (m.withLine s session place f) := by
  rcases m.withLine_cases s session place f with ⟨line, heq⟩ | ⟨failure, heq⟩ <;> rw [heq]
  · exact h line
  · exact routineOrFail_fail m _

/-! ## Moves of a session -/

theorem routineOrFail_carryOut {s : SessionId} {session : Session}
    (htask : task.isPlain = false) (hactor : task.actor? = some s)
    (hs : m.world.session? s = some session)
    (refused : Option Answer) {move : Session.Move}
    (hmove : Session.Move.Of session move) {shown : Session → LineRef → Machine → Machine}
    (hshown : ∀ moved line m', Routine task m m' → RoutineOrFail task m (shown moved line m')) :
    RoutineOrFail task m (m.carryOut s refused move shown) := by
  have hbus : m.world.HasBus (.session s) := World.hasBus_session hs
  have hkept : (move.outcome session).bus = session.bus := hmove.frame.bus_eq
  have hactions : (move.outcome session).actions = session.actions := hmove.frame.actions_eq
  cases move with
  | refuse entry =>
      cases refused with
      | none => exact (Routine.logAll (.refl m) _).toFail
      | some answer => exact ((Routine.logAll (.refl m) _).give answer).toFail
  | fail moved failure => exact .fail ((Routine.refl m).setSession htask hs hkept hactions) failure
  | display moved key index =>
      exact hshown _ _ _ ((Routine.refl m).setSession htask hs hkept hactions)
  | ended moved =>
      have hset : Routine task m (m.setSession s moved) :=
        (Routine.refl m).setSession htask hs hkept hactions
      refine ((hset.report _ _).push ?_).toFail
      have hgrown : (m.setSession s moved).world.HasBus (.session s) :=
        World.hasBus_modifySession.mpr hbus
      simpa [hactor] using hgrown

/-! ## The tasks of sessions and managers -/

theorem routineOrFail_start (s : SessionId) (title : String) :
    RoutineOrFail (.start s title) m (m.start s title) := by
  unfold start
  split
  · exact routineOrFail_fail m _
  · rename_i session hs
    refine routineOrFail_carryOut rfl rfl hs _ (.start title) fun moved line m' h => ?_
    refine ((h.report _ _).push ?_).toFail
    have hbus : m'.world.HasBus (.session s) := h.world.grows _ (World.hasBus_session hs)
    simpa [Task.actor?] using hbus

theorem routineOrFail_proceed (s : SessionId) :
    RoutineOrFail (.proceed s) m (m.proceed s) := by
  unfold proceed
  split
  · exact routineOrFail_fail m _
  · rename_i session hs
    refine routineOrFail_carryOut rfl rfl hs _ .proceed fun moved line m' h => ?_
    exact (h.push (by simp)).toFail

theorem routineOrFail_follow (s : SessionId) (key destination : String) :
    RoutineOrFail (.follow s key destination) m (m.follow s key destination) := by
  unfold follow
  split
  · exact routineOrFail_fail m _
  · rename_i session hs
    refine routineOrFail_carryOut rfl rfl hs _ (.follow _ key destination)
      fun moved line m' h => ?_
    exact (h.push (by simp)).toFail

theorem routineOrFail_present (s : SessionId) (line : LineRef) :
    RoutineOrFail (.present s line) m (m.present s line) := by
  unfold present
  split
  · exact routineOrFail_fail m _
  · rename_i session hs
    refine ((Routine.refl m).push ?_).toFail
    have hbus : m.world.HasBus (.session s) := World.hasBus_session hs
    simpa [Task.actor?] using hbus

theorem routineOrFail_fireShown (s : SessionId) (line : LineRef) :
    RoutineOrFail (.fireShown s line) m (m.fireShown s line) := by
  unfold fireShown
  split
  · exact routineOrFail_fail m _
  · split
    · exact ((Routine.refl m).push (by simp)).toFail
    · exact (Routine.refl m).toFail

theorem routineOrFail_load (s : SessionId) (data : Json.Value) (start : Option String) :
    RoutineOrFail (.load s data start) m (m.load s data start) := by
  unfold load
  split
  · exact routineOrFail_fail m _
  · rename_i session hs
    split
    · exact routineOrFail_fail m _
    · rename_i loaded _
      have hset : Routine (.load s data start) m ((m.logAll loaded.log).setSession s
          (session.replaceGraph loaded.value)) :=
        ((Routine.refl m).logAll _).setSession rfl hs rfl rfl
      refine (hset.push ?_).toFail
      cases start <;> simp

theorem routineOrFail_finish (s : SessionId) (onComplete : Option HandlerId) :
    RoutineOrFail (.finish s onComplete) m (m.finish s onComplete) := by
  unfold finish
  split
  · exact routineOrFail_fail m _
  · rename_i session hs
    split
    · exact ((Routine.refl m).report _ _).toFail
    -- Only the listeners of the session on the bus of its display go.
    · let unlistened := m.world.modifyDisplay session.display fun display =>
        { display with bus := World.unlisten s display.bus }
      have hunlisten : m.world.Calm unlistened :=
        World.calm_modifyDisplay fun display =>
          .resubscribed (Bus.resubscribed_unlisten s display.bus)
      have hfinished : unlistened.SameBuses (unlistened.modifySession s fun session =>
          { session with finished := true, actions := Table.empty }) :=
        World.sameBuses_modifySession fun _ _ => rfl
      have hretains : ∀ b, Task.unsubscribes b (.finish s onComplete) = false →
          (m.world.bus b).Retains (unlistened.bus b) := by
        intro b hb
        have hb : b ≠ .display session.display := by
          rintro rfl
          exact absurd hb (by simp [Task.unsubscribes])
        rw [World.bus_modifyDisplay, if_neg hb]
        exact .refl _
      have hadmits : ∀ b, (m.world.bus b).Admits (Task.Seats m.world (.finish s onComplete) b)
          (unlistened.bus b) :=
        World.admits_modifyDisplay fun display => Bus.admits_unlisten s display.bus
      have hroutine : Routine (.finish s onComplete) m { m with world := _ } :=
        .of_calm (hunlisten.trans_same hfinished)
          (fun hplain => absurd hplain (by simp [Task.isPlain]))
          (fun b hb => hfinished.bus b ▸ hretains b hb) (fun b => hfinished.bus b ▸ hadmits b)
          (fun hkept => absurd hkept (by simp [Task.rewritesActions])) rfl
      exact (hroutine.push (by simp)).toFail

theorem routineOrFail_handleAction (s : SessionId) (tag param : String) :
    RoutineOrFail (.handleAction s tag param) m (m.handleAction s tag param) := by
  unfold handleAction
  split
  · exact routineOrFail_fail m _
  · exact ((Routine.refl m).push (by simp)).toFail

theorem routineOrFail_actions {sink : Sink} {course : Course}
    (h : Task.Known m.world (.actions sink course)) :
    RoutineOrFail (.actions sink course) m (m.actions sink course) := by
  unfold actions
  split
  · exact (Routine.refl m).toFail
  · refine ((Routine.refl m).push ?_).toFail
    cases sink with
    | session s => simp [tell]
    | display d => simpa [tell] using h

theorem routineOrFail_multicast (called waiting : List HandlerId) (param : String) :
    RoutineOrFail (.multicast called waiting param) m (m.multicast called waiting param) := by
  cases waiting with
  | nil => exact (Routine.refl m).toFail
  | cons h rest =>
      exact ((Routine.refl m).push (by simp)).toFail

theorem routineOrFail_launch (manager : ManagerId) (graph : Ref Graph) (d : DisplayId)
    (title : String) (node : Option String) (name : String) :
    RoutineOrFail (.launch manager graph d title node name) m
      (m.launch manager graph d title node name) := by
  rw [launch_eq]
  split
  · exact routineOrFail_fail m _
  · rename_i settings _
    have hopened : m.world.SameBuses (m.world.modifyDisplay d fun display =>
        { display with isOpen := true }) := World.sameBuses_modifyDisplay fun _ => by rfl
    let session : Session :=
      { display := d, config := settings.config, graph := some (m.world.graph graph).clone }
    have hadded := hopened.trans_calm (World.calm_addSession session rfl)
    have hrecorded := World.sameBuses_modifyManager
      ((m.world.modifyDisplay d fun display => { display with isOpen := true }).addSession
        session).1 manager fun manager =>
      { manager with sessions := manager.sessions.insert title ⟨m.world.sessions.length⟩ }
    have hretains := World.retains_addSession (w := m.world.modifyDisplay d fun display =>
        { display with isOpen := true }) session rfl
    have hadmits := World.admits_addSession (w := m.world.modifyDisplay d fun display =>
        { display with isOpen := true })
      (P := Task.Seats m.world (.launch manager graph d title node name)) session rfl
      fun _ => ⟨d, rfl, rfl, rfl⟩
    have hregistries : m.world.SameRegistries ((m.world.modifyDisplay d fun display =>
        { display with isOpen := true }).addSession session).1 :=
      (World.sameRegistries_of_eq rfl).trans (World.sameRegistries_addSession rfl)
    have hroutine : Routine (.launch manager graph d title node name) m { m with world := _ } :=
      .of_calm (hadded.trans_same hrecorded) (fun hplain => absurd hplain (by simp [Task.isPlain]))
        (fun b _ => hrecorded.bus b ▸ hopened.bus b ▸ hretains b)
        (fun b => hrecorded.bus b ▸ hopened.bus b ▸ hadmits b)
        (fun _ => hregistries.trans (World.sameRegistries_modifyManager _ _ _)) rfl
    refine (hroutine.push ?_).toFail
    cases node <;> simp

theorem routineOrFail_forget (manager : ManagerId) :
    RoutineOrFail (.forget manager) m (m.forget manager) :=
  ((Routine.refl m).rework rfl (World.sameBuses_modifyManager ..)
    (World.sameRegistries_modifyManager _ _ _)).toFail

theorem routineOrFail_adopt (s : SessionId) (name : String) (answer : Answer) :
    RoutineOrFail (.adopt s name answer) m
      ((m.withWorld fun w => w.adopt s name).give answer) := by
  have hobserved : m.world.Calm (m.world.modifySession s fun session =>
      { session with label := some name, bus := World.observe s session.bus }) :=
    World.calm_modifySession fun session =>
      .resubscribed (Bus.resubscribed_observe s session.bus)
  have hadopted : m.world.Calm (m.world.adopt s name) :=
    hobserved.trans_same (World.sameBuses_of_eq rfl rfl rfl (.refl _))
  have hsteady : m.world.Steady (m.world.adopt s name) :=
    (World.steady_modifySession (s := s) (f := fun session =>
      { session with label := some name, bus := World.observe s session.bus })
      fun _ _ => rfl).trans (World.steady_of_eq rfl rfl rfl)
  have hretains : ∀ b, (m.world.bus b).Retains ((m.world.adopt s name).bus b) :=
    World.bus_modifySession_rel Bus.Retains.refl fun session => Bus.retains_observe s session.bus
  have hadmits : ∀ b, (m.world.bus b).Admits (Task.Seats m.world (.adopt s name answer) b)
      ((m.world.adopt s name).bus b) :=
    World.admits_modifySession fun session =>
      Bus.admits_observe (P := Task.Seats m.world (.adopt s name answer) (.session s)) rfl
        session.bus
  have hregistries : m.world.SameRegistries (m.world.modifySession s fun session =>
      { session with label := some name, bus := World.observe s session.bus }) :=
    World.sameRegistries_modifySession fun _ _ => rfl
  have hroutine : Routine (.adopt s name answer) m (m.withWorld fun w => w.adopt s name) :=
    .of_calm hadopted (fun _ => hsteady) (fun b _ => hretains b) hadmits
      (fun _ => hregistries.trans (World.sameRegistries_of_eq rfl)) rfl
  exact (hroutine.give answer).toFail

/-! ## The tasks of displays -/

theorem routineOrFail_showNode (d : DisplayId) (title : String) :
    RoutineOrFail (.showNode d title) m (m.showNode d title) := by
  unfold showNode
  split
  · exact (Routine.refl m).toFail
  · split
    · exact (((Routine.refl m).emit _).push (by simp)).toFail
    · exact ((Routine.refl m).emit _).toFail

theorem routineOrFail_showLine (now : List Task) (d : DisplayId) (line : LineRef) :
    RoutineOrFail (.showLine d line) m (m.showLine now d line) := by
  unfold showLine
  split
  · exact (Routine.refl m).toFail
  · dsimp only
    split
    · exact (((Routine.refl m).emit _).push (by simp)).toFail
    · exact (((Routine.refl m).withWorld
        (World.kept_modifyDisplay (fun _ => by rfl) fun _ => by rfl)).emit _).toFail

theorem Routine.clearScreen {m' : Machine} (h : Routine task m m') (d : DisplayId) :
    Routine task m (m'.clearScreen d) :=
  h.withWorld (World.kept_modifyDisplay (fun _ => by rfl) fun _ => by rfl)

theorem routineOrFail_showOver (d : DisplayId) :
    RoutineOrFail (.showOver d) m (m.showOver d) := by
  unfold showOver
  split
  · exact (Routine.refl m).toFail
  · split
    · exact (((Routine.refl m).emit _).push (by simp)).toFail
    · exact ((Routine.refl m).clearScreen d).toFail

theorem routineOrFail_close (d : DisplayId) (callback : Option Callback) :
    RoutineOrFail (.close d callback) m (m.close d callback) := by
  unfold close
  split
  · exact (Routine.refl m).toFail
  · split
    · exact (((Routine.refl m).emit _).push (by simp)).toFail
    · exact ((((Routine.refl m).emit _).clearScreen d).push (by simp)).toFail

/-- What is told of a closing is told by the task that brings the closing about. -/
theorem Routine.shut {m' : Machine} (h : Routine task m m') (d : DisplayId)
    {callback : Option Callback} (htask : task = .settle d callback ∨
      ∃ settled waiting, task = .flush d settled waiting) :
    Routine task m (m'.shut d callback) := by
  refine (h.withWorld (World.kept_modifyDisplay (fun _ => by rfl) fun _ => by rfl)).push ?_
  cases callback with
  | none => simp
  | some callback => simpa using ⟨d, htask⟩

theorem routineOrFail_settle (d : DisplayId) (callback : Option Callback) :
    RoutineOrFail (.settle d callback) m (m.settle d callback) := by
  unfold settle
  split
  · exact (Routine.refl m).toFail
  · split
    · exact ((Routine.refl m).withWorld
        (World.kept_modifyDisplay (fun _ => by rfl) fun _ => by rfl)).toFail
    · exact ((Routine.refl m).shut d (.inl rfl)).toFail

theorem routineOrFail_flush (d : DisplayId) (settled waiting : List (Option Callback)) :
    RoutineOrFail (.flush d settled waiting) m (m.flush d settled waiting) := by
  cases waiting with
  | nil => exact (Routine.refl m).toFail
  | cons callback rest =>
      exact (((Routine.refl m).push (by simp)).shut d (.inr ⟨_, _, rfl⟩)).toFail

theorem routineOrFail_hook (name : Option String) (text : String) :
    RoutineOrFail (.hook name text) m (m.hook name text) := by
  unfold hook
  split
  · exact (Routine.refl m).toFail
  · split
    · exact routineOrFail_fail m _
    · exact ((Routine.refl m).push (by simp)).toFail

theorem routineOrFail_sessionClosed (now : List Task) (s : SessionId)
    (onComplete : Option HandlerId) :
    RoutineOrFail (.callback (.session s onComplete)) m (m.sessionClosed now s onComplete) := by
  unfold sessionClosed
  split
  · exact routineOrFail_fail m _
  · rename_i session hs
    refine (Routine.push ((Routine.refl m).withWorld
      (World.kept_modifyDisplay (fun display => by split <;> rfl) fun display => by
        split <;> rfl)) ?_).toFail
    have hbus : m.world.HasBus (.session s) := World.hasBus_session hs
    cases onComplete <;>
      simpa [withWorld, World.hasBus_modifyDisplay] using hbus

theorem routineOrFail_callback (now : List Task) (c : Callback) :
    RoutineOrFail (.callback c) m (m.callback now c) := by
  cases c with
  | session s onComplete => exact routineOrFail_sessionClosed now s onComplete
  | handler h =>
      exact ((Routine.refl m).push (by simp)).toFail

/-! ## The tasks of handlers -/

theorem routineOrFail_deliver (b : BusId) (listener : Listener) :
    RoutineOrFail (.deliver b listener) m (m.deliver b listener) := by
  unfold deliver
  split
  · exact (Routine.refl m).toFail
  · cases listener with
    | handler h =>
        exact ((Routine.refl m).push (by simp)).toFail
    | observer s => exact ((Routine.refl m).emit _).toFail
    | input s kind =>
        refine ((Routine.refl m).push ?_).toFail
        cases kind <;> simp [input]

theorem routineOrFail_runHandler (h : HandlerId) (source : Option BusId) (argument : Argument) :
    RoutineOrFail task m (m.runHandler h source argument) := by
  unfold runHandler
  split
  · exact routineOrFail_fail m _
  · split
    · exact ((Routine.refl m).emit _).toFail
    · exact ((((Routine.refl m).emit _).withWorld
        (World.kept_of_eq (by rfl) (by rfl) (by rfl))).push (by simp)).toFail

theorem routineOrFail_callWith (h : HandlerId) (b : BusId) :
    RoutineOrFail (.callWith h b) m (m.callWith h b) := by
  unfold callWith
  split
  · exact (Routine.refl m).toFail
  · exact routineOrFail_runHandler h _ _

theorem routineOrFail_script (h : HandlerId) (source : Option BusId) (steps : List Step) :
    RoutineOrFail (.script h source steps) m (m.script h source steps) := by
  unfold script
  split
  · exact (Routine.refl m).toFail
  · refine (Routine.push ?_ (by simp)).toFail
    cases source with
    | none => exact .refl m
    | some b => exact .modifyBus m b (fun bus => .consumed) (fun _ _ bus => .refl bus) .refl
  · exact routineOrFail_fail m _
  · exact ((Routine.refl m).push (by simp)).toFail

theorem routineOrFail_returned (h : HandlerId) (step : String) :
    RoutineOrFail (.returned h step) m (m.returned h step) := by
  unfold returned
  split
  · exact (Routine.refl m).toFail
  · exact ((Routine.refl m).emit _).toFail

end Parley.Machine
