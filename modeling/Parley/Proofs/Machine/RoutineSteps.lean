import Parley.Proofs.Machine.RoutineTasks

/-!
# The steps of a host are routine

Whatever a step names, performing it changes every bus calmly and leaves ordinary tasks behind
(`routineOrFail_perform`).  Only a step on a bus or a display puts an event on the agenda, and
then for a bus that is there.
-/

namespace Parley.Machine

variable {task : Task} {m m' : Machine}

/-! ## Steps on sessions and displays -/

theorem cutsLoops_of_removesActions? {node : Node} {step : NodeStep} {n : ℕ}
    (h : removesActions? node step = some n) (name : String) (title : Option String) :
    (Task.perform (.session name (.node title step))).cutsLoops = true := by
  unfold removesActions? at h
  split at h
  · rfl
  · exact absurd h (by simp)

theorem routineOrFail_performNodeStep {s : SessionId} {session : Session} {key : String}
    {node : Node} {step : NodeStep} (htask : task.isPlain = false)
    (hcuts : ∀ n, removesActions? node step = some n → task.cutsLoops = true)
    (hs : m.world.session? s = some session)
    (hstored : session.graph.bind (·.nodes.get? key) = some node) :
    RoutineOrFail task m (m.performNodeStep s session key node step) := by
  have hlogged : Routine task m (m.logAll (step.run node).log) := (Routine.refl m).logAll _
  -- The line of the node is the one that the loops follow.
  have hhad : ∀ n, (m.world.line ⟨s, session.generation, key, n⟩).actions =
      (node.lines[n]?).elim [] Line.actions := by
    intro n
    rw [World.line, hs, Option.bind_some, Session.line?_of_stored hstored]
    cases node.lines[n]? <;> rfl
  unfold performNodeStep
  dsimp only
  split
  · exact .fail hlogged _
  · split
    · exact ((hlogged.setSession htask hs (by rfl) (by rfl)).give _).toFail
    · rename_i n hremoves
      rw [← hhad n]
      have hcut := hlogged.cutOff (hcuts n hremoves) rfl
      exact (((hcut _).setSession htask hs (by rfl) (by rfl)).give _).toFail

theorem routineOrFail_performSession {s : SessionId} {session : Session}
    (hs : m.world.session? s = some session) (name : String) (step : SessionStep) :
    RoutineOrFail (.perform (.session name step)) m (m.performSession s session step) := by
  have hrefl : Routine (.perform (.session name step)) m m := .refl m
  cases step with
  | load data start =>
      exact (hrefl.push (by simp)).toFail
  | start title =>
      exact (hrefl.push (by simp)).toFail
  | proceed => exact (hrefl.push (by simp)).toFail
  | follow key destination =>
      exact (hrefl.push (by simp)).toFail
  | registerAction tag handler =>
      refine routineOrFail_withHandler handler fun h => ?_
      refine (Routine.give (Routine.resetSession (hrefl.logAll _) hs ?_ ?_
        fun hkept => absurd hkept (by simp [Task.rewritesActions])) _).toFail <;>
        (unfold Session.registerAction; split <;> rfl)
  | removeAction tag handler =>
      exact routineOrFail_withHandler handler fun h =>
        ((hrefl.resetSession hs (by rfl) (by rfl)
          fun hkept => absurd hkept (by simp [Task.rewritesActions])).give _).toFail
  | actionHandlers tag => exact (hrefl.give _).toFail
  | handleAction tag param =>
      exact (hrefl.push (by simp)).toFail
  | registerReplacement key text =>
      exact ((hrefl.resetSession hs (by rfl) (by rfl) fun _ => by rfl).give _).toFail
  | removeReplacement key =>
      exact ((hrefl.resetSession hs (by rfl) (by rfl) fun _ => by rfl).give _).toFail
  | replacements => exact (hrefl.give _).toFail
  | tagValues key =>
      dsimp only [performSession]
      split
      · exact (hrefl.give _).toFail
      · exact ((hrefl.logAll _).give _).toFail
  | summary => exact (hrefl.give _).toFail
  | titles => exact (hrefl.give _).toFail
  | display => exact (hrefl.give _).toFail
  | config setting =>
      cases setting with
      | none => exact (hrefl.give _).toFail
      | some setting =>
          dsimp only [performSession]
          split
          · exact routineOrFail_fail m _
          · exact ((hrefl.withWorld
              (World.kept_of_eq (by rfl) (by rfl) (by rfl))).give _).toFail
  | finish onComplete =>
      dsimp only [performSession]
      refine routineOrFail_withHandler? onComplete fun h => ?_
      exact (hrefl.push (by simp)).toFail
  | fireActions place =>
      dsimp only [performSession]
      refine routineOrFail_withLine s session place fun line => ?_
      exact (hrefl.push (by simp)).toFail
  | node title step =>
      exact routineOrFail_withNode session title fun key node hstored =>
        routineOrFail_performNodeStep rfl (fun _ h => cutsLoops_of_removesActions? h name title) hs
          hstored

theorem routineOrFail_performDisplay (now : List Task) (name : String) {d : DisplayId}
    {display : Display} (hd : m.world.display? d = some display) (step : DisplayStep) :
    RoutineOrFail (.perform (.display name step)) m (m.performDisplay now d display step) := by
  have hrefl : Routine (.perform (.display name step)) m m := .refl m
  have hbus : m.world.HasBus (.display d) := World.hasBus_display hd
  have hpublish : ∀ event answer, RoutineOrFail (.perform (.display name step)) m
      (m.push [.publish (.display d) event, .answer answer]) := fun event answer =>
    (hrefl.push (by simpa using hbus)).toFail
  cases step with
  | openUp =>
      exact ((hrefl.withWorld
        (World.kept_modifyDisplay (fun _ => by rfl) fun _ => by rfl)).give _).toFail
  | proceed => exact hpublish _ _
  | select key destination => exact hpublish _ _
  | action tag param => exact hpublish _ _
  | actions session place =>
      refine routineOrFail_withSession session fun s session hs => ?_
      refine routineOrFail_withLine s session place fun line => (hrefl.push ?_).toFail
      simpa using hbus
  | choose number =>
      dsimp only [performDisplay]
      split
      · exact ((hrefl.report _ _).give _).toFail
      · exact hpublish _ _
  | currentLine => exact (hrefl.give _).toFail
  | replace text => exact (hrefl.give _).toFail
  | replacements => exact (hrefl.give _).toFail
  | close handler =>
      dsimp only [performDisplay]
      refine routineOrFail_withHandler? handler fun h => ?_
      exact (hrefl.push (by simp)).toFail
  | flushClose =>
      refine (Routine.push (hrefl.withWorld ?_) (by simp)).toFail
      exact World.kept_modifyDisplay (fun _ => by rfl) fun _ => by rfl
  | attach session =>
      exact routineOrFail_withSession session fun s _ _ =>
        ((hrefl.withWorld
          (World.kept_modifyDisplay (fun _ => by rfl) fun _ => by rfl)).give _).toFail
  | detach =>
      exact ((hrefl.withWorld
        (World.kept_modifyDisplay (fun _ => by rfl) fun _ => by rfl)).give _).toFail
  | info => exact (hrefl.give _).toFail

/-! ## Steps on buses and managers -/

theorem routineOrFail_performBus (now : List Task) (name : BusName) {b : BusId}
    (hb : m.world.HasBus b) (step : BusStep) :
    RoutineOrFail (.perform (.bus name step)) m (m.performBus now b step) := by
  have hrefl : Routine (.perform (.bus name step)) m m := .refl m
  have hpublish : ∀ event,
      RoutineOrFail (.perform (.bus name step)) m (m.push [.publish b event]) := fun event =>
    (hrefl.push (by simpa using hb)).toFail
  cases step with
  | subscribe type handler priority oneShot weak =>
      exact routineOrFail_withHandler handler fun h => (Routine.give
        (.modifyBus m b (fun bus => .resubscribed (Bus.resubscribed_subscribe ..))
          (fun _ _ bus => Bus.retains_subscribe bus _ _)
          fun bus => Bus.admits_subscribe bus type ⟨priority, .handler h, weak, oneShot⟩
            trivial) _).toFail
  | unsubscribe type handler =>
      exact routineOrFail_withHandler handler fun h => (Routine.give
        (.modifyBus m b (fun bus => .resubscribed (Bus.resubscribed_unsubscribe ..))
          (fun _ hends => absurd hends (by simp [Task.unsubscribes]))
          fun bus => Bus.admits_unsubscribe bus _ _) _).toFail
  | isSubscribed type handler =>
      exact routineOrFail_withHandler handler fun h => (hrefl.give _).toFail
  | count type => exact (hrefl.give _).toFail
  | publish type data => exact hpublish _
  | publishEvent type data consumed => exact hpublish _
  | clear type =>
      exact (Routine.give
        (.modifyBus m b (fun bus => .resubscribed (Bus.resubscribed_clear ..))
          (fun _ hends => absurd hends (by simp [Task.unsubscribes]))
          fun bus => Bus.admits_clear bus _) _).toFail

/-- A manager that starts a conversation at most forgets the session before. -/
theorem world_converse (m : Machine) (id : ManagerId) (manager : Manager)
    (conversation title : String) (node : Option String) (name : String) :
    (m.converse id manager conversation title node name).world = m.world ∨
      (m.converse id manager conversation title node name).world =
        m.world.modifyManager id fun manager =>
          { manager with sessions := manager.sessions.erase title } := by
  unfold converse
  split
  · exact .inl rfl
  · split
    · exact .inl rfl
    · dsimp only
      split
      · exact .inr rfl
      · split <;> exact .inr rfl

/-- Whatever a manager does at once is a change to itself. -/
theorem world_performManager (m : Machine) (id : ManagerId) (manager : Manager)
    (step : ManagerStep) :
    (m.performManager id manager step).world = m.world ∨
      ∃ f, (m.performManager id manager step).world = m.world.modifyManager id f := by
  cases step with
  | register display =>
      dsimp only [performManager]
      rcases m.withDisplay_cases display _ with ⟨d, found, -, -, heq⟩ | heq <;> rw [heq]
      · exact .inr ⟨_, rfl⟩
      · exact .inl (world_fail m _)
  | add conversation data =>
      dsimp only [performManager]
      split
      · exact .inl (world_fail m _)
      · exact .inr ⟨_, rfl⟩
  | start conversation title node name =>
      exact (world_converse m id manager conversation title node name).imp_right fun h => ⟨_, h⟩
  | displayOf title => exact .inl rfl
  | get conversation => exact .inl rfl
  | conversations => exact .inl rfl
  | loadFolder folder place => exact .inr ⟨_, rfl⟩
  | active => exact .inr ⟨_, rfl⟩
  | endAll => exact .inr ⟨_, rfl⟩

theorem routineOrFail_converse (id : ManagerId) (manager : Manager)
    (conversation title : String) (node : Option String) (name : String) :
    RoutineOrFail (.perform (.manager (.start conversation title node name))) m
      (m.converse id manager conversation title node name) := by
  have hrefl : Routine (.perform (.manager (.start conversation title node name))) m m := .refl m
  unfold converse
  split
  · exact ((hrefl.report _ _).give _).toFail
  · split
    · exact ((hrefl.report _ _).give _).toFail
    · have hforgotten : Routine (.perform (.manager (.start conversation title node name))) m
          (m.withWorld fun w => w.modifyManager id fun manager =>
            { manager with sessions := manager.sessions.erase title }) :=
        hrefl.rework rfl (World.sameBuses_modifyManager ..)
          (World.sameRegistries_modifyManager _ _ _)
      dsimp only
      split
      · exact (hforgotten.push (by simp)).toFail
      · split
        · exact (hforgotten.push (by simp)).toFail
        · exact ((hforgotten.report _ _).push (by simp)).toFail

theorem Routine.setManager {m' : Machine} (h : Routine task m m') (htask : task.isPlain = false)
    (id : ManagerId) (manager : Manager) : Routine task m (performManager.set id m' manager) :=
  h.rework htask (World.sameBuses_modifyManager ..) (World.sameRegistries_modifyManager _ _ _)

/-- What a manager puts on the agenda to end its sessions. -/
theorem endAll_tasks {sessions : List SessionId} {id : ManagerId} {task : Task}
    (h : task ∈ sessions.flatMap (fun s => [.finish s none, .leave s]) ++ sessions.map .hold ++
      [.forget id, .answer .nothing]) :
    (∃ s, task = .finish s none) ∨ (∃ s, task = .leave s) ∨ (∃ s, task = .hold s) ∨
      task = .forget id ∨ task = .answer .nothing := by
  simp only [List.mem_append, List.mem_flatMap, List.mem_map, List.mem_cons, List.not_mem_nil,
    or_false] at h
  grind

theorem routineOrFail_performManager (id : ManagerId) (manager : Manager) (step : ManagerStep) :
    RoutineOrFail (.perform (.manager step)) m (m.performManager id manager step) := by
  have hrefl : Routine (.perform (.manager step)) m m := .refl m
  cases step with
  | register display =>
      exact routineOrFail_withDisplay display fun d display _ _ =>
        (((hrefl.logAll _).setManager rfl id _).give _).toFail
  | displayOf title => exact (hrefl.give _).toFail
  | add conversation data =>
      dsimp only [performManager]
      split
      · exact routineOrFail_fail m _
      · exact (((hrefl.logAll _).setManager rfl id _).give _).toFail
  | get conversation => exact (hrefl.give _).toFail
  | conversations => exact (hrefl.give _).toFail
  | loadFolder folder place => exact (((hrefl.logAll _).setManager rfl id _).give _).toFail
  | start conversation title node name => exact routineOrFail_converse id manager _ _ _ _
  | active => exact ((hrefl.setManager rfl id _).give _).toFail
  | endAll =>
      refine ((hrefl.setManager rfl id _).push fun task htask => ?_).toFail
      rcases endAll_tasks htask with ⟨s, rfl⟩ | ⟨s, rfl⟩ | ⟨s, rfl⟩ | rfl | rfl <;> simp

/-! ## Steps on the world -/

theorem routineOrFail_newSession (htask : task.isPlain = false) (name : String) {d : DisplayId}
    (hmakes : task.Makes m.world d ⟨m.world.sessions.length⟩) (config : Config)
    (source : SessionSource) :
    RoutineOrFail task m (m.newSession name d config source) := by
  have hmake : ∀ (m' : Machine) (graph : Option Graph)
      (data : List (Json.Value × Option String)), m'.world = m.world → m'.agenda = m.agenda →
      RoutineOrFail task m (newSession.make name d config m' graph data) := by
    intro m' graph data hworld hagenda
    have hconfig : m.world.SameBuses (m'.world.addConfig config).1 := by
      rw [hworld]
      exact World.sameBuses_of_eq rfl rfl rfl (.refl _)
    let session : Session := { display := d, config := (m'.world.addConfig config).2, graph }
    have hadded := hconfig.trans_calm (World.calm_addSession session rfl)
    have hretains := World.retains_addSession (w := (m'.world.addConfig config).1) session rfl
    have hadmits := World.admits_addSession (w := (m'.world.addConfig config).1)
      (P := task.Seats m.world) session rfl fun _ => ⟨d, rfl, hworld ▸ hmakes⟩
    have hregistries :
        m.world.SameRegistries ((m'.world.addConfig config).1.addSession session).1 :=
      (World.sameRegistries_of_eq (by rw [hworld]; rfl)).trans (World.sameRegistries_addSession rfl)
    have hroutine : Routine task m
        { m' with world := ((m'.world.addConfig config).1.addSession session).1 } :=
      .of_calm hadded (fun hplain => absurd (htask.symm.trans hplain) (by simp))
        (fun b _ => hconfig.bus b ▸ hretains b) (fun b => hconfig.bus b ▸ hadmits b)
        (fun _ => hregistries) hagenda
    refine (hroutine.push ?_).toFail
    rw [List.forall_mem_append, List.forall_mem_map]
    exact ⟨fun _ _ => ⟨⟨rfl, trivial⟩, trivial⟩, by simp⟩
  unfold newSession
  split
  · exact hmake m none [] rfl rfl
  · split
    · exact routineOrFail_fail m _
    · exact hmake _ _ [] rfl rfl
  · exact hmake m none _ rfl rfl

theorem routineOrFail_perform (now : List Task) (step : Step) :
    RoutineOrFail (.perform step) m (m.perform now step) := by
  have hrefl : Routine (.perform step) m m := .refl m
  cases step with
  | define name rounds =>
      exact ((hrefl.kept (World.kept_of_eq (by rfl) (by rfl) (by rfl)) (by rfl)).give
        .nothing).toFail
  | dropHandler name =>
      exact routineOrFail_withHandler name fun _ =>
        ((hrefl.withWorld
          (World.kept_of_eq (by rfl) (by rfl) (by rfl))).give _).toFail
  | newDisplay name title kind =>
      have hadded : m.world.Kept (m.world.addDisplay { name, title, kind }).1 :=
        World.kept_addDisplay rfl
      exact ((hrefl.kept (hadded.trans (World.kept_of_eq (by rfl) (by rfl) (by rfl)))
        (by rfl)).give .nothing).toFail
  | newSession name display settings source =>
      exact routineOrFail_withDisplay display fun d _ hname _ =>
        routineOrFail_withSettings settings fun config =>
          have hmakes : Task.Makes m.world d ⟨m.world.sessions.length⟩
              (.perform (.newSession name display settings source)) := ⟨hname, rfl⟩
          routineOrFail_newSession rfl name hmakes config source
  | dropSession name =>
      exact routineOrFail_withSession name fun _ _ _ =>
        ((hrefl.withWorld
          (World.kept_of_eq (by rfl) (by rfl) (by rfl))).give _).toFail
  | newManager settings =>
      dsimp only [perform]
      refine routineOrFail_withSettings settings fun config => ?_
      exact ((hrefl.same (World.sameBuses_of_eq (by rfl) (World.sessions_addManager ..) (by rfl)
          (m.world.memory.spares_addManager _))
        (fun hplain => absurd hplain (by simp [Task.isPlain, Step.isPlain]))
        (fun _ => World.sameRegistries_of_eq (by rfl)) (by rfl)).give
        .nothing).toFail
  | session name step =>
      exact routineOrFail_withSession name fun s session hs =>
        routineOrFail_performSession hs name step
  | display name step =>
      exact routineOrFail_withDisplay name fun d display _ hd =>
        routineOrFail_performDisplay now name hd step
  | bus name step =>
      exact routineOrFail_withBus name fun b hb => routineOrFail_performBus now name hb step
  | manager step =>
      dsimp only [perform]
      split
      · exact routineOrFail_fail m _
      · exact routineOrFail_performManager _ _ step
  | consume => exact routineOrFail_fail m _
  | fail kind message => exact routineOrFail_fail m _
  | unknown name => exact routineOrFail_fail m _

end Parley.Machine
