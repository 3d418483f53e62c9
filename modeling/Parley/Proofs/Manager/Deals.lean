import Parley.Proofs.Manager.Records

/-!
# What a step does to the records of a manager

A manager makes a session only by a task that it puts on the agenda when it is asked to start a
conversation, and forgets its sessions only by one that it puts there when it is asked to end
them.  Apart from these four steps, nothing of this kind comes onto the agenda, and no session
that runs goes off the record (`Sound.deals`).
-/

namespace Parley

namespace Task

variable {id : ManagerId} {rest agenda : List Task}

/-- Whether a task makes a session of the manager, or makes the manager forget its sessions. -/
def manages (id : ManagerId) : Task → Bool
  | .launch other .. | .forget other => other = id
  | _ => false

/-- What becomes of the rest of an agenda when a manager has nothing to do with it. -/
inductive Carries (id : ManagerId) (rest : List Task) : List Task → Prop
  | push {tasks : List Task} {f : Task → Task} (htasks : ∀ t ∈ tasks, t.manages id = false)
      (hf : KeepsFrames f) : Carries id rest (tasks ++ rest.map f)
  | cut {before after : List Task} {f : Task → Task} (hf : KeepsFrames f)
      (heq : rest.map f = before ++ after)
      (hafter : after = [] ∨ ∃ b below, after = .dispatch b :: below) : Carries id rest after

theorem Carries.append (tasks rest : List Task) (h : ∀ t ∈ tasks, t.manages id = false) :
    Carries id rest (tasks ++ rest) := by
  have hpush : Carries id rest (tasks ++ rest.map fun t => t) := .push h keepsFrames_id
  rwa [List.map_id'] at hpush

theorem Carries.refl (id : ManagerId) (rest : List Task) : Carries id rest rest :=
  .append [] rest (by simp)

/-- Only a step on a manager leaves it something to do. -/
theorem Continues.carries {task : Task} {w : World} (h : Continues task w rest agenda)
    (htask : ∀ step, task ≠ .perform (.manager step)) (id : ManagerId) :
    Carries id rest agenda := by
  cases h with
  | push htasks hf =>
      refine .push (fun t ht => ?_) hf
      have hyields := (htasks t ht).2
      cases t with
      | launch _ _ _ _ _ _ | forget _ =>
          obtain ⟨step, hstep⟩ := hyields
          exact absurd hstep (htask step)
      | _ => rfl
  | cut hf heq _ hafter => exact .cut hf heq hafter

/-- What is on the agenda of a manager was there before. -/
theorem Carries.mem (h : Carries id rest agenda) {task : Task} (hmem : task ∈ agenda)
    (htask : task.manages id = true) : task ∈ rest := by
  have hmapped : ∀ {f : Task → Task}, KeepsFrames f → task ∈ rest.map f → task ∈ rest := by
    intro f hf hin
    obtain ⟨before, hbefore, heq⟩ := List.mem_map.mp hin
    rcases hf before with hsame | ⟨sink, course, course', rfl, hcourse⟩
    · exact (hsame.symm.trans heq) ▸ hbefore
    · rw [← heq, hcourse] at htask
      exact absurd htask (by simp [manages])
  cases h with
  | push htasks hf =>
      rcases List.mem_append.mp hmem with hnew | hold
      · exact absurd htask (by simp [htasks task hnew])
      · exact hmapped hf hold
  | cut hf heq hafter => exact hmapped hf (heq ▸ List.mem_append_right _ hmem)

end Task

namespace Machine

variable {m : Machine} {id other : ManagerId} {task : Task} {rest : List Task}

/-- What a step of a machine does to the records of a manager, and to what is on the agenda
of it. -/
inductive Deals (id : ManagerId) (m m' : Machine) : Prop
  /-- Nothing new. -/
  | aside (htends : m.world.Tends id m'.world)
      (hcarries : Task.Carries id m.agenda.tail m'.agenda)
  /-- A conversation is to be started on a display; the session on record is finished first. -/
  | starting {manager : Manager} {graph : Ref Graph} {d : DisplayId}
      {conversation title name : String} {node : Option String} {before after : List Task}
      (hhead : m.agenda.head? = some (.perform (.manager (.start conversation title node name))))
      (hcurrent : m.world.manager = some id) (hid : m.world.manager? id = some manager)
      (hdisplay : manager.displays.get? title = some d)
      (hworld : m'.world = m.world.modifyManager id fun manager =>
        { manager with sessions := manager.sessions.erase title })
      (hbefore : ∀ t ∈ before, t.manages id = false)
      (hafter : ∀ t ∈ after, t.manages id = false)
      (hfirst : ∀ s, m.world.record id title = some s → m.world.running s = true →
        before.head? = some (.finish s none))
      (hagenda : m'.agenda =
        before ++ .launch id graph d title node name :: (after ++ m.agenda.tail))
  /-- All sessions are to be ended. -/
  | ending (sessions : List SessionId) (htends : m.world.Tends id m'.world)
      (hall : ∀ title s, m.world.record id title = some s → m.world.running s = true →
        s ∈ sessions)
      (hagenda : m'.agenda =
        sessions.flatMap (fun s => [.finish s none, .leave s]) ++ sessions.map .hold ++
          [.forget id, .answer .nothing] ++ m.agenda.tail)

/-! ## Failing -/

theorem carries_fail (id : ManagerId) {m : Machine} {rest : List Task} (h : m.agenda = rest)
    (failure : Failure) : Task.Carries id rest (m.fail failure).agenda := by
  obtain ⟨before, hcut, -, hafter⟩ := exists_eq_append_unwind m.agenda
  rw [agenda_fail]
  have hsame : rest.map (fun t => t) = before ++ (unwind m.agenda).elim [] Prod.snd := by
    rw [List.map_id', ← h]
    exact hcut
  exact .cut Task.keepsFrames_id hsame hafter

/-! ## Tasks on sessions -/

theorem tends_fail (m : Machine) (failure : Failure) : m.world.Tends id (m.fail failure).world := by
  rw [world_fail]
  exact .refl id _

theorem tends_setSession (m : Machine) (s : SessionId) (session : Session) :
    m.world.Tends id (m.setSession s session).world :=
  World.tends_of_displays rfl (World.manager?_modifySession ..)

theorem tends_exec_of_moves {s : SessionId} (htask : task.Moves s) (now : List Task) :
    m.world.Tends id (m.exec now task).world := by
  rcases world_exec_of_moves htask now with heq | ⟨moved, heq⟩ <;> rw [heq]
  · exact .refl id _
  · exact tends_setSession m s moved

theorem tends_load (s : SessionId) (data : Json.Value) (start : Option String) :
    m.world.Tends id (m.load s data start).world := by
  unfold load
  split
  · exact tends_fail m _
  · split
    · exact tends_fail m _
    · exact tends_setSession (m.logAll _) s _

theorem tends_finish (s : SessionId) (onComplete : Option HandlerId) :
    m.world.Tends id (m.finish s onComplete).world := by
  unfold finish
  split
  · exact tends_fail m _
  · split
    · exact .refl id _
    · rename_i session _ _
      refine World.tends_of_eq (fun d title hd => ?_)
        (World.manager?_modifySession ..)
      exact (World.titleOf_modifyDisplay m.world d session.display (f := fun display =>
        { display with bus := World.unlisten s display.bus }) fun _ => rfl).trans hd

/-! ## Tasks on managers -/

/-- A display is open before a session is there on it. -/
theorem titleOf_launch (m : Machine) (other : ManagerId) (graph : Ref Graph) (d : DisplayId)
    (title : String) (node : Option String) (name : String) (e : DisplayId) :
    (m.launch other graph d title node name).world.titleOf e = m.world.titleOf e := by
  rw [launch_eq]
  split
  · rw [world_fail]
  · exact (World.titleOf_addSession _ _ e).trans
      (World.titleOf_modifyDisplay _ e d fun _ => rfl)

theorem tends_launch_of_ne (h : other ≠ id) (graph : Ref Graph) (d : DisplayId) (title : String)
    (node : Option String) (name : String) :
    m.world.Tends id (m.launch other graph d title node name).world := by
  refine World.tends_of_eq (fun e found he => (titleOf_launch ..).trans he) ?_
  rw [launch_eq]
  split
  · rw [world_fail]
  · refine (World.manager?_modifyManager _ id other _).trans ((if_neg h).trans ?_)
    exact World.manager?_addSession ..

theorem launch_of_manager?_eq_none (hother : m.world.manager? other = none) (graph : Ref Graph)
    (d : DisplayId) (title : String) (node : Option String) (name : String) :
    m.launch other graph d title node name = m.fail .unknownName := by
  rw [launch, hother]

/-- The session that is made is on its display. -/
theorem titleOn_launch {manager : Manager} (hother : m.world.manager? other = some manager)
    (graph : Ref Graph) (d : DisplayId) (title : String) (node : Option String) (name : String) :
    (m.launch other graph d title node name).world.titleOn ⟨m.world.sessions.length⟩ =
      m.world.titleOf d := by
  have hsession : (m.launch other graph d title node name).world.session?
      ⟨m.world.sessions.length⟩ =
        some { display := d, config := manager.config,
               graph := some (m.world.graph graph).clone } := by
    rw [launch_eq, hother]
    exact (World.session?_modifyManager ..).trans
      ((World.session?_addSession _ _ ⟨m.world.sessions.length⟩).trans (if_pos rfl))
  rw [World.titleOn, hsession]
  exact titleOf_launch ..

/-- The session that is made is on record under the title of its display. -/
theorem record_launch {manager : Manager} (hother : m.world.manager? other = some manager)
    (graph : Ref Graph) (d : DisplayId) (title : String) (node : Option String)
    (name found : String) :
    (m.launch other graph d title node name).world.record other found =
      if title = found then some ⟨m.world.sessions.length⟩ else m.world.record other found := by
  rw [launch_eq, hother, World.record_of_manager? hother]
  refine (World.record_modifyManager ?_ _ found).trans (Table.get?_insert ..)
  exact (World.manager?_addSession ..).trans hother

theorem titled_launch {manager : Manager} (hother : m.world.manager? other = some manager)
    (graph : Ref Graph) (d : DisplayId) (title : String) (node : Option String) (name : String)
    (h : m.world.Titled other) : (m.launch other graph d title node name).world.Titled other := by
  rw [launch_eq, hother]
  refine World.Titled.modifyManager (fun found key e hfound he => ?_) fun _ => rfl
  refine (World.titleOf_addSession _ _ e).trans
    ((World.titleOf_modifyDisplay _ e d ?_).trans (h found key e ?_ he))
  · exact fun _ => rfl
  · exact (World.manager?_addSession ..).symm.trans hfound

theorem agenda_launch {manager : Manager} (hother : m.world.manager? other = some manager)
    (graph : Ref Graph) (d : DisplayId) (title : String) (node : Option String) (name : String) :
    ∃ tasks, (∀ t ∈ tasks, t.manages other = false) ∧
      (m.launch other graph d title node name).agenda = tasks ++ m.agenda := by
  rw [launch_eq, hother]
  refine ⟨_, ?_, rfl⟩
  cases node <;> simp [Task.manages]

/-! ## Steps of the host -/

theorem tends_newSession (name : String) (d : DisplayId) (config : Config)
    (source : SessionSource) : m.world.Tends id (m.newSession name d config source).world := by
  have hmake : ∀ (m' : Machine) (graph : Option Graph)
      (data : List (Json.Value × Option String)), m'.world = m.world →
      m.world.Tends id (newSession.make name d config m' graph data).world := by
    intro m' graph data hworld
    rw [← hworld]
    exact World.tends_of_eq (fun e title he => (World.titleOf_addSession _ _ e).trans he)
      (World.manager?_addSession ..)
  unfold newSession
  split
  · exact hmake m none [] rfl
  · split
    · exact tends_fail m _
    · exact hmake _ _ [] rfl
  · exact hmake m none _ rfl

theorem tends_performNodeStep (s : SessionId) (session : Session) (key : String) (node : Node)
    (step : NodeStep) : m.world.Tends id (m.performNodeStep s session key node step).world := by
  unfold performNodeStep
  dsimp only
  split
  · rw [world_fail]
    exact .refl id _
  · split <;> exact tends_setSession _ s _

theorem tends_perform (now : List Task) {step : Step} (hstep : step.isPlain = false)
    (hmanager : ∀ step', step ≠ .manager step') :
    m.world.Tends id (m.perform now step).world := by
  cases step with
  | newSession name display settings source =>
      dsimp only [perform]
      rcases m.withDisplay_cases display _ with ⟨d, found, -, -, heq⟩ | heq <;> rw [heq]
      · rcases m.withSettings_cases settings _ with ⟨config, heq⟩ | ⟨failure, heq⟩ <;> rw [heq]
        · exact tends_newSession name d config source
        · exact tends_fail m _
      · exact tends_fail m _
  | newManager settings =>
      dsimp only [perform]
      rcases m.withSettings_cases settings _ with ⟨config, heq⟩ | ⟨failure, heq⟩ <;> rw [heq]
      · exact World.tends_addManager { config := ⟨m.world.configs.length⟩ } rfl
          (World.managers_addManager ..) rfl
      · exact tends_fail m _
  | session name step =>
      cases step with
      | node title step =>
          dsimp only [perform]
          rcases m.withSession_cases name _ with ⟨t, session, -, -, heq⟩ | heq <;> rw [heq]
          · dsimp only [performSession]
            rcases m.withNode_cases session title _ with ⟨key, node, -, heq⟩ | heq <;> rw [heq]
            · exact tends_performNodeStep t session key node step
            · exact tends_fail m _
          · exact tends_fail m _
      | _ => exact absurd hstep (by simp [Step.isPlain])
  | manager step => exact absurd rfl (hmanager step)
  | _ => exact absurd hstep (by simp [Step.isPlain])

/-- No step but those of the manager takes a session that runs off the record. -/
theorem Sound.tends_step (h : Sound m) (hagenda : m.agenda = task :: rest)
    (htask : task.manages id = false) (hmanager : ∀ step, task ≠ .perform (.manager step)) :
    m.world.Tends id m.step.world := by
  cases hplain : task.isPlain with
  | true => exact (h.steady_step hagenda hplain).tends id
  | false =>
      rw [step_eq hagenda]
      cases task with
      | start s title => exact tends_exec_of_moves (m := { m with agenda := rest }) (.start title) _
      | proceed s => exact tends_exec_of_moves (m := { m with agenda := rest }) .proceed _
      | follow s key destination =>
          exact tends_exec_of_moves (m := { m with agenda := rest }) (.follow key destination) _
      | load s data start => exact tends_load (m := { m with agenda := rest }) s data start
      | finish s onComplete => exact tends_finish (m := { m with agenda := rest }) s onComplete
      | launch other graph d title node name =>
          refine tends_launch_of_ne (m := { m with agenda := rest }) (fun heq => ?_) ..
          exact absurd htask (by simp [Task.manages, heq])
      | forget other =>
          refine World.tends_modifyManager_of_ne _ (fun heq => ?_) _
          exact absurd htask (by simp [Task.manages, heq])
      | perform step =>
          exact tends_perform (m := { m with agenda := rest }) _ hplain
            fun step' heq => hmanager step' (congrArg _ heq)
      | _ => exact absurd hplain (by simp [Task.isPlain])

theorem Sound.carries_step (h : Sound m) (hagenda : m.agenda = task :: rest)
    (hmanager : ∀ step, task ≠ .perform (.manager step)) (id : ManagerId) :
    Task.Carries id rest m.step.agenda := by
  cases hworks : task.worksBus with
  | false =>
      have hknown : task.Known m.world := h.known task (by simp [hagenda])
      exact (continues_step hagenda hknown hworks).carries hmanager id
  | true =>
      obtain ⟨tasks, htasks, heq⟩ := h.exists_step_agenda_eq hagenda hworks
      rw [heq]
      refine .append tasks rest fun t ht => ?_
      have hframe := htasks t ht
      cases t with
      | dispatch _ | drain _ _ _ | deliver _ _ => rfl
      | _ => exact absurd hframe (by simp)

/-! ## Steps on the manager -/

theorem get?_activeSessions {w : World} {manager : Manager} {title : String} {s : SessionId}
    (hs : manager.sessions.get? title = some s) (hrunning : w.running s = true) :
    (activeSessions w manager).get? title = some s :=
  Table.get?_filterValues hs (World.running_eq w s ▸ hrunning)

/-- The sessions of a manager that are finished leave its records. -/
theorem tends_activeSessions {w : World} {manager : Manager}
    (hother : w.manager? other = some manager) (id : ManagerId) :
    w.Tends id (w.modifyManager other fun _ =>
      { manager with sessions := activeSessions w manager }) :=
  World.tends_setManager { manager with sessions := activeSessions w manager } hother
    (fun _ _ hd => .inl hd) (fun _ _ hs hrunning => get?_activeSessions hs hrunning) id

theorem tends_setManager_of_sameRecords {manager manager' : Manager}
    (hother : m.world.manager? other = some manager) (h : Manager.SameRecords manager manager')
    (id : ManagerId) : m.world.Tends id (performManager.set other m manager').world :=
  World.tends_setManager manager' hother (fun _ _ hd => .inl (h.displays ▸ hd))
    (fun _ _ hs _ => h.sessions ▸ hs) id

/-- A conversation is started by putting the making of its session on the agenda. -/
theorem deals_launch {m' : Machine} {manager : Manager} {graph : Ref Graph} {d : DisplayId}
    {conversation title name : String} {node : Option String} (before after : List Task)
    (hhead : m.agenda.head? = some (.perform (.manager (.start conversation title node name))))
    (hcurrent : m.world.manager = some other)
    (hother : m.world.manager? other = some manager)
    (hdisplay : manager.displays.get? title = some d)
    (hworld : m'.world = m.world.modifyManager other fun manager =>
      { manager with sessions := manager.sessions.erase title })
    (hbefore : ∀ t ∈ before, t.manages id = false) (hafter : ∀ t ∈ after, t.manages id = false)
    (hfirst : ∀ s, manager.sessions.get? title = some s → m.world.running s = true →
      before.head? = some (.finish s none))
    (hagenda : m'.agenda =
      before ++ .launch other graph d title node name :: (after ++ m.agenda.tail)) :
    Deals id m m' := by
  by_cases hid : other = id
  · rw [hid] at hcurrent hother hworld hagenda
    exact .starting hhead hcurrent hother hdisplay hworld hbefore hafter
      (fun s hs => hfirst s (World.record_of_manager? hother title ▸ hs)) hagenda
  · refine .aside (hworld ▸ World.tends_modifyManager_of_ne _ hid _) ?_
    rw [hagenda, ← List.cons_append, ← List.append_assoc]
    refine .append _ _ fun t ht => ?_
    rcases List.mem_append.mp ht with ht | ht
    · exact hbefore t ht
    · rcases List.mem_cons.mp ht with rfl | ht
      · simp [Task.manages, hid]
      · exact hafter t ht

theorem deals_converse {m' : Machine} {conversation title name : String} {node : Option String}
    (hhead : m.agenda.head? = some (.perform (.manager (.start conversation title node name))))
    (hcurrent : m.world.manager = some other) (hworld : m'.world = m.world)
    (hagenda : m'.agenda = m.agenda.tail) {manager : Manager}
    (hother : m.world.manager? other = some manager) :
    Deals id m (m'.converse other manager conversation title node name) := by
  have hrest : ∀ {m'' : Machine}, m''.world = m'.world → m''.agenda = m'.agenda →
      Deals id m m'' := fun hw ha =>
    .aside (by rw [hw, hworld]; exact .refl id _) (by rw [ha, hagenda]; exact .refl id _)
  unfold converse
  split
  · exact hrest rfl rfl
  · split
    · exact hrest rfl rfl
    · rename_i d hd
      dsimp only
      split
      · rename_i hnone
        refine deals_launch [] [] hhead hcurrent hother hd
          (by rw [← hworld]; rfl) (by simp) (by simp) (fun s hs => ?_) (by rw [← hagenda]; rfl)
        exact absurd (hnone.symm.trans hs) (by simp)
      · rename_i previous hprevious
        split
        · rename_i hfinished
          rw [withWorld, World.session?_modifyManager] at hfinished
          refine deals_launch [] [.hold previous] hhead hcurrent hother hd
            (by rw [← hworld]; rfl) (by simp) (by simp [Task.manages])
            (fun s hs hrunning => ?_) (by rw [← hagenda]; rfl)
          rw [World.running_eq, ← Option.some.inj (hprevious.symm.trans hs), ← hworld] at hrunning
          exact absurd (hfinished.symm.trans (Bool.not_eq_true' _ ▸ hrunning)) (by simp)
        · refine deals_launch [.finish previous none, .leave previous] [.hold previous]
            hhead hcurrent hother hd (by rw [← hworld]; rfl) (by simp [Task.manages])
            (by simp [Task.manages]) (fun s hs _ => ?_) (by rw [← hagenda]; rfl)
          rw [Option.some.inj (hprevious.symm.trans hs)]
          rfl

theorem deals_performManager {m' : Machine} {step : ManagerStep}
    (hhead : m.agenda.head? = some (.perform (.manager step)))
    (hcurrent : m.world.manager = some other) (hworld : m'.world = m.world)
    (hagenda : m'.agenda = m.agenda.tail) {manager : Manager}
    (hother : m.world.manager? other = some manager) :
    Deals id m (m'.performManager other manager step) := by
  have hother' : m'.world.manager? other = some manager := hworld ▸ hother
  have hrest : ∀ {m'' : Machine}, m'.world.Tends id m''.world → m''.agenda = m'.agenda →
      Deals id m m'' := fun hw ha =>
    .aside (hworld ▸ hw) (by rw [ha, hagenda]; exact .refl id _)
  have hfail : ∀ failure, Deals id m (m'.fail failure) := fun failure =>
    .aside (by rw [world_fail, hworld]; exact .refl id _) (carries_fail id hagenda failure)
  cases step with
  | register display =>
      dsimp only [performManager]
      rcases m'.withDisplay_cases display _ with ⟨d, found, -, hd, heq⟩ | heq <;> rw [heq]
      · refine hrest (World.tends_setManager (manager.register found.title d).value
          hother' (fun title e he => ?_) (fun _ _ hs _ => hs) id) rfl
        rw [Manager.register, Table.get?_insert] at he
        split at he
        · rename_i htitle
          rw [← Option.some.inj he, World.titleOf, hd, ← htitle]
          exact .inr rfl
        · exact .inl he
      · exact hfail _
  | displayOf title => exact hrest (.refl id _) rfl
  | add conversation data =>
      dsimp only [performManager]
      split
      · exact hfail _
      · rename_i logged hadd
        exact hrest (tends_setManager_of_sameRecords (m := m') hother'
          (Manager.sameRecords_add hadd) id) rfl
  | get conversation => exact hrest (.refl id _) rfl
  | conversations => exact hrest (.refl id _) rfl
  | loadFolder folder place =>
      exact hrest (tends_setManager_of_sameRecords (m := m') hother'
        (Manager.sameRecords_loadFolder manager _ folder place) id) rfl
  | start conversation title node name => 
      exact deals_converse hhead hcurrent hworld hagenda hother
  | active => exact hrest (tends_activeSessions hother' id) rfl
  | endAll =>
      have htends : m.world.Tends id (m'.performManager other manager .endAll).world :=
        hworld ▸ tends_activeSessions hother' id
      by_cases hid : other = id
      · refine .ending (activeSessions m'.world manager).values htends
          (fun title s hs hrunning => ?_) ?_
        · rw [World.record_of_manager? (hid ▸ hother)] at hs
          exact Table.mem_values_of_get? (get?_activeSessions hs (hworld ▸ hrunning))
        · rw [← hagenda, ← hid]
          rfl
      · refine .aside htends ?_
        rw [← hagenda]
        refine .append _ _ fun t ht => ?_
        rcases endAll_tasks ht with ⟨s, rfl⟩ | ⟨s, rfl⟩ | ⟨s, rfl⟩ | rfl | rfl <;>
          simp [Task.manages, hid]

/-! ## Every step -/

/-- Apart from making a session and forgetting all, a step does no more than this. -/
theorem Sound.deals (h : Sound m) (hagenda : m.agenda = task :: rest)
    (htask : task.manages id = false) : Deals id m m.step := by
  have htail : m.agenda.tail = rest := by rw [hagenda]; rfl
  by_cases hmanager : ∃ step, task = .perform (.manager step)
  · obtain ⟨step, rfl⟩ := hmanager
    rw [step_eq hagenda]
    dsimp only [exec, perform]
    split
    · exact .aside (tends_fail (m := { m with agenda := rest }) _)
        (carries_fail id htail.symm _)
    · rename_i other manager hcurrent
      obtain ⟨current, hname, hpaired⟩ := Option.bind_eq_some_iff.mp hcurrent
      obtain ⟨found, hfound, hpair⟩ := Option.map_eq_some_iff.mp hpaired
      obtain ⟨rfl, rfl⟩ := Prod.mk.inj hpair
      exact deals_performManager (by rw [hagenda]; rfl) hname (by rfl) htail.symm hfound
  · rw [not_exists] at hmanager
    exact .aside (h.tends_step hagenda htask hmanager) (htail ▸ h.carries_step hagenda hmanager id)

end Machine

end Parley
