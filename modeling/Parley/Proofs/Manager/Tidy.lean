import Parley.Proofs.Manager.Pending

/-!
# The sessions that a manager has made

A session that a manager has made is on record as long as it runs, but for the moment in which
it is finished to make room.  While the making of a session waits on the agenda, its display is
free; while the forgetting of all sessions waits, each of them is about to be finished.  All of
this holds at any time (`Tidy`), provided that no conversation is started on a display whose
session is being made, or while all are being ended.
-/

namespace Parley

namespace Machine

variable {m m' : Machine} {id : ManagerId} {s : SessionId} {title : String}
  {Made : SessionId → Prop} {rest : List Task}

/-! ## Sessions from one step to the next -/

/-- The next step finishes the session. -/
def Leaving (s : SessionId) (m : Machine) : Prop :=
  ∃ onComplete, m.agenda.head? = some (.finish s onComplete)

theorem Leaving.not_running (h : Leaving s m) : m.step.world.running s = false := by
  obtain ⟨onComplete, hhead⟩ := h
  cases hagenda : m.agenda with
  | nil => simp [hagenda] at hhead
  | cons task rest =>
      obtain rfl : task = .finish s onComplete := by simpa [hagenda] using hhead
      rw [step_eq hagenda, World.running_eq]
      dsimp only [exec, finish]
      split
      · rename_i hnone
        rw [world_fail]
        simp [hnone]
      · rename_i session hs
        split
        · rename_i hfinished
          simp [hs, hfinished]
        · rw [world_push, withWorld, World.session?_modifySession, if_pos rfl]
          simp [hs]

/-- Sessions stay under their titles, and those that run have been running before and are not
the one that was finished. -/
structure Stays (m m' : Machine) : Prop where
  titleOn : ∀ s title, m.world.titleOn s = some title → m'.world.titleOn s = some title
  running : ∀ s title, m.world.titleOn s = some title → m'.world.running s = true →
    m.world.running s = true ∧ ¬ Leaving s m

theorem Sound.stays (h : Sound m)
    (htitle : ∀ d title, m.world.titleOf d = some title → m.step.world.titleOf d = some title) :
    Stays m m.step := by
  refine ⟨fun s title hs => ?_, fun s title hs hrunning => ⟨?_, fun hleaving => ?_⟩⟩
  · obtain ⟨session, hsession, hd⟩ := Option.bind_eq_some_iff.mp hs
    obtain ⟨session', hsession', hpassage⟩ := (h.passes s).passage session hsession
    refine Option.bind_eq_some_iff.mpr ⟨session', hsession', ?_⟩
    rw [hpassage.display_eq]
    exact htitle _ _ hd
  · obtain ⟨session, hsession, -⟩ := Option.bind_eq_some_iff.mp hs
    obtain ⟨session', hsession', hpassage⟩ := (h.passes s).passage session hsession
    rw [World.running_eq, hsession'] at hrunning
    rw [World.running_eq, hsession]
    cases hfinished : session.finished with
    | false => simp [hfinished]
    | true => simp [hpassage.finished_of_finished hfinished] at hrunning
  · rw [hleaving.not_running] at hrunning
    exact absurd hrunning (by simp)

/-! ## The invariant -/

/-- What holds of the sessions that a manager has made. -/
structure Tidy (id : ManagerId) (Made : SessionId → Prop) (m : Machine) : Prop where
  titled : m.world.Titled id
  placed : ∀ s, Made s → ∃ title, m.world.titleOn s = some title
  /-- A session that runs is on record, unless it is finished now to make room. -/
  recorded : ∀ s title, Made s → m.world.running s = true → m.world.titleOn s = some title →
    m.world.record id title = some s ∨ (Leaving s m ∧ m.world.record id title = none)
  /-- Where a session is about to be made, none runs but the one that is finished now. -/
  free : ∀ graph d title node name, .launch id graph d title node name ∈ m.agenda →
    m.world.titleOf d = some title ∧
      ∀ s, Made s → m.world.running s = true → m.world.titleOn s = some title → Leaving s m
  ordered : Task.Ordered id m.agenda
  /-- A session that runs is finished before the manager forgets it. -/
  doomed : ∀ s, Made s → m.world.running s = true → Task.Doomed id s false m.agenda

/-- No two sessions of a manager run under one title. -/
theorem Tidy.eq_of_titleOn {t : SessionId} (h : Tidy id Made m) (hs : Made s) (ht : Made t)
    (hsrunning : m.world.running s = true) (htrunning : m.world.running t = true)
    (htitle : m.world.titleOn s = m.world.titleOn t) : s = t := by
  obtain ⟨title, hplace⟩ := h.placed s hs
  rcases h.recorded s title hs hsrunning hplace with hrecord | ⟨⟨c, hhead⟩, hnone⟩ <;>
    rcases h.recorded t title ht htrunning (htitle ▸ hplace) with hrecord' | ⟨⟨c', hhead'⟩, hnone'⟩
  · exact Option.some.inj (hrecord.symm.trans hrecord')
  · exact absurd (hrecord.symm.trans hnone') (by simp)
  · exact absurd (hnone.symm.trans hrecord') (by simp)
  · exact (Task.finish.inj (Option.some.inj (hhead.symm.trans hhead'))).1

/-- What is known of fewer sessions. -/
theorem Tidy.anti {Made' : SessionId → Prop} (h : Tidy id Made m)
    (hmade : ∀ s, Made' s → Made s) : Tidy id Made' m where
  titled := h.titled
  placed s hs := h.placed s (hmade s hs)
  recorded s title hs := h.recorded s title (hmade s hs)
  free graph d title node name hmem :=
    ⟨(h.free graph d title node name hmem).1,
      fun s hs => (h.free graph d title node name hmem).2 s (hmade s hs)⟩
  ordered := h.ordered
  doomed s hs := h.doomed s (hmade s hs)

/-- A session that still runs after a step was on record before it. -/
theorem Tidy.before (h : Tidy id Made m) (hstays : Stays m m') (hs : Made s)
    (hrunning : m'.world.running s = true) :
    ∃ title, m.world.titleOn s = some title ∧ m'.world.titleOn s = some title ∧
      m.world.running s = true ∧ m.world.record id title = some s ∧ ¬ Leaving s m := by
  obtain ⟨title, hplace⟩ := h.placed s hs
  obtain ⟨hran, hstayed⟩ := hstays.running s title hplace hrunning
  refine ⟨title, hplace, hstays.titleOn s title hplace, hran, ?_, hstayed⟩
  exact (h.recorded s title hs hran hplace).resolve_right fun hleft => hstayed hleft.1

theorem Tidy.placed_of_stays (h : Tidy id Made m) (hstays : Stays m m') (s : SessionId)
    (hs : Made s) : ∃ title, m'.world.titleOn s = some title :=
  (h.placed s hs).imp fun title => hstays.titleOn s title

/-- Records that are kept. -/
theorem Tidy.recorded_of_tends (h : Tidy id Made m) (hstays : Stays m m')
    (htends : m.world.Tends id m'.world) (hs : Made s) (hrunning : m'.world.running s = true)
    (htitle : m'.world.titleOn s = some title) : m'.world.record id title = some s := by
  obtain ⟨found, -, hplace, hran, hrecord, -⟩ := h.before hstays hs hrunning
  obtain rfl := Option.some.inj (htitle.symm.trans hplace)
  exact htends.record title s hrecord hran

/-- What was free stays free. -/
theorem Tidy.free_of_mem (h : Tidy id Made m) (hstays : Stays m m')
    (htitle : ∀ d title, m.world.titleOf d = some title → m'.world.titleOf d = some title)
    {graph : Ref Graph} {d : DisplayId} {node : Option String} {name : String}
    (hmem : .launch id graph d title node name ∈ m.agenda.tail) :
    m'.world.titleOf d = some title ∧
      ∀ s, Made s → m'.world.running s = true → m'.world.titleOn s = some title →
        Leaving s m' := by
  obtain ⟨hd, hfree⟩ := h.free graph d title node name (List.mem_of_mem_tail hmem)
  refine ⟨htitle d title hd, fun s hs hrunning hplace => ?_⟩
  obtain ⟨found, hbefore, hafter, hran, -, hstayed⟩ := h.before hstays hs hrunning
  obtain rfl := Option.some.inj (hplace.symm.trans hafter)
  exact absurd (hfree s hs hran hbefore) hstayed

theorem Tidy.doomed_tail (h : Tidy id Made m) (hstays : Stays m m') (hs : Made s)
    (hrunning : m'.world.running s = true) : Task.Doomed id s false m.agenda.tail := by
  obtain ⟨_, _, _, hran, -, hstayed⟩ := h.before hstays hs hrunning
  exact (h.doomed s hs hran).tail fun onComplete hhead => hstayed ⟨onComplete, hhead⟩

/-! ## The steps of a manager -/

theorem Tidy.aside (h : Tidy id Made m) (hstays : Stays m m')
    (htends : m.world.Tends id m'.world) (hcarries : Task.Carries id m.agenda.tail m'.agenda) :
    Tidy id Made m' where
  titled := htends.titled h.titled
  placed := h.placed_of_stays hstays
  recorded _ _ hs hrunning htitle :=
    .inl (h.recorded_of_tends hstays htends hs hrunning htitle)
  free _ _ _ _ _ hmem :=
    h.free_of_mem hstays htends.title (hcarries.mem hmem (by simp [Task.manages]))
  ordered := hcarries.ordered h.ordered.tail
  doomed _ hs hrunning := hcarries.doomed (h.doomed_tail hstays hs hrunning)

/-- Ending all sessions puts the end of each of them in front of forgetting them. -/
theorem Tidy.ending (h : Tidy id Made m) (hstays : Stays m m') {sessions : List SessionId}
    (htends : m.world.Tends id m'.world)
    (hall : ∀ title s, m.world.record id title = some s → m.world.running s = true → s ∈ sessions)
    (hagenda : m'.agenda =
      sessions.flatMap (fun s => [.finish s none, .leave s]) ++ sessions.map .hold ++
        [.forget id, .answer .nothing] ++ m.agenda.tail) : Tidy id Made m' where
  titled := htends.titled h.titled
  placed := h.placed_of_stays hstays
  recorded _ _ hs hrunning htitle :=
    .inl (h.recorded_of_tends hstays htends hs hrunning htitle)
  free graph d title node name hmem := by
    rw [hagenda] at hmem
    rcases List.mem_append.mp hmem with hnew | hold
    · rcases endAll_tasks hnew with ⟨_, heq⟩ | ⟨_, heq⟩ | ⟨_, heq⟩ | heq | heq <;>
        exact absurd heq (by simp)
    · exact h.free_of_mem hstays htends.title hold
  ordered := by
    rw [hagenda]
    refine h.ordered.tail.append fun t ht title => ?_
    rcases endAll_tasks ht with ⟨_, rfl⟩ | ⟨_, rfl⟩ | ⟨_, rfl⟩ | rfl | rfl <;> rfl
  doomed s hs hrunning := by
    obtain ⟨title, -, -, hran, hrecord, -⟩ := h.before hstays hs hrunning
    rw [hagenda, List.append_assoc]
    refine .of_finishes ?_ (fun t ht => ?_) (fun b hb => ?_) (.inr ⟨.finish s none, ?_, ?_⟩)
    · refine ⟨fun _ => rfl, (by simp [Task.forgets]), ?_⟩
      exact (h.doomed_tail hstays hs hrunning).mono (by simp)
    · simp only [List.mem_append, List.mem_flatMap, List.mem_map, List.mem_cons, List.not_mem_nil,
        or_false] at ht
      obtain ⟨_, -, rfl | rfl⟩ | ⟨_, -, rfl⟩ := ht <;> rfl
    · simp at hb
    · exact List.mem_append_left _ (List.mem_flatMap.mpr ⟨s, hall title s hrecord hran, by simp⟩)
    · simp [Task.finishes]

/-- Starting a conversation takes the session that was there off the record, and has it finished
first. -/
theorem Tidy.starting (h : Tidy id Made m) (hstays : Stays m m') {manager : Manager}
    {graph : Ref Graph} {d : DisplayId} {name : String} {node : Option String}
    {before after : List Task} (hid : m.world.manager? id = some manager)
    (hdisplay : manager.displays.get? title = some d)
    (hworld : m'.world = m.world.modifyManager id fun manager =>
      { manager with sessions := manager.sessions.erase title })
    (hbefore : ∀ t ∈ before, t.manages id = false) (hafter : ∀ t ∈ after, t.manages id = false)
    (hfirst : ∀ s, m.world.record id title = some s → m.world.running s = true →
      before.head? = some (.finish s none))
    (hagenda : m'.agenda =
      before ++ .launch id graph d title node name :: (after ++ m.agenda.tail))
    (halone : ∀ t ∈ m.agenda.tail, t.blocks id title = false) : Tidy id Made m' := by
  have hleaving : ∀ s, Made s → m'.world.running s = true → m'.world.titleOn s = some title →
      Leaving s m' := by
    intro s hs hrunning htitle
    obtain ⟨found, -, hplace, hran, hrecord, -⟩ := h.before hstays hs hrunning
    obtain rfl := Option.some.inj (htitle.symm.trans hplace)
    refine ⟨none, ?_⟩
    have hhead := hfirst s hrecord hran
    rw [hagenda, List.head?_append, hfirst s hrecord hran]
    rfl
  have hrecord : ∀ found, m'.world.record id found =
      if title = found then none else m.world.record id found := by
    intro found
    rw [hworld, World.record_modifyManager hid, Table.get?_erase, World.record_of_manager? hid]
  constructor
  case titled =>
    rw [hworld]
    exact h.titled.modifyManager fun _ => rfl
  case placed => exact h.placed_of_stays hstays
  case recorded =>
    intro s found hs hrunning hplace
    rw [hrecord]
    split
    · rename_i heq
      exact .inr ⟨hleaving s hs hrunning (heq ▸ hplace), rfl⟩
    · obtain ⟨known, -, hknown, -, hkept, -⟩ := h.before hstays hs hrunning
      rw [Option.some.inj (hplace.symm.trans hknown)]
      exact .inl hkept
  case free =>
    intro graph' d' found node' name' hmem
    rw [hagenda, List.mem_append, List.mem_cons, List.mem_append] at hmem
    rcases hmem with hnew | hlaunch | hnew | hold
    · exact absurd (hbefore _ hnew) (by simp [Task.manages])
    · obtain ⟨-, -, rfl, rfl, -, -⟩ := Task.launch.inj hlaunch
      refine ⟨?_, hleaving⟩
      rw [hworld]
      exact h.titled manager found d' hid hdisplay
    · exact absurd (hafter _ hnew) (by simp [Task.manages])
    · exact h.free_of_mem hstays (fun d title hd => by rw [hworld]; exact hd) hold
  case ordered => exact hagenda ▸ h.ordered.tail.launch hbefore hafter halone
  case doomed =>
    intro s _ _
    refine Task.doomed_of_forgets fun t ht => ?_
    rw [hagenda, List.mem_append, List.mem_cons, List.mem_append] at ht
    rcases ht with ht | rfl | ht | ht
    · exact Task.forgets_eq_false (hbefore t ht)
    · rfl
    · exact Task.forgets_eq_false (hafter t ht)
    · exact Task.forgets_of_blocks (halone t ht)

/-- A session that is made goes on record, under a title where none is running. -/
theorem Tidy.launch (h : Tidy id Made m) (hstays : Stays m m.step) {graph : Ref Graph}
    {d : DisplayId} {node : Option String} {name : String}
    (hagenda : m.agenda = .launch id graph d title node name :: rest) {manager : Manager}
    (hid : m.world.manager? id = some manager) :
    Tidy id (fun s => Made s ∨ ⟨m.world.sessions.length⟩ = s) m.step := by
  have hstep := step_eq hagenda
  obtain ⟨hd, hfree⟩ := h.free graph d title node name (by rw [hagenda]; exact List.mem_cons_self)
  obtain ⟨tasks, htasks, hpushed⟩ := agenda_launch (m := { m with agenda := rest }) hid
    graph d title node name
  have hnext : m.step.agenda = tasks ++ rest := by rw [hstep]; exact hpushed
  have hnew : m.step.world.titleOn ⟨m.world.sessions.length⟩ = some title := by
    rw [hstep]
    exact (titleOn_launch (m := { m with agenda := rest }) hid graph d title node name).trans hd
  have hrecord : ∀ found, m.step.world.record id found =
      if title = found then some ⟨m.world.sessions.length⟩ else m.world.record id found := by
    intro found
    rw [hstep]
    exact record_launch (m := { m with agenda := rest }) hid graph d title node name found
  -- Nothing stands in the way behind the task.
  have hordered := h.ordered
  rw [hagenda, Task.Ordered, List.pairwise_cons] at hordered
  have hrest : ∀ t ∈ rest, t.blocks id title = false := fun t ht =>
    hordered.1 t ht title (by simp [Task.launches])
  constructor
  case titled =>
    rw [hstep]
    exact titled_launch (m := { m with agenda := rest }) hid graph d title node name h.titled
  case placed =>
    rintro s (hs | rfl)
    · exact h.placed_of_stays hstays s hs
    · exact ⟨title, hnew⟩
  case recorded =>
    rintro s found (hs | rfl) hrunning hplace
    · obtain ⟨known, hbefore, hafter, hran, hkept, hstayed⟩ := h.before hstays hs hrunning
      obtain rfl := Option.some.inj (hplace.symm.trans hafter)
      rw [hrecord, if_neg]
      · exact .inl hkept
      · rintro rfl
        exact hstayed (hfree s hs hran hbefore)
    · rw [hrecord, if_pos (Option.some.inj (hnew.symm.trans hplace))]
      exact .inl rfl
  case free =>
    intro graph' d' found node' name' hmem
    rw [hnext] at hmem
    rcases List.mem_append.mp hmem with ht | ht
    · exact absurd (htasks _ ht) (by simp [Task.manages])
    · have hother : found ≠ title := fun heq =>
        absurd (hrest _ ht) (by simp [Task.blocks, Task.launches, heq])
      obtain ⟨hd', hfree'⟩ := h.free_of_mem hstays
        (fun e key he => by rw [hstep]; exact (titleOf_launch ..).trans he)
        (by rw [hagenda]; exact ht : Task.launch id graph' d' found node' name' ∈ m.agenda.tail)
      refine ⟨hd', ?_⟩
      rintro s (hs | rfl) hrunning hplace
      · exact hfree' s hs hrunning hplace
      · exact absurd (Option.some.inj (hplace.symm.trans hnew)) hother
  case ordered =>
    rw [hnext]
    exact Task.Ordered.append hordered.2 fun t ht => Task.launches_eq_false (htasks t ht)
  case doomed =>
    intro s _ _
    refine Task.doomed_of_forgets fun t ht => ?_
    rw [hnext] at ht
    rcases List.mem_append.mp ht with ht | ht
    · exact Task.forgets_eq_false (htasks t ht)
    · exact Task.forgets_of_blocks (hrest t ht)

/-- All that a manager forgets is finished. -/
theorem Tidy.forget (h : Tidy id Made m) (hstays : Stays m m.step)
    (hagenda : m.agenda = .forget id :: rest) : Tidy id Made m.step := by
  have hnone : ∀ s, Made s → m.step.world.running s = true → False := by
    intro s hs hrunning
    obtain ⟨_, _, _, hran, -, -⟩ := h.before hstays hs hrunning
    have hdoomed := h.doomed s hs hran
    rw [hagenda] at hdoomed
    exact absurd (hdoomed.1 (by simp [Task.forgets])) (by simp)
  have hstep := step_eq hagenda
  have hnext : m.step.agenda = m.agenda.tail := by rw [hstep, hagenda]; rfl
  constructor
  case titled =>
    rw [hstep]
    exact h.titled.modifyManager fun _ => rfl
  case placed => exact h.placed_of_stays hstays
  case recorded => exact fun s _ hs hrunning => (hnone s hs hrunning).elim
  case free =>
    intro graph d title node name hmem
    rw [hnext] at hmem
    exact h.free_of_mem hstays (fun e found he => by rw [hstep]; exact he) hmem
  case ordered => exact hnext ▸ h.ordered.tail
  case doomed => exact fun s hs hrunning => (hnone s hs hrunning).elim

end Machine

end Parley
