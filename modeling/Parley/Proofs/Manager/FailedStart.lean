import Parley.Proofs.Display.Outlook
import Parley.Proofs.Manager.Ending
import Parley.Proofs.Session.Winding

/-!
# Conversations that fail to start

A manager that is asked to start a conversation looks first whether it has that conversation, and
a display of that title.  If not, it reports so, and nothing else happens (`AsksFor.of_unknown`).
That the start node has no lines comes out only when the session is there: the session before it
has been finished, the display is open again, and the new session is attached to it and on record.
All of this stays when the call fails (`LeftBehind`), and nothing else does as long as the host
does nothing in between (`failed_start_leaves`).

## Strategy

The call falls into three parts.  In the first the previous session is wound up, which is work on
this session and its display only (`Cleared`).  In the second the new session is made, and in the
third its start fails; these are two steps of the machine that are computed (`Strands`).
-/

namespace Parley

namespace World

variable {w w' w₁ w₂ : World} {id : ManagerId} {title : String} {d : DisplayId}

/-- A manager has made a session on a display, under a title, and the session has not entered any
node. -/
structure Strands (id : ManagerId) (title : String) (d : DisplayId) (w w' : World) : Prop where
  made : ∃ session, w'.session? ⟨w.sessions.length⟩ = some session ∧ session.display = d ∧
    session.phase = .idle ∧ session.finished = false
  others : ∀ t, t ≠ ⟨w.sessions.length⟩ → w'.session? t = w.session? t
  face : ∀ e, w'.face? e = if d = e then
      (w.face? e).map fun face =>
        { face with isOpen := true, attached := some ⟨w.sessions.length⟩ }
    else w.face? e
  record : ∀ other found, w'.record other found =
    if other = id ∧ title = found then some ⟨w.sessions.length⟩ else w.record other found

/-- The session that a manager had on record under a title has been finished, and the rest is as it
was, but for the face of the display of that session. -/
structure Cleared (id : ManagerId) (title : String) (w w' : World) : Prop where
  sessions : w'.sessions.length = w.sessions.length
  others : ∀ t session, w.session? t = some session → ∃ session', w'.session? t = some session' ∧
    session'.standing = { session.standing with
      finished := session.finished || w.record id title = some t }
  face : ∀ e face, w.face? e = some face → ∃ face', w'.face? e = some face' ∧
    ((∀ s, w.record id title = some s → w.running s = true → ¬ w.MadeOn e s) → face' = face)
  record : ∀ other found, ¬ (other = id ∧ title = found) →
    w'.record other found = w.record other found

/-- What is left behind by a call that fails after the session has been made.  The session that
was on record is finished, and the new one has taken its place: idle, on record, and attached to
the display, which is open.  Other sessions stand where they stood, and other displays are as they
were, unless the session that has been finished was on them. -/
structure LeftBehind (id : ManagerId) (title : String) (d : DisplayId) (w w' : World) : Prop where
  made : ∃ session, w'.session? ⟨w.sessions.length⟩ = some session ∧ session.display = d ∧
    session.phase = .idle ∧ session.finished = false
  others : ∀ t session, w.session? t = some session → ∃ session', w'.session? t = some session' ∧
    session'.standing = { session.standing with
      finished := session.finished || w.record id title = some t }
  face : ∀ face, w.face? d = some face → ∃ face', w'.face? d = some face' ∧
    face'.isOpen = true ∧ face'.attached = some ⟨w.sessions.length⟩
  faces : ∀ e face, e ≠ d → w.face? e = some face →
    (∀ s, w.record id title = some s → w.running s = true → ¬ w.MadeOn e s) →
    w'.face? e = some face
  record : ∀ other found, w'.record other found =
    if other = id ∧ title = found then some ⟨w.sessions.length⟩ else w.record other found

theorem Cleared.leftBehind (h : Cleared id title w w₁) (h' : Strands id title d w₁ w₂) :
    LeftBehind id title d w w₂ := by
  constructor
  case made =>
    rw [← h.sessions]
    exact h'.made
  case others =>
    intro t session hs
    obtain ⟨session', hs', hstanding⟩ := h.others t session hs
    refine ⟨session', ?_, hstanding⟩
    rw [h'.others, hs']
    rintro rfl
    exact absurd ((session?_length w₁).symm.trans hs') (by simp)
  case face =>
    intro face hface
    obtain ⟨face', hface', -⟩ := h.face d face hface
    rw [h'.face, if_pos rfl, hface', h.sessions]
    exact ⟨_, rfl, rfl, rfl⟩
  case faces =>
    intro e face hne hface hother
    obtain ⟨face', hface', hsame⟩ := h.face e face hface
    rw [h'.face, if_neg (Ne.symm hne), hface', hsame hother]
  case record =>
    intro other found
    rw [h'.record, h.sessions]
    split
    · rfl
    · rename_i hne
      exact h.record other found hne

/-- The world after a manager has forgotten the session on record under a title. -/
def unrecord (w : World) (id : ManagerId) (title : String) : World :=
  w.modifyManager id fun manager => { manager with sessions := manager.sessions.erase title }

@[simp] theorem sessions_unrecord (w : World) (id : ManagerId) (title : String) :
    (w.unrecord id title).sessions = w.sessions :=
  w.sessions_modifyManager id _

@[simp] theorem session?_unrecord (w : World) (id : ManagerId) (title : String) (s : SessionId) :
    (w.unrecord id title).session? s = w.session? s :=
  w.session?_modifyManager s id _

theorem record_modifyManager_of_ne {other : ManagerId} (h : other ≠ id) (w : World)
    (f : Manager → Manager) (found : String) :
    (w.modifyManager id f).record other found = w.record other found := by
  rw [record, manager?_modifyManager, if_neg (Ne.symm h), record]

theorem record_unrecord {manager : Manager} (hid : w.manager? id = some manager)
    {other : ManagerId} {found : String} (hne : ¬ (other = id ∧ title = found)) :
    (w.unrecord id title).record other found = w.record other found := by
  by_cases hother : other = id
  · subst hother
    rw [unrecord, record_modifyManager hid, record_of_manager? hid, Table.get?_erase, if_neg]
    exact fun heq => hne ⟨rfl, heq⟩
  · exact record_modifyManager_of_ne hother _ _ found

end World

namespace Machine

open World

variable {x : ℕ → Machine} {m : Machine} {id : ManagerId} {manager : Manager}
  {conversation title name : String} {node : Option String} {rest below : List Task}
  {g : Ref Graph} {d : DisplayId} {s : SessionId} {i n : ℕ}

/-! ## The call -/

/-- The next step asks a manager to start a conversation on a display. -/
structure AsksFor (id : ManagerId) (manager : Manager) (conversation title : String)
    (node : Option String) (name : String) (rest : List Task) (m : Machine) : Prop where
  current : m.world.manager = some id
  there : m.world.manager? id = some manager
  agenda : m.agenda = .perform (.manager (.start conversation title node name)) :: rest

/-- What is done about the session on record before a new one is made. -/
def clearing (w : World) (manager : Manager) (title : String) : List Task :=
  match manager.sessions.get? title with
  | none => []
  | some s => if w.running s then [.finish s none, .leave s] else []

/-- The session that was on record is held until the end of the call. -/
def holding (manager : Manager) (title : String) : List Task :=
  (manager.sessions.get? title).toList.map .hold

theorem AsksFor.step_eq_converse (h : AsksFor id manager conversation title node name rest m) :
    m.step = { m with agenda := rest }.converse id manager conversation title node name := by
  rw [step_eq h.agenda]
  simp only [exec, perform, h.current, Option.bind_some, h.there, Option.map_some, performManager]

/-- What the manager has cached, by what the references lead to. -/
theorem AsksFor.get?_conversations
    (h : AsksFor id manager conversation title node name rest m) (other : String) :
    manager.conversations.get? other = (m.world.cached? id other).map m.world.graph := by
  rw [World.map_cached?, h.there, Option.bind_some]

/-- A conversation or a display that the manager does not have is reported, and nothing else
happens. -/
theorem AsksFor.of_unknown (h : AsksFor id manager conversation title node name rest m)
    (hunknown : manager.conversations.get? conversation = none ∨
      manager.displays.get? title = none) :
    ∃ text, m.step = ({ m with agenda := rest }.report .error text).give .nothing := by
  rw [h.step_eq_converse, converse]
  split
  · exact ⟨_, rfl⟩
  · rename_i g hcached
    have hgraph := h.get?_conversations conversation
    rw [hcached] at hgraph
    have hd := hunknown.resolve_left (by simp [hgraph])
    rw [hd]
    exact ⟨_, rfl⟩

/-- Otherwise the session on record is forgotten, and what is to be done comes onto the agenda. -/
theorem AsksFor.of_known (h : AsksFor id manager conversation title node name rest m)
    (hcached : m.world.cached? id conversation = some g)
    (hd : manager.displays.get? title = some d) :
    m.step.world = m.world.unrecord id title ∧
      m.step.agenda = clearing m.world manager title ++
        .launch id g d title node name :: (holding manager title ++ rest) := by
  rw [h.step_eq_converse, converse, clearing, holding]
  simp only [hcached, hd]
  cases hsession : manager.sessions.get? title with
  | none => exact ⟨rfl, rfl⟩
  | some s =>
      dsimp only
      rw [World.running_eq]
      have hsame : (withWorld { m with agenda := rest } fun w => w.modifyManager id fun manager =>
          { manager with sessions := manager.sessions.erase title }).world.session? s =
          m.world.session? s := World.session?_modifyManager ..
      rw [hsame]
      cases (m.world.session? s).elim true (·.finished) <;> exact ⟨rfl, rfl⟩

/-! ## Clearing the display -/

/-- A session that does not run is only taken off the record. -/
theorem cleared_of_not_running (hid : m.world.manager? id = some manager)
    (hnone : ∀ s, m.world.record id title = some s → m.world.running s = false) :
    m.world.Cleared id title (m.world.unrecord id title) := by
  constructor
  case sessions => rw [sessions_unrecord]
  case others =>
    intro t session hs
    refine ⟨session, by rw [session?_unrecord, hs], ?_⟩
    by_cases hrecord : m.world.record id title = some t
    · have hfinished : session.finished = true := by
        simpa [World.running, hs] using hnone t hrecord
      simp [Session.standing, hfinished]
    · simp [Session.standing, hrecord]
  case face => exact fun e face hface => ⟨face, hface, fun _ => rfl⟩
  case record => exact fun other found hne => record_unrecord hid hne

/-- A session that runs is wound up on its display. -/
theorem cleared_of_woundUp {w w' : World} {session : Session} (hid : w.manager? id = some manager)
    (hrecord : w.record id title = some s) (hs : w.session? s = some session)
    (hrunning : w.running s = true)
    (hwound : (w.unrecord id title).WoundUp s session.display w')
    (hfinished : w'.running s = false) : w.Cleared id title w' := by
  constructor
  case sessions => rw [hwound.sessions, sessions_unrecord]
  case others =>
    intro t found ht
    by_cases hst : t = s
    · subst hst
      obtain ⟨session', finished, hs', hstanding⟩ :=
        hwound.self found (by rw [session?_unrecord, ht])
      refine ⟨session', hs', ?_⟩
      have hdone : session'.finished = true := by simpa [World.running, hs'] using hfinished
      have hsame : finished = true := (congrArg Standing.finished hstanding).symm.trans hdone
      rw [hstanding, hsame, hrecord]
      simp
    · have hother := hwound.others t hst
      rw [session?_unrecord, ht] at hother
      obtain ⟨session', hs', hstanding⟩ := Option.map_eq_some_iff.mp hother
      refine ⟨session', hs', ?_⟩
      have hne : w.record id title ≠ some t := by
        rw [hrecord]
        exact fun heq => hst (Option.some.inj heq).symm
      rw [hstanding]
      simp [Session.standing, hne]
  case face =>
    intro e face hface
    obtain ⟨face', hface', hsame⟩ := hwound.face e face hface
    refine ⟨face', hface', fun hother => hsame ?_⟩
    rintro rfl
    exact hother s hrecord hrunning ⟨session, hs, rfl⟩
  case record =>
    intro other found hne
    rw [World.record, World.manager?, hwound.managers]
    exact record_unrecord hid hne

/-! ## Making the session -/

/-- The world after a session has been made. -/
def launched (w : World) (id : ManagerId) (title : String) (d : DisplayId) (session : Session) :
    World :=
  ((w.modifyDisplay d fun display => { display with isOpen := true }).addSession
    session).1.modifyManager id fun manager =>
      { manager with sessions := manager.sessions.insert title ⟨w.sessions.length⟩ }

theorem session?_launched {w : World} {session : Session} (t : SessionId) :
    (launched w id title d session).session? t =
      if t.index = w.sessions.length then some session else w.session? t := by
  rw [launched, session?_modifyManager]
  exact session?_addSession _ session t

/-- However the new session is changed, as long as it is idle and unfinished. -/
theorem strands_launched {w : World} {session changed : Session}
    (hid : w.manager? id = some manager) (hd : session.display = d) (hdisplay : changed.display = d)
    (hphase : changed.phase = .idle) (hunfinished : changed.finished = false) :
    w.Strands id title d ((launched w id title d session).modifySession ⟨w.sessions.length⟩
      fun _ => changed) := by
  constructor
  case made =>
    refine ⟨changed, ?_, hdisplay, hphase, hunfinished⟩
    rw [session?_modifySession, if_pos rfl, session?_launched, if_pos rfl, Option.map_some]
  case others =>
    intro t ht
    rw [session?_modifySession, if_neg (Ne.symm ht), session?_launched, if_neg]
    exact fun heq => ht (congrArg SessionId.mk heq)
  case face =>
    intro e
    refine (face?_addSession _ session e).trans ?_
    rw [hd, face?_modifyDisplay]
    split
    · rw [Option.map_map, face?, Option.map_map]
      rfl
    · rfl
  case record =>
    intro other found
    rw [record, manager?_modifySession, ← record, launched]
    by_cases hother : other = id
    · subst hother
      have hkept := (manager?_addSession (w.modifyDisplay d fun display =>
        { display with isOpen := true }) other session).trans hid
      have hrecord := record_modifyManager hkept (fun manager =>
        { manager with sessions := manager.sessions.insert title ⟨w.sessions.length⟩ }) found
      rw [Table.get?_insert] at hrecord
      simp only [true_and, record_of_manager? hid]
      exact hrecord
    · rw [if_neg fun h => hother h.1, record_modifyManager_of_ne hother, record,
        manager?_addSession]
      rfl

theorem launch_eq_launched (hid : m.world.manager? id = some manager) :
    m.launch id g d title node name =
      { m with
        world := launched m.world id title d
          { display := d, config := manager.config, graph := some (m.world.graph g).clone } }.push
        (node.toList.map (Task.start ⟨m.world.sessions.length⟩) ++
          [Task.adopt ⟨m.world.sessions.length⟩ name (.text name)]) := by
  rw [launch_eq, hid]
  rfl

/-- The session is made, and fails to start at a node without lines. -/
theorem strands_of_launch {start : String} {empty : Node}
    (hagenda : m.agenda = .launch id g d title (some start) name :: below)
    (hid : m.world.manager? id = some manager)
    (hnode : (m.world.graph g).get? start = some empty)
    (hempty : empty.lines = []) :
    (∃ m', m.step.step = fail m' (.emptyNode empty.title)) ∧
      m.world.Strands id title d m.step.step.world := by
  let graph := m.world.graph g
  let session : Session :=
    { display := d, config := manager.config, graph := some graph.clone }
  have hmade : m.step =
      { m with agenda := below, world := launched m.world id title d session }.push
        [.start ⟨m.world.sessions.length⟩ start,
          .adopt ⟨m.world.sessions.length⟩ name (.text name)] := by
    rw [step_eq hagenda]
    exact launch_eq_launched hid
  have hworld : m.step.world = launched m.world id title d session := congrArg Machine.world hmade
  have hnext : m.step.agenda = .start ⟨m.world.sessions.length⟩ start ::
      .adopt ⟨m.world.sessions.length⟩ name (.text name) :: below := congrArg Machine.agenda hmade
  have hsession : m.step.world.session? ⟨m.world.sessions.length⟩ = some session := by
    rw [hworld, session?_launched, if_pos rfl]
  have hclone : graph.clone.get? start = some empty.clone := by
    show (graph.nodes.map Node.clone).get? (graph.key start) = _
    rw [Table.get?_map]
    exact congrArg (Option.map Node.clone) hnode
  have hstart : session.start start = .fail
      (session.setNode (graph.clone.key start) empty.clone.reset) (.emptyNode empty.title) :=
    Session.start_of_empty rfl rfl hclone hempty
  have hfails : m.step.step = ({ m.step with
      agenda := .adopt ⟨m.world.sessions.length⟩ name (.text name) :: below }.setSession
        ⟨m.world.sessions.length⟩ (session.setNode (graph.clone.key start) empty.clone.reset)).fail
        (.emptyNode empty.title) := by
    rw [step_eq hnext]
    simp only [exec, Machine.start, hsession, hstart, carryOut]
  refine ⟨⟨_, hfails⟩, ?_⟩
  rw [hfails, world_fail]
  show m.world.Strands id title d (m.step.world.modifySession _ _)
  rw [hworld]
  exact strands_launched hid rfl rfl rfl rfl

/-! ## From the call to its failure -/

theorem clearing_of_running {w : World} (hid : w.manager? id = some manager)
    (hrecord : w.record id title = some s) (hrunning : w.running s = true) :
    clearing w manager title = [.finish s none, .leave s] := by
  rw [record_of_manager? hid] at hrecord
  rw [clearing, hrecord]
  exact if_pos hrunning

theorem clearing_of_not_running {w : World} (hid : w.manager? id = some manager)
    (hnone : ∀ s, w.record id title = some s → w.running s = false) :
    clearing w manager title = [] := by
  rw [record_of_manager? hid] at hnone
  rw [clearing]
  cases hsession : manager.sessions.get? title with
  | none => rfl
  | some s => exact if_neg (by simp [hnone s hsession])

theorem WorksOff.eq_of_nil (h : WorksOff [] below x i n) : n = i := by
  by_contra hne
  have hbusy := h.busy i le_rfl (lt_of_le_of_ne h.later (Ne.symm hne))
  rw [h.pushed] at hbusy
  exact absurd hbusy (lt_irrefl _)

theorem AsksFor.eq_step (hasks : AsksFor id manager conversation title node name rest (x i))
    (h : Execution x) : x (i + 1) = (x i).step :=
  h.eq_step (by rw [hasks.agenda]; simp)

/-- When the new session comes to be made, the one on record has been finished, whatever the host
has done. -/
theorem AsksFor.not_running (hasks : AsksFor id manager conversation title node name rest (x i))
    (h : Execution x) (hworks : WorksOff (clearing (x i).world manager title) below x (i + 1) n)
    (hrecord : (x i).world.record id title = some s) (hrunning : (x i).world.running s = true) :
    (x n).world.running s = false := by
  rw [clearing_of_running hasks.there hrecord hrunning] at hworks
  obtain ⟨hreached, -⟩ := h.reached_of_worksOff hworks (by simp)
  obtain ⟨session, hs⟩ := exists_of_running hrunning
  exact h.not_running_of_reached hs (hreached _ List.mem_cons_self)

/-- When the new session comes to be made and the host has done nothing, no more has happened than
that. -/
theorem AsksFor.cleared (hasks : AsksFor id manager conversation title node name rest (x i))
    (h : Execution x) (hcached : (x i).world.cached? id conversation = some g)
    (hd : manager.displays.get? title = some d)
    (hworks : WorksOff (clearing (x i).world manager title) below x (i + 1) n)
    (hquiet : HostIdle x (i + 1) n) :
    (x n).agenda = below ∧ (x i).world.Cleared id title (x n).world ∧
      ∃ settings, (x n).world.manager? id = some settings := by
  have hworld : (x (i + 1)).world = (x i).world.unrecord id title := by
    rw [hasks.eq_step h]
    exact (hasks.of_known hcached hd).1
  have hsettings : ((x i).world.unrecord id title).manager? id =
      some { manager with sessions := manager.sessions.erase title } := by
    rw [unrecord, manager?_modifyManager, if_pos rfl, hasks.there]
    rfl
  by_cases hrunning : ∃ s, (x i).world.record id title = some s ∧ (x i).world.running s = true
  · obtain ⟨s, hrecord, hrunning⟩ := hrunning
    have hfinished := hasks.not_running h hworks hrecord hrunning
    obtain ⟨session, hs⟩ := exists_of_running hrunning
    rw [clearing_of_running hasks.there hrecord hrunning] at hworks
    have hs' : (x (i + 1)).world.session? s = some session := by
      rw [hworld, session?_unrecord, hs]
    have hwinds : ∀ t ∈ [Task.finish s none, Task.leave s], t.WindsUp s session.display := by
      intro t ht
      rcases List.mem_pair.mp ht with rfl | rfl <;> exact rfl
    obtain ⟨hagenda, hwound⟩ := h.windsUp_of_worksOff hworks hwinds hquiet hs' rfl
    rw [hworld] at hwound
    have hmanager : (x n).world.manager? id = ((x i).world.unrecord id title).manager? id := by
      rw [World.manager?, hwound.managers, World.manager?]
    exact ⟨hagenda, cleared_of_woundUp hasks.there hrecord hs hrunning hwound hfinished, _,
      hmanager.trans hsettings⟩
  · have hnone : ∀ s, (x i).world.record id title = some s → (x i).world.running s = false :=
      fun s hrecord => Bool.eq_false_iff.mpr fun hruns => hrunning ⟨s, hrecord, hruns⟩
    rw [clearing_of_not_running hasks.there hnone] at hworks
    obtain rfl := hworks.eq_of_nil
    rw [hworld]
    exact ⟨hworks.pushed, cleared_of_not_running hasks.there hnone, _, hsettings⟩

/-- A manager that does not have the conversation, or no display of that title, reports so and does
nothing else.  Otherwise it makes the session before it looks at the start node.  When that node
has no lines, the call fails, and leaves the new session behind in place of the one that was on
record, which has been finished by then whatever the host has done.  As long as the host has done
nothing, this is all that has changed. -/
theorem failed_start_leaves (h : Execution x)
    (hasks : AsksFor id manager conversation title node name rest (x i)) :
    ((manager.conversations.get? conversation = none ∨ manager.displays.get? title = none) →
        ∃ text, x (i + 1) =
          ({ x i with agenda := rest }.report .error text).give .nothing) ∧
      ∀ graph d, manager.conversations.get? conversation = some graph →
        manager.displays.get? title = some d → ∃ g, (x i).world.graph g = graph ∧
        (x (i + 1)).agenda = clearing (x i).world manager title ++
          .launch id g d title node name :: (holding manager title ++ rest) ∧
        ∀ n, WorksOff (clearing (x i).world manager title)
            (.launch id g d title node name :: (holding manager title ++ rest)) x (i + 1) n →
          (∀ s, (x i).world.record id title = some s → (x i).world.running s = true →
            (x n).world.running s = false) ∧
          ∀ start empty, node = some start → graph.get? start = some empty → empty.lines = [] →
            HostIdle x (i + 1) n →
            (∃ m, x (n + 2) = fail m (.emptyNode empty.title)) ∧
              LeftBehind id title d (x i).world (x (n + 2)).world := by
  refine ⟨fun hunknown => ?_, fun graph d hgraph hd => ?_⟩
  · rw [hasks.eq_step h]
    exact hasks.of_unknown hunknown
  rw [hasks.get?_conversations] at hgraph
  obtain ⟨g, hcached, rfl⟩ := Option.map_eq_some_iff.mp hgraph
  refine ⟨g, rfl, ?_, fun n hworks => ⟨?_, ?_⟩⟩
  · rw [hasks.eq_step h]
    exact (hasks.of_known hcached hd).2
  · exact fun s => hasks.not_running h hworks
  · rintro start empty rfl hnode hempty hquiet
    obtain ⟨hagenda, hcleared, settings, hsettings⟩ :=
      hasks.cleared h hcached hd hworks hquiet
    -- Whatever has happened since the call, the conversation is still the same.
    rw [← h.graph_of_cached (Nat.le_of_succ_le hworks.later) hcached] at hnode
    obtain ⟨⟨m, hfails⟩, hstrands⟩ := strands_of_launch hagenda hsettings hnode hempty
    have hfirst : x (n + 1) = (x n).step := h.eq_step (by rw [hagenda]; simp)
    have hsecond : x (n + 2) = (x n).step.step := by
      rw [← hfirst]
      refine h.eq_step ?_
      rw [hfirst, step_eq hagenda]
      simp [exec, launch, hsettings, push]
    rw [hsecond]
    exact ⟨⟨m, hfails⟩, hcleared.leftBehind hstrands⟩

/-- A conversation with a node that has no lines. -/
def brittle : Json.Value :=
  .array [.object [("title", .string "A"), ("body", .string "one\ntwo")],
    .object [("title", .string "E")]]

/-- A host that has a conversation going on a display, and then starts the node without lines
there. -/
def upset : ℕ → Machine :=
  course { world := World.ofHandlers [] }
    [.newDisplay "c" "c" (.recording {} false),
      .newManager none,
      .manager (.register "c"),
      .manager (.add "k" brittle),
      .manager (.start "k" "c" (some "A") "s1"),
      .manager (.start "k" "c" (some "E") "s2")]

theorem failed_start_leaves_upset :
    Execution upset ∧ (upset 28).world.running ⟨0⟩ = true ∧ (upset 41).world.running ⟨0⟩ = false ∧
      (∃ m, upset 43 = fail m (.emptyNode "E")) ∧
      LeftBehind ⟨0⟩ "c" ⟨0⟩ (upset 28).world (upset 43).world := by
  have h : Execution upset := execution_course (initial_ofHandlers _) _
  obtain ⟨manager, hid⟩ := Option.isSome_iff_exists.mp
    (show ((upset 28).world.manager? ⟨0⟩).isSome = true by decide +kernel)
  have hasks : AsksFor ⟨0⟩ manager "k" "c" (some "E") "s2" [] (upset 28) :=
    ⟨by decide +kernel, hid, rfl⟩
  obtain ⟨-, hknown⟩ := failed_start_leaves h hasks
  -- What the manager has, read off the world in which it is.
  have hd : manager.displays.get? "c" = some ⟨0⟩ := by
    have hfound : ((upset 28).world.manager? ⟨0⟩).bind (fun manager =>
        manager.displays.get? "c") = some ⟨0⟩ := by decide +kernel
    rwa [hid] at hfound
  have hnode : ((manager.conversations.get? "k").bind fun graph => graph.get? "E") =
      some { title := "E" } := by
    have hfound : (((upset 28).world.manager? ⟨0⟩).bind fun manager =>
        (manager.conversations.get? "k").bind fun graph => graph.get? "E") =
          some { title := "E" } := by decide +kernel
    rwa [hid] at hfound
  obtain ⟨graph, hgraph, hempty⟩ := Option.bind_eq_some_iff.mp hnode
  obtain ⟨g, -, hagenda, hlate⟩ := hknown graph ⟨0⟩ hgraph hd
  have hbusy : ∀ j < 41, 29 ≤ j → 2 < (upset j).agenda.length := by decide +kernel
  have hholding : (holding manager "c").length = 1 := by
    have hfound : ((upset 28).world.manager? ⟨0⟩).map (fun manager =>
        (holding manager "c").length) = some 1 := by decide +kernel
    rw [hid] at hfound
    exact Option.some.inj hfound
  have hworks : WorksOff (clearing (upset 28).world manager "c")
      (.launch ⟨0⟩ g ⟨0⟩ "c" (some "E") "s2" :: (holding manager "c" ++ [])) upset 29 41 := by
    refine ⟨hagenda, by omega, fun j hi hj => ?_, ?_, by simp⟩
    · rw [List.length_cons, List.length_append, hholding]
      exact hbusy j hj hi
    · rw [List.length_cons, List.length_append, hholding]
      decide +kernel
  have hrunning : (upset 28).world.running ⟨0⟩ = true := by decide +kernel
  have hquiet : ∀ j < 41, 29 ≤ j → (upset j).agenda.head?.any Task.intervenes = false := by
    decide +kernel
  obtain ⟨hfinished, hleaves⟩ := hlate 41 hworks
  obtain ⟨hfails, hleft⟩ := hleaves "E" { title := "E" } rfl hempty rfl
    fun j hi hj => hquiet j hj hi
  exact ⟨h, hrunning, hfinished ⟨0⟩ (by decide +kernel) hrunning, hfails, hleft⟩

/-- The conversation that was going on is over, and another session is active in its place. -/
theorem replaced_by_failed_start :
    Execution upset ∧
      (upset 28).agenda.head? =
        some (.perform (.manager (.start "k" "c" (some "E") "s2"))) ∧
      (upset 43).agenda.isEmpty = true ∧ (upset 43).result = .error (.emptyNode "E") ∧
      (upset 28).world.overview =
        ⟨[("s1", "IN_NODE", false, some ("A", 0))], [("c", true, some "s1")]⟩ ∧
      (upset 43).world.overview =
        ⟨[("s1", "IN_NODE", true, some ("A", 0))], [("c", true, some "?")]⟩ ∧
      ((upset 28).world.manager? ⟨0⟩).map (fun manager =>
        (activeSessions (upset 28).world manager).values) = some [⟨0⟩] ∧
      ((upset 43).world.manager? ⟨0⟩).map (fun manager =>
        (activeSessions (upset 43).world manager).values) = some [⟨1⟩] :=
  ⟨execution_course (initial_ofHandlers _) _, rfl, by decide +kernel, rfl, by decide +kernel,
    by decide +kernel, by decide +kernel, by decide +kernel⟩

end Machine

end Parley
