import Parley.Proofs.Machine.Execution
import Parley.Proofs.Machine.Move
import Parley.Proofs.Session.Moves

/-!
# What a step does to a session

Most steps leave a session where it stands.  The others carry out one of its moves, load a
graph, finish it, or change a node of it at the host's request.  `passage_step` says so once,
with the task that does it and the session that comes of it, so that what follows need not look
at tasks again.  A session that is new is idle over a graph just loaded (`fresh_step`).
-/

namespace Parley

namespace Machine

variable {m : Machine} {s t : SessionId} {session session' : Session} {task : Task}
  {rest : List Task}

/-! ## Moves -/

/-- The next step carries out a move of a session. -/
inductive Moves (s : SessionId) (m : Machine) (session : Session) : Session.Move → Prop
  | start {title : String} (hhead : m.agenda.head? = some (.start s title)) :
      Moves s m session (session.start title)
  | proceed (hhead : m.agenda.head? = some (.proceed s)) : Moves s m session session.proceed
  | follow {key destination : String}
      (hhead : m.agenda.head? = some (.follow s key destination)) :
      Moves s m session (session.follow (m.world.configOf session) key destination)

theorem Moves.of {move : Session.Move} (h : Moves s m session move) :
    Session.Move.Of session move := by
  cases h with
  | start hhead => exact .start _
  | proceed hhead => exact .proceed
  | follow hhead => exact .follow _ _ _

/-- All operations carry out their moves in one way, up to what a refusal answers and what is
done about a line. -/
theorem Moves.exists_step_eq {move : Session.Move} (h : Moves s m session move)
    (hs : m.world.session? s = some session) :
    ∃ (refused : Option Answer) (shown : Session → LineRef → Machine → Machine),
      (∀ moved line m', (shown moved line m').world = m'.world) ∧
        m.step = { m with agenda := m.agenda.tail }.carryOut s refused move shown := by
  cases h with
  | start hhead =>
      obtain ⟨rest, hagenda⟩ := List.head?_eq_some_iff.mp hhead
      rw [step_eq hagenda, hagenda]
      simp only [exec, Machine.start, hs, List.tail_cons]
      refine ⟨_, _, ?_, rfl⟩
      exact fun _ _ _ => rfl
  | proceed hhead =>
      obtain ⟨rest, hagenda⟩ := List.head?_eq_some_iff.mp hhead
      rw [step_eq hagenda, hagenda]
      simp only [exec, Machine.proceed, hs, List.tail_cons]
      refine ⟨_, _, ?_, rfl⟩
      exact fun _ _ _ => rfl
  | follow hhead =>
      obtain ⟨rest, hagenda⟩ := List.head?_eq_some_iff.mp hhead
      rw [step_eq hagenda, hagenda]
      simp only [exec, Machine.follow, hs, List.tail_cons]
      refine ⟨_, _, ?_, rfl⟩
      exact fun _ _ _ => rfl

theorem exists_moves (hagenda : m.agenda = task :: rest) (htask : task.Moves s)
    (session : Session) : ∃ move, Moves s m session move := by
  have hhead : m.agenda.head? = some task := by rw [hagenda]; rfl
  cases htask with
  | start title => exact ⟨_, .start hhead⟩
  | proceed => exact ⟨_, .proceed hhead⟩
  | follow key destination => exact ⟨_, .follow hhead⟩

/-- A session that is not there has no moves. -/
theorem step_of_missing (hagenda : m.agenda = task :: rest) (htask : task.Moves s)
    (hs : m.world.session? s = none) :
    m.step = ({ m with agenda := rest } : Machine).fail .unknownName := by
  rw [step_eq hagenda]
  cases htask with
  | start title => simp only [exec, start, hs]
  | proceed => simp only [exec, proceed, hs]
  | follow key destination => simp only [exec, follow, hs]

/-! ## Passages -/

/-- What the next step does to a session. -/
inductive Passage (s : SessionId) (m : Machine) (session session' : Session) : Prop
  | aside (h : session'.standing = session.standing)
  | moved {move : Session.Move} (hmove : Moves s m session move)
      (h : session' = move.outcome session)
  | loaded {data : Json.Value} {start : Option String} {graph : Graph}
      (hhead : m.agenda.head? = some (.load s data start)) (hgraph : graph.Unread)
      (h : session' = session.replaceGraph graph)
  | finished {onComplete : Option HandlerId}
      (hhead : m.agenda.head? = some (.finish s onComplete))
      (h : session'.standing = { session.standing with finished := true })
  | edited {name : String} {title : Option String} {step : NodeStep} {key : String}
      {node changed : Node} {answer : Answer}
      (hhead : m.agenda.head? = some (.perform (.session name (.node title step))))
      (hname : m.world.sessionNames.get? name = some s)
      (hstored : session.graph.bind (·.nodes.get? key) = some node)
      (hrun : (step.run node).value = .ok (changed, answer))
      (h : session' = session.setNode key changed)

/-- A session stays on its display. -/
theorem Passage.display_eq (h : Passage s m session session') :
    session'.display = session.display := by
  cases h with
  | aside h => exact congrArg Standing.display h
  | moved hmove h => rw [h, hmove.of.frame.display_eq]
  | loaded hhead hgraph h => rw [h]; rfl
  | finished hhead h => exact congrArg Standing.display h
  | edited hhead hname hstored hrun h => rw [h]; rfl

theorem Passage.finished_of_finished (h : Passage s m session session')
    (hfinished : session.finished = true) : session'.finished = true := by
  cases h with
  | aside h => exact (congrArg Standing.finished h).trans hfinished
  | moved hmove h => rw [h, hmove.of.frame.finished_eq, hfinished]
  | loaded hhead hgraph h => rw [h]; exact hfinished
  | finished hhead h => exact congrArg Standing.finished h
  | edited hhead hname hstored hrun h => rw [h]; exact hfinished

/-- Only a finish finishes a session. -/
theorem Passage.exists_finish (h : Passage s m session session')
    (hopen : session.finished = false) (hfinished : session'.finished = true) :
    ∃ onComplete, m.agenda.head? = some (.finish s onComplete) := by
  have hchanged : session'.finished ≠ session.finished := by simp [hopen, hfinished]
  cases h with
  | finished hhead h => exact ⟨_, hhead⟩
  | aside h => exact absurd (congrArg Standing.finished h) hchanged
  | moved hmove h => exact absurd (h ▸ hmove.of.frame.finished_eq) hchanged
  | loaded hhead hgraph h => exact absurd (h ▸ rfl) hchanged
  | edited hhead hname hstored hrun h => exact absurd (h ▸ rfl) hchanged

/-- What a step that ends in a machine does to a session, or to one that was not there. -/
structure Passes (s : SessionId) (m m' : Machine) : Prop where
  passage : ∀ session, m.world.session? s = some session →
    ∃ session', m'.world.session? s = some session' ∧ Passage s m session session'
  fresh : ∀ session', m.world.session? s = none → m'.world.session? s = some session' →
    session'.Fresh

theorem Passes.of_standing {m' : Machine}
    (h : (m'.world.session? s).map Session.standing =
      (m.world.session? s).map Session.standing) : Passes s m m' := by
  constructor
  · intro session hs
    rw [hs] at h
    obtain ⟨session', hs', hstanding⟩ := Option.map_eq_some_iff.mp h
    exact ⟨session', hs', .aside hstanding⟩
  · intro session' hs hs'
    rw [hs, hs'] at h
    exact absurd h (by simp)

theorem Passes.of_sessions {m' : Machine} (h : m'.world.sessions = m.world.sessions) :
    Passes s m m' :=
  .of_standing (by rw [World.session?, World.session?, h])

/-- One session is put back, changed. -/
theorem Passes.of_set {m' : Machine} (hs : m.world.session? t = some session)
    (hset : m'.world.session? s = if t = s then some session' else m.world.session? s)
    (h : t = s → Passage s m session session') : Passes s m m' := by
  by_cases ht : t = s
  · rw [if_pos ht] at hset
    rw [ht] at hs
    constructor
    · intro found hfound
      obtain rfl : session = found := Option.some.inj (hs.symm.trans hfound)
      exact ⟨session', hset, h ht⟩
    · exact fun _ hnone => absurd (hs.symm.trans hnone) (by simp)
  · rw [if_neg ht] at hset
    exact .of_standing (by rw [hset])

/-- A session is added over a graph just loaded. -/
theorem Passes.of_addSession {m' : Machine} {w : World} (hw : w.sessions = m.world.sessions)
    (hfresh : session.Fresh) (h : m'.world.sessions = (w.addSession session).1.sessions) :
    Passes s m m' := by
  have hlook : m'.world.session? s =
      if s.index = w.sessions.length then some session else w.session? s := by
    rw [← World.session?_addSession, World.session?, h, World.session?]
  have hold : w.session? s = m.world.session? s := by rw [World.session?, hw, World.session?]
  constructor
  · intro found hfound
    have hlt : s.index < w.sessions.length := by
      rw [hw]
      exact (List.getElem?_eq_some_iff.mp hfound).1
    rw [if_neg (by omega), hold, hfound] at hlook
    exact ⟨found, hlook, .aside rfl⟩
  · intro found hnone hfound
    rw [hfound, hold, hnone] at hlook
    split at hlook
    · rw [Option.some.inj hlook]
      exact hfresh
    · exact absurd hlook (by simp)

/-! ## The tasks that move sessions -/

theorem session?_setSession (hs : m.world.session? t = some session) (changed : Session)
    (s : SessionId) : (m.setSession t changed).world.session? s =
      if t = s then some changed else m.world.session? s := by
  rw [setSession, withWorld, World.session?_modifySession]
  split
  · rename_i heq
    rw [← heq, hs]
    rfl
  · rfl

/-- A move puts its session back as it comes out of the move. -/
theorem session?_carryOut (hs : m.world.session? t = some session) (refused : Option Answer)
    (move : Session.Move) {shown : Session → LineRef → Machine → Machine}
    (hshown : ∀ moved line m', (shown moved line m').world = m'.world) (s : SessionId) :
    (m.carryOut t refused move shown).world.session? s =
      if t = s then some (move.outcome session) else m.world.session? s := by
  cases move with
  | refuse entry =>
      have hsame : m.world.session? s = if t = s then some session else m.world.session? s := by
        split
        · rename_i heq
          rw [← heq, hs]
        · rfl
      cases refused <;> exact hsame
  | fail moved failure =>
      rw [carryOut, world_fail]
      exact session?_setSession hs moved s
  | display moved key index =>
      rw [carryOut, hshown]
      exact session?_setSession hs moved s
  | ended moved => exact session?_setSession hs moved s

theorem passes_of_moves (hagenda : m.agenda = task :: rest) (htask : task.Moves t) :
    Passes s m m.step := by
  cases ht : m.world.session? t with
  | none => exact .of_sessions (by rw [step_of_missing hagenda htask ht, world_fail])
  | some session =>
      obtain ⟨move, hmove⟩ := exists_moves hagenda htask session
      obtain ⟨refused, shown, hshown, heq⟩ := hmove.exists_step_eq ht
      have hset := session?_carryOut (m := { m with agenda := m.agenda.tail }) ht refused move
        hshown s
      rw [← heq] at hset
      refine .of_set ht hset ?_
      rintro rfl
      exact .moved hmove rfl

theorem passes_load {data : Json.Value} {start : Option String}
    (hagenda : m.agenda = .load t data start :: rest) : Passes s m m.step := by
  rw [step_eq hagenda]
  dsimp only [exec, load]
  split
  · exact .of_sessions (by rw [world_fail])
  · rename_i session hs
    split
    · exact .of_sessions (by rw [world_fail])
    · rename_i loaded hloaded
      exact .of_set hs (session?_setSession hs _ s) fun ht =>
        .loaded (by rw [hagenda, ht]; rfl) (Graph.unread_load hloaded) rfl

theorem passes_finish {onComplete : Option HandlerId}
    (hagenda : m.agenda = .finish t onComplete :: rest) : Passes s m m.step := by
  rw [step_eq hagenda]
  dsimp only [exec, finish]
  split
  · exact .of_sessions (by rw [world_fail])
  · rename_i session hs
    split
    · exact .of_sessions rfl
    · have hset : ((m.world.modifyDisplay session.display fun display =>
          { display with bus := World.unlisten t display.bus }).modifySession t fun session =>
            { session with finished := true, actions := Table.empty }).session? s =
          if t = s then some { session with finished := true, actions := Table.empty }
          else m.world.session? s := by
        rw [World.session?_modifySession, World.session?_modifyDisplay]
        split
        · rename_i heq
          rw [← heq, hs]
          rfl
        · rfl
      exact .of_set hs hset fun ht => .finished (by rw [hagenda, ht]; rfl) rfl

/-! ## The tasks of managers -/

theorem passes_launch {id : ManagerId} {graph : Ref Graph} {d : DisplayId} {title : String}
    {node : Option String} {name : String}
    (hagenda : m.agenda = .launch id graph d title node name :: rest) : Passes s m m.step := by
  rw [step_eq hagenda]
  dsimp only [exec]
  rw [launch_eq]
  split
  · exact .of_sessions (by rw [world_fail])
  · rename_i settings hsettings
    have hfresh : Session.Fresh
        { display := d, config := settings.config,
          graph := some (m.world.graph graph).clone } := by
      refine ⟨rfl, fun found hfound => ?_⟩
      obtain rfl : (m.world.graph graph).clone = found := Option.some.inj hfound
      exact Graph.unread_clone _
    exact .of_addSession (w := m.world.modifyDisplay d fun display =>
      { display with isOpen := true }) rfl hfresh (World.sessions_modifyManager ..)

/-- A manager does its work on sessions by tasks of their own. -/
theorem sessions_performManager (m : Machine) (id : ManagerId) (manager : Manager)
    (step : ManagerStep) :
    (m.performManager id manager step).world.sessions = m.world.sessions := by
  rcases world_performManager m id manager step with heq | ⟨f, heq⟩ <;> rw [heq]
  exact World.sessions_modifyManager ..

/-! ## Steps of the host -/

theorem passes_performNodeStep {m m' : Machine} {key : String} {node : Node} {step : NodeStep}
    (hworld : m'.world = m.world) (hs : m.world.session? t = some session)
    (h : ∀ changed answer, (step.run node).value = .ok (changed, answer) → t = s →
      Passage s m session (session.setNode key changed)) :
    Passes s m (m'.performNodeStep t session key node step) := by
  unfold performNodeStep
  dsimp only
  split
  · exact .of_sessions (by rw [world_fail, world_logAll, hworld])
  · rename_i changed answer hrun
    rw [← hworld] at hs
    split
    · exact .of_set (hworld ▸ hs) (hworld ▸ session?_setSession hs _ s) (h changed answer hrun)
    · exact .of_set (hworld ▸ hs) (hworld ▸ session?_setSession hs _ s) (h changed answer hrun)

theorem passes_newSession {m m' : Machine} (hworld : m'.world = m.world) (name : String)
    (d : DisplayId) (config : Config) (source : SessionSource) :
    Passes s m (m'.newSession name d config source) := by
  have hmake : ∀ (m'' : Machine) (graph : Option Graph)
      (data : List (Json.Value × Option String)), m''.world = m.world →
      (∀ found, graph = some found → found.Unread) →
      Passes s m (newSession.make name d config m'' graph data) := fun m'' graph data hw hgraph =>
    .of_addSession (w := (m''.world.addConfig config).1) (by rw [hw]; rfl) ⟨rfl, hgraph⟩ rfl
  unfold newSession
  split
  · exact hmake m' none [] hworld (by simp)
  · split
    · exact .of_sessions (by rw [world_fail, hworld])
    · rename_i loaded hloaded
      refine hmake _ _ [] hworld fun found hfound => ?_
      obtain rfl := Option.some.inj hfound
      exact Graph.unread_load hloaded
  · exact hmake m' none _ hworld (by simp)

theorem passes_perform {step : Step} (hagenda : m.agenda = .perform step :: rest)
    (hstep : step.isPlain = false) : Passes s m m.step := by
  rw [step_eq hagenda]
  generalize hbelow : { m with agenda := rest } = m'
  have hworld : m'.world = m.world := by rw [← hbelow]
  dsimp only [exec]
  cases step with
  | newSession name display settings source =>
      dsimp only [perform]
      rcases m'.withDisplay_cases display _ with ⟨d, found, -, -, heq⟩ | heq <;> rw [heq]
      · rcases m'.withSettings_cases settings _ with ⟨config, heq⟩ | ⟨failure, heq⟩ <;> rw [heq]
        · exact passes_newSession hworld name d config source
        · exact .of_sessions (by rw [world_fail, hworld])
      · exact .of_sessions (by rw [world_fail, hworld])
  | newManager settings =>
      dsimp only [perform]
      rcases m'.withSettings_cases settings _ with ⟨config, heq⟩ | ⟨failure, heq⟩ <;> rw [heq]
      · exact .of_sessions (by rw [← hworld]; rfl)
      · exact .of_sessions (by rw [world_fail, hworld])
  | manager step =>
      dsimp only [perform]
      split
      · exact .of_sessions (by rw [world_fail, hworld])
      · exact .of_sessions (by rw [sessions_performManager, hworld])
  | session name step =>
      cases step with
      | node title step =>
          dsimp only [perform]
          rcases m'.withSession_cases name _ with ⟨t, session, hname, hs, heq⟩ | heq <;> rw [heq]
          · dsimp only [performSession]
            rcases m'.withNode_cases session title _ with ⟨key, node, hstored, heq⟩ | heq <;>
              rw [heq]
            · refine passes_performNodeStep hworld (hworld ▸ hs) fun changed answer hrun ht => ?_
              exact .edited (by rw [hagenda]; rfl) (by rw [← hworld, hname, ht]) hstored hrun rfl
            · exact .of_sessions (by rw [world_fail, hworld])
          · exact .of_sessions (by rw [world_fail, hworld])
      | _ => exact absurd hstep (by simp [Step.isPlain])
  | _ => exact absurd hstep (by simp [Step.isPlain])

/-! ## Every step -/

/-- Every step passes over a session in one of these ways. -/
theorem Sound.passes (h : Sound m) (s : SessionId) : Passes s m m.step := by
  cases hagenda : m.agenda with
  | nil =>
      rw [step_of_agenda_eq_nil hagenda]
      exact .of_sessions rfl
  | cons task rest =>
      cases hplain : task.isPlain with
      | true => exact .of_standing ((h.steady_step hagenda hplain).session? s)
      | false =>
          cases task with
          | start t title => exact passes_of_moves hagenda (.start title)
          | proceed t => exact passes_of_moves hagenda .proceed
          | follow t key destination => exact passes_of_moves hagenda (.follow key destination)
          | load t data start => exact passes_load hagenda
          | finish t onComplete => exact passes_finish hagenda
          | launch id graph d title node name => exact passes_launch hagenda
          | forget id =>
              rw [step_eq hagenda]
              exact .of_sessions (World.sessions_modifyManager ..)
          | perform step => exact passes_perform hagenda hplain
          | _ => exact absurd hplain (by simp [Task.isPlain])

/-- Between two steps of the host nothing happens to a session. -/
theorem Sound.passes_next {m' : Machine} (h : Sound m) (hnext : Next m m') (s : SessionId) :
    Passes s m m' := by
  cases hnext with
  | step => exact h.passes s
  | host hagenda step => exact .of_sessions rfl

/-- A session is not taken away. -/
theorem Execution.session_of_le {x : ℕ → Machine} {i j : ℕ} (h : Execution x)
    (hs : (x i).world.session? s = some session) (hij : i ≤ j) :
    ∃ session', (x j).world.session? s = some session' := by
  induction j, hij using Nat.le_induction with
  | base => exact ⟨session, hs⟩
  | succ j hij ih =>
      obtain ⟨found, hfound⟩ := ih
      obtain ⟨session', hs', -⟩ :=
        ((h.reachable j).sound.passes_next (h.next j) s).passage found hfound
      exact ⟨session', hs'⟩

end Machine

end Parley
