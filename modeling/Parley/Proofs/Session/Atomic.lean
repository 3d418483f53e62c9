import Parley.Proofs.Bus.Turn
import Parley.Proofs.Session.Closing
import Parley.Proofs.Session.Whereabouts

/-!
# Operations that come to nothing

Starting a node, going on and following an option either move a session or leave everything as
it was: an operation that is refused, or that fails because the node it leads to has no lines,
changes nothing in the world, asks nothing of a display and publishes nothing
(`moves_all_or_nothing`).

## Strategy

When an operation is refused and when it fails is read off the session (`Verdicts`).  A failing
operation does put the cursor of the node that it leads to back to the first line before it
finds that there is none.  But the cursor of a node without lines is there already
(`Rested`): only a move or the host could have led it away, and neither can.  So the session
that the operation puts back is the one that it found (`eq_of_fail`).
-/

namespace Parley

/-! ## Putting things back -/

theorem Table.insert_self {κ α : Type} [DecidableEq κ] {t : Table κ α} {key : κ} {a : α}
    (h : t.get? key = some a) : t.insert key a = t := by
  obtain ⟨entries⟩ := t
  have hentries : insertIn key a entries = entries := by
    have hlook : lookupIn key entries = some a := h
    induction entries with
    | nil => cases hlook
    | cons entry entries ih =>
        obtain ⟨k, b⟩ := entry
        by_cases hk : k = key
        · rw [lookupIn, if_pos hk] at hlook
          rw [insertIn, if_pos hk, Option.some.inj hlook]
        · rw [lookupIn, if_neg hk] at hlook
          rw [insertIn, if_neg hk, ih hlook hlook]
  rw [insert, hentries]

theorem World.modifySession_self {w : World} {s : SessionId} {session : Session}
    (h : w.session? s = some session) : (w.modifySession s fun _ => session) = w := by
  rw [modifySession, Memory.modifySession_self h rfl]

namespace Session

variable {session : Session} {title destination : String} {config : Config} {key : String}
  {node stored : Node}

theorem setNode_self (hstored : session.graph.bind (·.nodes.get? key) = some stored) :
    session.setNode key stored = session := by
  obtain ⟨graph, hgraph, hget⟩ := Option.bind_eq_some_iff.mp hstored
  have hsame : (graph.modify key fun _ => stored) = graph := by
    rw [Graph.modify, Table.modify, hget, Table.insert_self hget]
  unfold setNode
  rw [hgraph, Option.map_some, hsame, ← hgraph]

/-! ## Nodes without lines -/

/-- The node that a title stands for. -/
def titled? (session : Session) (title : String) : Option Node :=
  session.graph.bind (·.get? title)

/-- A title stands for a node without lines, which is a failure. -/
def Barren (session : Session) (title : String) (failure : Failure) : Prop :=
  ∃ node, session.titled? title = some node ∧ node.lines = [] ∧ failure = .emptyNode node.title

/-- Input is heeded: the session is in a node and has not finished. -/
def Heeding (session : Session) : Prop :=
  session.finished = false ∧ ∃ key, session.phase = .inNode key

/-- The cursors of nodes without lines are where they started. -/
def Rested (session : Session) : Prop :=
  ∀ key node, session.graph.bind (·.nodes.get? key) = some node → node.size = 0 →
    node.cursor = 0

theorem Rested.congr {session' : Session} (h : session.Rested)
    (hgraph : session'.graph = session.graph) : session'.Rested := by
  intro key node hnode
  rw [hgraph] at hnode
  exact h key node hnode

theorem rested_of_unread (h : ∀ graph, session.graph = some graph → graph.Unread) :
    session.Rested := by
  intro key node hnode _
  obtain ⟨graph, hgraph, hget⟩ := Option.bind_eq_some_iff.mp hnode
  exact h graph hgraph key node hget

theorem Rested.setNode (h : session.Rested)
    (hstored : session.graph.bind (·.nodes.get? key) = some stored)
    (hnode : node.size = 0 → node.cursor = 0) : (session.setNode key node).Rested := by
  intro other found hfound
  rw [stored_setNode hstored] at hfound
  split at hfound
  · rw [← Option.some.inj hfound]
    exact hnode
  · exact h other found hfound

/-- Entering a node puts it back, whether or not it can be entered. -/
theorem graph_enter (session : Session) (key : String) (node : Node) :
    ((session.enter key node).outcome session).graph = (session.setNode key node).graph := by
  unfold enter
  split <;> rfl

theorem Rested.enter (h : session.Rested)
    (hstored : session.graph.bind (·.nodes.get? key) = some stored)
    (hnode : node = stored ∨ node = stored.reset) :
    ((session.enter key node).outcome session).Rested := by
  have hcursor : node.size = 0 → node.cursor = 0 := by
    intro hsize
    rcases hnode with rfl | rfl
    · exact h key node hstored hsize
    · rfl
  exact (h.setNode hstored hcursor).congr (graph_enter session key node)

theorem Rested.outcome (h : session.Rested) {move : Move} (hmove : Move.Of session move) :
    (move.outcome session).Rested := by
  cases hmove with
  | start title =>
      rcases start_cases session title with ⟨entry, heq⟩ | ⟨key, stored, hstored, heq⟩
      · exact heq ▸ h
      · exact heq ▸ h.enter hstored (.inr rfl)
  | proceed =>
      rcases proceed_cases session with
        ⟨entry, heq⟩ | ⟨key, node, hactive, ⟨hnext, heq⟩ | ⟨-, heq⟩⟩
      · exact heq ▸ h
      · obtain ⟨-, hphase, hcurrent⟩ := activeNode?_eq_some hactive
        rw [heq]
        refine h.setNode (stored_of_inNode hphase hcurrent) fun hsize => ?_
        -- There is a next line, so the node does have lines.
        have hsize' : node.size = 0 := by simpa [Node.size] using hsize
        have hlt : node.cursor + 1 < node.size := by simpa [Node.hasNextLine] using hnext
        omega
      · exact heq ▸ h.congr rfl
  | follow config option destination =>
      rcases follow_cases session config option destination with
        ⟨entry, heq⟩ | ⟨here, now, -, ⟨-, heq⟩ | ⟨key, stored, node, hstored, hnode, heq⟩⟩
      · exact heq ▸ h
      · exact heq ▸ h.congr rfl
      · exact heq ▸ h.enter hstored hnode

/-! ## When operations are refused and when they fail -/

/-- What it comes to that an operation leads to the node of a title. -/
inductive Leads (session : Session) (title : String) : Move → Prop
  | nowhere (h : session.titled? title = none) (entry : LogEntry) :
      Leads session title (.refuse entry)
  | barren {node : Node} (h : session.titled? title = some node) (hlines : node.lines = []) :
      Leads session title (.fail session (.emptyNode node.title))
  | entered {node : Node} (h : session.titled? title = some node) (hlines : node.lines ≠ [])
      (moved : Session) (key : String) (index : Nat) :
      Leads session title (.display moved key index)

variable {move : Move} {moved : Session} {failure : Failure}

theorem Leads.fails_iff (h : Leads session title move) :
    move = .fail moved failure ↔ moved = session ∧ session.Barren title failure := by
  cases h with
  | nowhere htitled entry => simp [Barren, htitled]
  | barren htitled hlines => simp [Barren, htitled, hlines, eq_comm]
  | entered htitled hlines moved key index => simp [Barren, htitled, hlines]

theorem Leads.refused_iff (h : Leads session title move) :
    (∃ entry, move = .refuse entry) ↔ session.titled? title = none := by
  cases h with
  | nowhere htitled entry => simp [htitled]
  | barren htitled hlines => simp [htitled]
  | entered htitled hlines moved key index => simp [htitled]

/-- Entering a node without lines puts it back as it was. -/
theorem leads_enter (hplaced : session.Placed) (hrested : session.Rested)
    (htitled : session.titled? title = some stored)
    (hstored : session.graph.bind (·.nodes.get? key) = some stored)
    (hnode : node = stored ∨ node = stored.reset) :
    Leads session title (session.enter key node) := by
  have hlines : node.lines = stored.lines := by rcases hnode with rfl | rfl <;> rfl
  rcases Nat.eq_zero_or_pos stored.size with hempty | hpos
  · have hcursor : stored.cursor = 0 := hrested key stored hstored hempty
    have hsame : node = stored := by
      rcases hnode with rfl | rfl
      · rfl
      · rw [Node.reset, ← hcursor]
    rw [hsame, enter_of_empty hempty, setNode_self hstored]
    exact .barren htitled (List.eq_nil_of_length_eq_zero hempty)
  · have hcursor : node.cursor < node.size := by
      obtain ⟨graph, hgraph, hget⟩ := Option.bind_eq_some_iff.mp hstored
      rcases hnode with rfl | rfl
      · exact hplaced.inBounds graph hgraph key _ hget hpos
      · exact hpos
    rw [enter_of_pos hcursor]
    exact .entered htitled (List.ne_nil_of_length_pos hpos) _ _ _

/-- The key of a title and the node under it, as the operations look them up. -/
theorem target_of_titled (htitled : session.titled? title = some node) :
    ∃ key, (session.graph.bind fun graph => (graph.get? title).map (graph.key title, ·)) =
        some (key, node) ∧
      session.graph.bind (·.nodes.get? key) = some node := by
  obtain ⟨graph, hgraph, hget⟩ := Option.bind_eq_some_iff.mp htitled
  refine ⟨graph.key title, ?_, ?_⟩
  · rw [hgraph, Option.bind_some, hget, Option.map_some]
  · rw [hgraph]
    exact hget

theorem target_of_not_titled (htitled : session.titled? title = none) :
    (session.graph.bind fun graph => (graph.get? title).map (graph.key title, ·)) = none := by
  rw [Option.bind_eq_none_iff]
  intro graph hgraph
  have hget : graph.get? title = none := Option.bind_eq_none_iff.mp htitled graph hgraph
  rw [hget, Option.map_none]

theorem leads_start (hplaced : session.Placed) (hrested : session.Rested)
    (hfinished : session.finished = false) (title : String) :
    Leads session title (session.start title) := by
  unfold start
  rw [if_neg (by simp [hfinished])]
  cases htitled : session.titled? title with
  | none =>
      rw [target_of_not_titled htitled]
      exact .nowhere htitled _
  | some node =>
      obtain ⟨key, htarget, hstored⟩ := target_of_titled htitled
      rw [htarget]
      exact leads_enter hplaced hrested htitled hstored (.inr rfl)

theorem activeNode?_of_heeding (hplaced : session.Placed) (h : session.Heeding) :
    ∃ key node, session.activeNode? = some (key, node) := by
  obtain ⟨hfinished, key, hphase⟩ := h
  obtain ⟨node, hnode, -⟩ := hplaced.current key (by rw [hphase]; rfl)
  refine ⟨key, node, ?_⟩
  rw [activeNode?, if_neg (by simp [hfinished]), hphase, hnode]
  rfl

theorem activeNode?_of_not_heeding (h : ¬ session.Heeding) : session.activeNode? = none := by
  cases hactive : session.activeNode? with
  | none => rfl
  | some active =>
      obtain ⟨hfinished, hphase, -⟩ := activeNode?_eq_some hactive
      exact absurd ⟨hfinished, _, hphase⟩ h

theorem leads_follow (hplaced : session.Placed) (hrested : session.Rested)
    (hheeding : session.Heeding) (option : String) (hgoes : destination ≠ config.endToken) :
    Leads session destination (session.follow config option destination) := by
  obtain ⟨here, now, hactive⟩ := activeNode?_of_heeding hplaced hheeding
  simp only [follow, hactive, if_neg hgoes]
  cases htitled : session.titled? destination with
  | none =>
      rw [target_of_not_titled htitled]
      exact .nowhere htitled _
  | some node =>
      obtain ⟨key, htarget, hstored⟩ := target_of_titled htitled
      rw [htarget]
      apply leads_enter hplaced hrested htitled hstored
      split
      · exact .inr rfl
      · exact .inl rfl

/-- When the operations of a session are refused and when they fail, and that those which fail
put back the session that they found. -/
structure Verdicts (session : Session) : Prop where
  start_fails : ∀ title moved failure, session.start title = .fail moved failure ↔
    session.finished = false ∧ moved = session ∧ session.Barren title failure
  start_refused : ∀ title, (∃ entry, session.start title = .refuse entry) ↔
    session.finished = true ∨ session.titled? title = none
  proceed_succeeds : ∀ moved failure, session.proceed ≠ .fail moved failure
  proceed_refused : (∃ entry, session.proceed = .refuse entry) ↔ ¬ session.Heeding
  follow_fails : ∀ (config : Config) option destination moved failure,
    session.follow config option destination = .fail moved failure ↔
      session.Heeding ∧ destination ≠ config.endToken ∧ moved = session ∧
        session.Barren destination failure
  follow_refused : ∀ (config : Config) option destination,
    (∃ entry, session.follow config option destination = .refuse entry) ↔
      ¬ session.Heeding ∨ destination ≠ config.endToken ∧ session.titled? destination = none

theorem Placed.verdicts (hplaced : session.Placed) (hrested : session.Rested) :
    session.Verdicts where
  start_fails title moved failure := by
    cases hfinished : session.finished with
    | true => simp [start_of_finished hfinished]
    | false => simpa using (leads_start hplaced hrested hfinished title).fails_iff
  start_refused title := by
    cases hfinished : session.finished with
    | true => simp [start_of_finished hfinished]
    | false => simpa using (leads_start hplaced hrested hfinished title).refused_iff
  proceed_succeeds moved failure hfail := by
    rcases proceed_cases session with
      ⟨entry, heq⟩ | ⟨key, node, -, ⟨-, heq⟩ | ⟨-, heq⟩⟩ <;> simp [heq] at hfail
  proceed_refused := by
    by_cases hheeding : session.Heeding
    · obtain ⟨key, node, hactive⟩ := activeNode?_of_heeding hplaced hheeding
      simp only [proceed, hactive]
      split <;> simp [hheeding]
    · simp [proceed, activeNode?_of_not_heeding hheeding, hheeding]
  follow_fails config option destination moved failure := by
    by_cases hheeding : session.Heeding
    · by_cases hend : destination = config.endToken
      · obtain ⟨key, node, hactive⟩ := activeNode?_of_heeding hplaced hheeding
        simp [follow, hactive, hend]
      · simpa [hheeding, hend] using (leads_follow hplaced hrested hheeding option hend).fails_iff
    · simp [follow, activeNode?_of_not_heeding hheeding, hheeding]
  follow_refused config option destination := by
    by_cases hheeding : session.Heeding
    · by_cases hend : destination = config.endToken
      · obtain ⟨key, node, hactive⟩ := activeNode?_of_heeding hplaced hheeding
        simp [follow, hactive, hend, hheeding]
      · simpa [hheeding, hend] using
          (leads_follow hplaced hrested hheeding option hend).refused_iff
    · simp [follow, activeNode?_of_not_heeding hheeding, hheeding]

theorem Verdicts.fail_eq (h : session.Verdicts) (hmove : Move.Of session (.fail moved failure)) :
    moved = session ∧ ∃ title, failure = .emptyNode title := by
  generalize hfail : Move.fail moved failure = move at hmove
  cases hmove with
  | start title =>
      obtain ⟨-, hmoved, node, -, -, hfailure⟩ := (h.start_fails title moved failure).mp hfail.symm
      exact ⟨hmoved, _, hfailure⟩
  | proceed => exact absurd hfail.symm (h.proceed_succeeds moved failure)
  | follow config option destination =>
      obtain ⟨-, -, hmoved, node, -, -, hfailure⟩ :=
        (h.follow_fails config option destination moved failure).mp hfail.symm
      exact ⟨hmoved, _, hfailure⟩

end Session

/-! ## The work that is left to an operation -/

/-- Whether a task is what an operation of a session does after its move. -/
def Task.carriesOn (s : SessionId) : Task → Bool
  | .present t _ | .fireShown t _ | .handleAction t _ _ | .actions (.session t) _ => t = s
  | _ => false

namespace Machine

variable {x : ℕ → Machine} {m : Machine} {s : SessionId} {session session' moved : Session}
  {move : Session.Move} {failure : Failure} {entry : LogEntry} {task : Task} {rest : List Task}
  {i n : ℕ}

/-- After its move an operation only calls others: it cannot fail of its own accord any more. -/
theorem step_of_carriesOn (hs : m.world.session? s = some session)
    (hagenda : m.agenda = task :: rest) (htask : task.carriesOn s = true) :
    ∃ tasks, m.step = { m with agenda := tasks ++ rest } := by
  rw [step_eq hagenda]
  cases task with
  | present t line =>
      obtain rfl : t = s := by simpa [Task.carriesOn] using htask
      simp only [exec, present, hs]
      exact ⟨_, rfl⟩
  | fireShown t line =>
      obtain rfl : t = s := by simpa [Task.carriesOn] using htask
      simp only [exec, fireShown, hs]
      split
      · exact ⟨_, rfl⟩
      · exact ⟨[], rfl⟩
  | handleAction t tag param =>
      obtain rfl : t = s := by simpa [Task.carriesOn] using htask
      simp only [exec, handleAction, hs]
      exact ⟨_, rfl⟩
  | actions sink course =>
      simp only [exec, actions]
      split
      · exact ⟨[], rfl⟩
      · exact ⟨_, rfl⟩
  | _ => exact absurd htask (by simp [Task.carriesOn])

/-! ## Operations that change nothing -/

/-- The next step comes to nothing: the world stays as it is, no work is added to what is left,
and neither the display of a session nor any bus is told of anything. -/
structure ComesToNothing (s : SessionId) (m : Machine) : Prop where
  world : m.step.world = m.world
  agenda : m.step.agenda <:+ m.agenda.tail
  asked : asked s m = []
  published : ∀ b, published b m = []

theorem Moves.published_eq_nil (h : Moves s m session move) (b : BusId) : published b m = [] := by
  have hhead : ∃ task, m.agenda.head? = some task ∧ ∀ c event, task ≠ .publish c event := by
    cases h with
    | start hhead => exact ⟨_, hhead, by simp⟩
    | proceed hhead => exact ⟨_, hhead, by simp⟩
    | follow hhead => exact ⟨_, hhead, by simp⟩
  obtain ⟨task, hhead, hpublish⟩ := hhead
  obtain ⟨rest, hagenda⟩ := List.head?_eq_some_iff.mp hhead
  rw [published, hagenda]
  split
  · rename_i c event rest' heq
    exact absurd (List.cons.inj heq).1 (hpublish c event)
  · rfl

theorem Moves.comesToNothing (h : Moves s m session move) (hworld : m.step.world = m.world)
    (hagenda : m.step.agenda <:+ m.agenda.tail) : ComesToNothing s m :=
  ⟨hworld, hagenda, asked_eq_nil hagenda.length_le, h.published_eq_nil⟩

theorem setSession_self (hs : m.world.session? s = some session) : m.setSession s session = m := by
  rw [setSession, withWorld, World.modifySession_self hs]

/-- A move that fails without changing its session is the failure and nothing else. -/
theorem step_of_failed (hs : m.world.session? s = some session)
    (hmove : Moves s m session (.fail session failure)) :
    m.step = { m with agenda := m.agenda.tail }.fail failure := by
  obtain ⟨refused, shown, -, hstep⟩ := hmove.exists_step_eq hs
  rw [hstep, carryOut, setSession_self (m := { m with agenda := m.agenda.tail }) hs]

theorem ComesToNothing.of_fail (hs : m.world.session? s = some session)
    (hmove : Moves s m session (.fail session failure)) : ComesToNothing s m := by
  have hstep := step_of_failed hs hmove
  refine hmove.comesToNothing (by rw [hstep, world_fail]) ?_
  rw [hstep, agenda_fail]
  obtain ⟨before, heq, -⟩ := exists_eq_append_unwind m.agenda.tail
  exact ⟨before, heq.symm⟩

theorem ComesToNothing.of_refused (hs : m.world.session? s = some session)
    (hmove : Moves s m session (.refuse entry)) : ComesToNothing s m := by
  obtain ⟨hworld, hagenda, -⟩ := step_of_refused hs hmove
  exact hmove.comesToNothing hworld (hagenda ▸ List.suffix_rfl)

/-! ## Nodes without lines along an execution -/

theorem Passage.rested (h : Passage s m session session') (hrested : session.Rested)
    (hmeddles : meddles s m = false) : session'.Rested := by
  cases h with
  | aside h => exact hrested.congr (congrArg Standing.graph h)
  | moved hmove h => exact h ▸ hrested.outcome hmove.of
  | loaded hhead hgraph h =>
      rw [h]
      apply Session.rested_of_unread
      intro found hfound
      rw [Session.graph_replaceGraph, Option.some.injEq] at hfound
      exact hfound ▸ hgraph
  | finished hhead h => exact hrested.congr (congrArg Standing.graph h)
  | @edited _ _ step key node changed _ hhead hname hstored hrun h =>
      have hstep : step.movesCursor = false := by
        simpa [meddles, hhead, hname] using hmeddles
      obtain ⟨hsize, hcursor⟩ := NodeStep.size_cursor_of_run hrun hstep
      rw [h]
      apply hrested.setNode hstored
      intro hempty
      rw [hcursor]
      exact hrested key node hstored (hsize ▸ hempty)

theorem Execution.rested (h : Execution x)
    (hfresh : ∀ session, (x 0).world.session? s = some session → session.Fresh)
    (hleft : ∀ i < n, meddles s (x i) = false) (hi : i ≤ n) :
    ∀ session, (x i).world.session? s = some session → session.Rested := by
  induction i with
  | zero => exact fun session hs => Session.rested_of_unread (hfresh session hs).unread
  | succ i ih =>
      intro session' hs'
      have hpasses := (h.reachable i).sound.passes_next (h.next i) s
      cases hs : (x i).world.session? s with
      | none => exact Session.rested_of_unread (hpasses.fresh session' hs hs').unread
      | some session =>
          obtain ⟨found, hfound, hpassage⟩ := hpasses.passage session hs
          obtain rfl : session' = found := Option.some.inj (hs'.symm.trans hfound)
          exact hpassage.rested (ih (by omega) session hs) (hleft i (by omega))

/-! ## All or nothing -/

/-- As long as the cursors of a session are left to itself, its operations are refused and fail
exactly as the verdicts say: the only failure is that of a node without lines.  An operation
that is refused or fails comes to nothing; it is logged, or is the failure and nothing else.
What is left of an operation after its move cannot fail of its own accord. -/
theorem moves_all_or_nothing (h : Execution x)
    (hfresh : ∀ session, (x 0).world.session? s = some session → session.Fresh)
    (hleft : ∀ i < n, meddles s (x i) = false) (hi : i ≤ n)
    (hs : (x i).world.session? s = some session) :
    session.Verdicts ∧
      (∀ moved failure, Moves s (x i) session (.fail moved failure) →
        ComesToNothing s (x i) ∧ (∃ title, failure = .emptyNode title) ∧
          (x i).step = { x i with agenda := (x i).agenda.tail }.fail failure) ∧
      (∀ entry, Moves s (x i) session (.refuse entry) →
        ComesToNothing s (x i) ∧ (x i).step.agenda = (x i).agenda.tail ∧
          (x i).step.trace = (x i).trace ++ [.log entry.level entry.text none]) ∧
      (∀ title entry, (x i).agenda.head? = some (.start s title) →
        session.start title = .refuse entry → (x i).step.result = .ok (.flag false)) ∧
      ∀ task rest, (x i).agenda = task :: rest → task.carriesOn s = true →
        ∃ tasks, (x i).step = { x i with agenda := tasks ++ rest } := by
  have hplaced : session.Placed := (h.settled hfresh hleft hi).placed session hs
  have hverdicts : session.Verdicts := hplaced.verdicts (h.rested hfresh hleft hi session hs)
  refine ⟨hverdicts, ?_, ?_, ?_, ?_⟩
  · intro moved failure hmove
    obtain ⟨rfl, htitle⟩ := hverdicts.fail_eq hmove.of
    exact ⟨.of_fail hs hmove, htitle, step_of_failed hs hmove⟩
  · intro entry hmove
    obtain ⟨-, hagenda, htrace⟩ := step_of_refused hs hmove
    exact ⟨.of_refused hs hmove, hagenda, htrace⟩
  · intro title entry hhead hrefuse
    exact result_start_of_refused hs hhead hrefuse
  · intro task rest hagenda htask
    exact step_of_carriesOn hs hagenda htask

/-- A host that leads a session to a node without lines, to one that is not there, and to the
empty node again by an option. -/
def misled : ℕ → Machine :=
  course { world := World.ofHandlers [] }
    [.newDisplay "c" "c" (.recording {} false),
      .newSession "s" "c" none (.graph (some
        (.array [.object [("title", .string "A"), ("body", .string "one\ntwo")],
          .object [("title", .string "E")]]))),
      .session "s" (.start "E"), .session "s" (.start "B"), .session "s" (.start "A"),
      .session "s" (.follow "go" "E")]

theorem moves_all_or_nothing_misled :
    Execution misled ∧ (∀ i < 36, meddles ⟨0⟩ (misled i) = false) ∧
      ∃ session, (misled 36).world.session? ⟨0⟩ = some session ∧
        session.follow ((misled 36).world.configOf session) "go" "E" =
          .fail session (.emptyNode "E") ∧
        ComesToNothing ⟨0⟩ (misled 36) := by
  have h : Execution misled := execution_course (initial_ofHandlers _) _
  have hleft : ∀ i < 36, meddles ⟨0⟩ (misled i) = false := by decide +kernel
  have hnone : (misled 0).world.session? ⟨0⟩ = none := rfl
  have hfresh : ∀ session, (misled 0).world.session? ⟨0⟩ = some session → session.Fresh :=
    fun session hs => absurd (hnone.symm.trans hs) (by simp)
  have hlook : ((misled 36).world.session? ⟨0⟩).map (fun session =>
      (session.finished, session.phase, (session.titled? "E").map fun node =>
        (node.title, node.lines))) = some (false, .inNode "A", some ("E", [])) := by
    decide +kernel
  have htoken : ∀ session ∈ (misled 36).world.session? ⟨0⟩,
      ((misled 36).world.configOf session).endToken = "END" := by
    decide +kernel
  obtain ⟨session, hs, hfacts⟩ := Option.map_eq_some_iff.mp hlook
  simp only [Prod.mk.injEq, Option.map_eq_some_iff] at hfacts
  obtain ⟨hfinished, hphase, node, htitled, htitle, hlines⟩ := hfacts
  have hgoes : "E" ≠ ((misled 36).world.configOf session).endToken := by
    rw [htoken session hs]
    decide
  obtain ⟨hverdicts, hfail, -⟩ := moves_all_or_nothing h hfresh hleft (le_refl 36) hs
  have hfollow : session.follow ((misled 36).world.configOf session) "go" "E" =
      .fail session (.emptyNode "E") :=
    (hverdicts.follow_fails _ "go" "E" session _).mpr
      ⟨⟨hfinished, "A", hphase⟩, hgoes, rfl, node, htitled, hlines, by rw [htitle]⟩
  have hmoves : Moves ⟨0⟩ (misled 36) session (.fail session (.emptyNode "E")) := by
    rw [← hfollow]
    exact .follow rfl
  exact ⟨h, hleft, session, hs, hfollow, (hfail session _ hmoves).1⟩

end Machine

end Parley
