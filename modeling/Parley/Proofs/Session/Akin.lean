import Parley.Proofs.Session.Moves

/-!
# Sessions over one script

Two graphs follow the same script if they differ in nothing but their cursors (`SameScript`), and
every move keeps the script of its session (`Move.Of.sameScript`).  Two sessions over the same
script are akin if they also agree on their phase and on the node that they are at, cursor included
(`Akin`); the cursors of all other nodes may differ.

Akin sessions make the same moves and stay akin (`Akin.moves`), as long as following an option
starts the destination from its first line: whatever node a move leads to, it sets the cursor of it
before it reads it.  Starting a node makes any two sessions over one script akin
(`SameScript.start`), wherever they were before.
-/

namespace Parley

/-! ## Graphs -/

/-- Two graphs that differ in nothing but their cursors. -/
structure Graph.SameScript (graph graph' : Graph) : Prop where
  caseSensitive : graph'.caseSensitive = graph.caseSensitive
  reset : ∀ key, (graph'.nodes.get? key).map Node.reset = (graph.nodes.get? key).map Node.reset

namespace Graph.SameScript

variable {graph graph' graph'' : Graph} {key : String} {stored node : Node}

theorem refl (graph : Graph) : SameScript graph graph :=
  ⟨rfl, fun _ => rfl⟩

theorem symm (h : SameScript graph graph') : SameScript graph' graph :=
  ⟨h.caseSensitive.symm, fun key => (h.reset key).symm⟩

theorem trans (h : SameScript graph graph') (h' : SameScript graph' graph'') :
    SameScript graph graph'' :=
  ⟨h'.caseSensitive.trans h.caseSensitive, fun key => (h'.reset key).trans (h.reset key)⟩

/-- Replacing a node by one that differs in the cursor alone keeps the script. -/
theorem modify (hstored : graph.nodes.get? key = some stored) (hnode : node.reset = stored.reset) :
    SameScript graph (graph.modify key fun _ => node) := by
  refine ⟨rfl, fun other => ?_⟩
  rw [Graph.modify, Table.get?_modify]
  split
  · rename_i heq
    rw [← heq, hstored, Option.map_some, Option.map_some, Option.map_some, hnode]
  · rfl

theorem exists_node (h : SameScript graph graph') (hstored : graph.nodes.get? key = some stored) :
    ∃ stored', graph'.nodes.get? key = some stored' ∧ stored'.reset = stored.reset := by
  have hreset := h.reset key
  rw [hstored, Option.map_some] at hreset
  exact Option.map_eq_some_iff.mp hreset

theorem lines (h : SameScript graph graph') (key : String) :
    (graph'.nodes.get? key).map Node.lines = (graph.nodes.get? key).map Node.lines := by
  have hreset := congrArg (Option.map Node.lines) (h.reset key)
  rw [Option.map_map, Option.map_map] at hreset
  exact hreset

end Graph.SameScript

namespace Session

variable {session session' session'' moved : Session} {graph : Graph} {key : String}
  {node node' stored : Node} {config : Config}

/-! ## Sessions -/

/-- The present graphs of two sessions follow the same script. -/
def SameScript (session session' : Session) : Prop :=
  Option.Rel Graph.SameScript session.graph session'.graph

theorem SameScript.of_eq (h : session'.graph = session.graph) : SameScript session session' := by
  rw [SameScript, h]
  cases session.graph with
  | none => exact .none
  | some graph => exact .some (.refl graph)

theorem SameScript.symm (h : SameScript session session') : SameScript session' session := by
  unfold SameScript at h ⊢
  generalize session.graph = found at h ⊢
  generalize session'.graph = found' at h ⊢
  cases h with
  | none => exact .none
  | some h => exact .some h.symm

theorem SameScript.trans (h : SameScript session session') (h' : SameScript session' session'') :
    SameScript session session'' := by
  unfold SameScript at h h' ⊢
  generalize session.graph = found at h ⊢
  generalize session'.graph = found' at h h'
  generalize session''.graph = found'' at h' ⊢
  cases h with
  | none => exact h'
  | some h =>
      cases h' with
      | some h' => exact .some (h.trans h')

/-- A node of a session and its key, looked up by its title. -/
def find? (session : Session) (title : String) : Option (String × Node) :=
  session.graph.bind fun graph => (graph.get? title).map (graph.key title, ·)

/-- A node differs only in its cursor from the one that a session has under a key. -/
def Fits (session : Session) (key : String) (node : Node) : Prop :=
  ∃ stored, session.graph.bind (·.nodes.get? key) = some stored ∧ node.reset = stored.reset

theorem fits_of_find? {title : String} (h : session.find? title = some (key, node)) :
    session.Fits key node := by
  obtain ⟨graph, hgraph, hfound⟩ := Option.bind_eq_some_iff.mp h
  obtain ⟨found, hget, hpair⟩ := Option.map_eq_some_iff.mp hfound
  obtain ⟨rfl, rfl⟩ := Prod.mk.inj hpair
  exact ⟨found, Option.bind_eq_some_iff.mpr ⟨graph, hgraph, hget⟩, rfl⟩

theorem Fits.of_reset (h : session.Fits key node) (hnode : node'.reset = node.reset) :
    session.Fits key node' := by
  obtain ⟨stored, hstored, hreset⟩ := h
  exact ⟨stored, hstored, hnode.trans hreset⟩

/-- Over one script a title leads to the same node, or to none. -/
theorem SameScript.find? (h : SameScript session session') (title : String) :
    (session.find? title = none ∧ session'.find? title = none) ∨
      ∃ key node node', session.find? title = some (key, node) ∧
        session'.find? title = some (key, node') ∧ node'.reset = node.reset := by
  unfold SameScript at h
  unfold Session.find?
  generalize session.graph = found at h
  generalize session'.graph = found' at h
  cases h with
  | none => exact .inl ⟨rfl, rfl⟩
  | @some graph graph' h =>
      have hkey : graph'.key title = graph.key title := by
        rw [Graph.key, h.caseSensitive, Graph.key]
      cases hnode : graph.get? title with
      | none =>
          have hreset := h.reset (graph.key title)
          rw [show graph.nodes.get? (graph.key title) = none from hnode, Option.map_none,
            Option.map_eq_none_iff] at hreset
          refine .inl ⟨by simp [hnode], ?_⟩
          rw [Option.bind_some, Graph.get?, hkey, hreset, Option.map_none]
      | some node =>
          obtain ⟨node', hnode', hreset⟩ := h.exists_node hnode
          refine .inr ⟨graph.key title, node, node', by simp [hnode], ?_, hreset⟩
          rw [Option.bind_some, Graph.get?, hkey, hnode', Option.map_some]

theorem Fits.sameScript (h : session.Fits key node) :
    SameScript session (session.setNode key node) := by
  obtain ⟨stored, hstored, hnode⟩ := h
  obtain ⟨graph, hgraph, hget⟩ := Option.bind_eq_some_iff.mp hstored
  rw [SameScript, graph_setNode hgraph, hgraph]
  exact .some (.modify hget hnode)

/-- Over one script the same lines are found under a key. -/
theorem SameScript.lines (h : SameScript session session') (key : String) :
    (session'.graph.bind (·.nodes.get? key)).map Node.lines =
      (session.graph.bind (·.nodes.get? key)).map Node.lines := by
  unfold SameScript at h
  generalize session.graph = found at h ⊢
  generalize session'.graph = found' at h ⊢
  cases h with
  | none => rfl
  | some h => exact h.lines key

/-- A session that keeps its script and its earlier graphs keeps its lines. -/
theorem SameScript.line? (h : SameScript session session')
    (hshelved : session'.shelved = session.shelved) (ref : LineRef) :
    session'.line? ref = session.line? ref := by
  have hlines : ∀ {graph graph' : Graph}, graph.SameScript graph' →
      ((graph'.nodes.get? ref.key).bind fun node => node.lines[ref.index]?) =
        (graph.nodes.get? ref.key).bind fun node => node.lines[ref.index]? := by
    intro graph graph' h
    have hsame := congrArg (Option.bind · fun lines => lines[ref.index]?) (h.lines ref.key)
    rw [Option.bind_map, Option.bind_map] at hsame
    exact hsame
  have hgraph : Option.Rel Graph.SameScript (session.graphAt? ref.graph)
      (session'.graphAt? ref.graph) := by
    unfold graphAt? graphs
    rw [hshelved]
    rcases Nat.lt_or_ge ref.graph session.shelved.length with hlt | hge
    · rw [List.getElem?_append_left hlt, List.getElem?_append_left hlt,
        List.getElem?_eq_getElem hlt]
      exact .some (.refl _)
    · rw [List.getElem?_append_right hge, List.getElem?_append_right hge]
      unfold SameScript at h
      generalize session.graph = found at h ⊢
      generalize session'.graph = found' at h ⊢
      cases h with
      | none => exact .none
      | some h =>
          cases ref.graph - session.shelved.length with
          | zero => exact .some h
          | succ n => exact .none
  unfold Session.line?
  generalize session.graphAt? ref.graph = found at hgraph ⊢
  generalize session'.graphAt? ref.graph = found' at hgraph ⊢
  cases hgraph with
  | none => rfl
  | some h => exact hlines h

/-! ## Moves keep the script -/

theorem Fits.sameScript_enter (h : session.Fits key node) :
    SameScript session ((session.enter key node).outcome session) := by
  unfold enter
  split
  · exact h.sameScript
  · exact h.sameScript

theorem reset_forward (node : Node) : node.forward.reset = node.reset := by
  unfold Node.forward
  split <;> rfl

theorem Move.Of.sameScript {move : Move} (h : Move.Of session move) :
    SameScript session (move.outcome session) := by
  cases h with
  | start title =>
      rcases start_cases session title with ⟨entry, heq⟩ | ⟨key, stored, hstored, heq⟩ <;> rw [heq]
      · exact .of_eq rfl
      · exact Fits.sameScript_enter ⟨stored, hstored, rfl⟩
  | proceed =>
      rcases proceed_cases session with
        ⟨entry, heq⟩ | ⟨key, node, hactive, ⟨-, heq⟩ | ⟨-, heq⟩⟩ <;> rw [heq]
      · exact .of_eq rfl
      · obtain ⟨-, hphase, hnode⟩ := activeNode?_eq_some hactive
        exact Fits.sameScript ⟨node, stored_of_inNode hphase hnode, reset_forward node⟩
      · exact .of_eq rfl
  | follow config option destination =>
      rcases follow_cases session config option destination with
        ⟨entry, heq⟩ | ⟨here, now, -, ⟨-, heq⟩ | ⟨key, stored, node, hstored, hnode, heq⟩⟩ <;>
          rw [heq]
      · exact .of_eq rfl
      · exact .of_eq rfl
      · refine Fits.sameScript_enter ⟨stored, hstored, ?_⟩
        rcases hnode with rfl | rfl <;> rfl

/-! ## Akin sessions -/

/-- Two sessions over the same script that are both open or both finished, in the same phase, and
at the same line of the same node. -/
structure Akin (session session' : Session) : Prop where
  finished : session'.finished = session.finished
  script : SameScript session session'
  phase : session'.phase = session.phase
  current : session'.currentNode? = session.currentNode?

namespace Akin

theorem of_eq (hgraph : session'.graph = session.graph) (hphase : session'.phase = session.phase)
    (hfinished : session'.finished = session.finished) : Akin session session' := by
  refine ⟨hfinished, .of_eq hgraph, hphase, ?_⟩
  rw [currentNode?, hgraph, hphase, currentNode?]

theorem activeNode? (h : Akin session session') : session'.activeNode? = session.activeNode? := by
  rw [Session.activeNode?, h.finished, h.phase, h.current, Session.activeNode?]

theorem ignored (h : Akin session session') (operation : String) :
    session'.ignored operation = session.ignored operation := by
  rw [Session.ignored, h.phase, Session.ignored]

/-- Akin sessions stay akin when they get the same node under one key. -/
theorem setNode (h : Akin session session') (hnode : session.Fits key node)
    (hnode' : session'.Fits key node) :
    Akin (session.setNode key node) (session'.setNode key node) where
  finished := h.finished
  script := hnode.sameScript.symm.trans (h.script.trans hnode'.sameScript)
  phase := h.phase
  current := by
    obtain ⟨stored, hstored, -⟩ := hnode
    obtain ⟨stored', hstored', -⟩ := hnode'
    rw [currentNode?_setNode hstored, currentNode?_setNode hstored', h.phase, h.current]

end Akin

/-- Putting a node back as it is changes nothing. -/
theorem akin_setNode (hstored : session.graph.bind (·.nodes.get? key) = some stored) :
    Akin session (session.setNode key stored) := by
  refine ⟨rfl, Fits.sameScript ⟨stored, hstored, rfl⟩, rfl, ?_⟩
  rw [currentNode?_setNode hstored]
  split
  · rename_i hkey
    exact (currentNode?_of_stored hstored hkey).symm
  · rfl

/-! ## Moves of akin sessions -/

/-- Two moves that come to the same, and leave akin sessions behind. -/
inductive Move.Akin : Move → Move → Prop
  | refuse (entry : LogEntry) : Move.Akin (.refuse entry) (.refuse entry)
  | fail {moved moved' : Session} (h : moved.Akin moved') (failure : Failure) :
      Move.Akin (.fail moved failure) (.fail moved' failure)
  | display {moved moved' : Session} (h : moved.Akin moved') (key : String) (index : Nat) :
      Move.Akin (.display moved key index) (.display moved' key index)
  | ended {moved moved' : Session} (h : moved.Akin moved') :
      Move.Akin (.ended moved) (.ended moved')

theorem Move.Akin.outcome {move move' : Move} (hmove : Move.Akin move move')
    (h : session.Akin session') : (move.outcome session).Akin (move'.outcome session') := by
  cases hmove with
  | refuse entry => exact h
  | fail h failure => exact h
  | display h key index => exact h
  | ended h => exact h

/-- Entering a node, two sessions over one script become akin, whatever they were before. -/
theorem SameScript.enter (h : SameScript session session')
    (hfinished : session'.finished = session.finished) (hnode : session.Fits key node)
    (hnode' : session'.Fits key node) :
    Akin { session.setNode key node with phase := .inNode key }
      { session'.setNode key node with phase := .inNode key } where
  finished := hfinished
  script := hnode.sameScript.symm.trans (h.trans hnode'.sameScript)
  phase := rfl
  current := by
    obtain ⟨stored, hstored, -⟩ := hnode
    obtain ⟨stored', hstored', -⟩ := hnode'
    rw [currentNode?_enter hstored, currentNode?_enter hstored']

theorem Akin.enter (h : Akin session session') (hnode : session.Fits key node)
    (hnode' : session'.Fits key node) :
    Move.Akin (session.enter key node) (session'.enter key node) := by
  unfold Session.enter
  cases node.currentLine with
  | error failure => exact .fail (h.setNode hnode hnode') failure
  | ok line => exact .display (h.script.enter h.finished hnode hnode') key _

theorem start_of_open (h : session.finished = false) (title : String) : session.start title =
    match session.find? title with
    | none => .refuse ⟨.error, "Can't find node '" ++ title ++ "'"⟩
    | some (key, node) => session.enter key node.reset :=
  if_neg (by simp [h])

theorem follow_of_active {here option destination : String}
    (hactive : session.activeNode? = some (here, node)) (hend : destination ≠ config.endToken) :
    session.follow config option destination =
      match session.find? destination with
      | none =>
        .refuse ⟨.error, "'" ++ destination ++ "' (option '" ++ option ++
          "') is not a conversation node nor the end token."⟩
      | some (key, node) =>
        session.enter key (if config.resetOnOption then node.reset else node) := by
  rw [follow, hactive]
  exact if_neg hend

/-- Over one script, two open sessions do not find a node, or they enter the same one. -/
theorem SameScript.start_cases (h : SameScript session session') (hopen : session.finished = false)
    (hopen' : session'.finished = false) (title : String) :
    (∃ entry, session.start title = .refuse entry ∧ session'.start title = .refuse entry) ∨
      ∃ key node, session.start title = session.enter key node ∧
        session'.start title = session'.enter key node ∧
        session.Fits key node ∧ session'.Fits key node := by
  rw [start_of_open hopen, start_of_open hopen']
  rcases h.find? title with ⟨hnone, hnone'⟩ | ⟨key, node, node', hfound, hfound', hreset⟩
  · rw [hnone, hnone']
    exact .inl ⟨_, rfl, rfl⟩
  · rw [hfound, hfound']
    dsimp only
    rw [hreset]
    exact .inr ⟨key, node.reset, rfl, rfl, (fits_of_find? hfound).of_reset rfl,
      (fits_of_find? hfound').of_reset hreset.symm⟩

/-- Starting a node that has lines, two open sessions over one script become akin, wherever they
were before. -/
theorem SameScript.start (h : SameScript session session') (hopen : session.finished = false)
    (hopen' : session'.finished = false) {title : String} {index : Nat}
    (hstart : session.start title = .display moved key index) :
    Move.Akin (session.start title) (session'.start title) := by
  rcases h.start_cases hopen hopen' title with
    ⟨entry, hrefused, -⟩ | ⟨here, node, henter, henter', hnode, hnode'⟩
  · exact absurd (hrefused.symm.trans hstart) (by simp)
  · rw [henter] at hstart
    rw [henter, henter']
    unfold Session.enter at hstart ⊢
    cases hline : node.currentLine with
    | error failure =>
        rw [hline] at hstart
        exact absurd hstart (by simp)
    | ok line => exact .display (h.enter (hopen'.trans hopen.symm) hnode hnode') here _

theorem Akin.start (h : Akin session session') (title : String) :
    Move.Akin (session.start title) (session'.start title) := by
  cases hopen : session.finished with
  | true =>
      rw [Session.start, if_pos hopen, Session.start, if_pos (h.finished.trans hopen)]
      exact .refuse _
  | false =>
      rcases h.script.start_cases hopen (h.finished.trans hopen) title with
        ⟨entry, hrefused, hrefused'⟩ | ⟨key, node, henter, henter', hnode, hnode'⟩
      · rw [hrefused, hrefused']
        exact .refuse _
      · rw [henter, henter']
        exact h.enter hnode hnode'

/-- At its end a conversation is still at the node where it ended. -/
theorem Akin.endAt (h : Akin session session') (hphase : session.phase = .inNode key) :
    Akin (session.endAt key) (session'.endAt key) := by
  have hcurrent : ∀ {session : Session}, session.phase = .inNode key →
      (session.endAt key).currentNode? = session.currentNode? := by
    intro session hphase
    rw [currentNode?, currentNode?, hphase]
    rfl
  refine ⟨h.finished, h.script, rfl, ?_⟩
  rw [hcurrent hphase, hcurrent (h.phase.trans hphase), h.current]

theorem Akin.proceed (h : Akin session session') :
    Move.Akin session.proceed session'.proceed := by
  unfold Session.proceed
  rw [h.activeNode?]
  split
  · rw [h.ignored]
    exact .refuse _
  · rename_i key node hactive
    obtain ⟨-, hphase, hnode⟩ := activeNode?_eq_some hactive
    split
    · have hreset := reset_forward node
      have hstored := stored_of_inNode hphase hnode
      have hstored' := stored_of_inNode (h.phase.trans hphase) (h.current.trans hnode)
      exact .display (h.setNode ⟨node, hstored, hreset⟩ ⟨node, hstored', hreset⟩) key _
    · exact .ended (h.endAt hphase)

theorem Akin.follow (h : Akin session session') (hreset : config.resetOnOption = true)
    (option destination : String) :
    Move.Akin (session.follow config option destination)
      (session'.follow config option destination) := by
  cases hactive : session.activeNode? with
  | none =>
      have hactive' : session'.activeNode? = none := h.activeNode?.trans hactive
      rw [Session.follow, hactive, Session.follow, hactive', h.ignored]
      exact .refuse _
  | some active =>
      obtain ⟨here, now⟩ := active
      have hactive' : session'.activeNode? = some (here, now) := h.activeNode?.trans hactive
      by_cases hend : destination = config.endToken
      · rw [Session.follow, hactive, Session.follow, hactive']
        dsimp only
        rw [if_pos hend, if_pos hend]
        exact .ended (h.endAt (activeNode?_eq_some hactive).2.1)
      · rw [follow_of_active hactive hend, follow_of_active hactive' hend]
        rcases h.script.find? destination with
          ⟨hnone, hnone'⟩ | ⟨key, node, node', hfound, hfound', hsame⟩
        · rw [hnone, hnone']
          exact .refuse _
        · rw [hfound, hfound']
          dsimp only
          rw [if_pos hreset, if_pos hreset, hsame]
          exact h.enter ((fits_of_find? hfound).of_reset rfl)
            ((fits_of_find? hfound').of_reset hsame.symm)

end Session

end Parley
