import Parley.Proofs.Session.Placed

/-!
# The moves of a session

A move is refused, enters a node, goes on in it or ends the conversation (`start_cases`,
`proceed_cases`, `follow_cases`).  It changes nothing but the graph and the phase (`Frame`).  For
a session that is placed, `Comes` lists all that this can
be: it stays placed, loses no line, fails only at a node without lines, and shows the line that
its cursor is on.
-/

namespace Parley.Session

variable {session session' : Session} {graph : Graph} {key : String} {node stored : Node}

/-! ## Lines that stay -/

/-- A line that can be found in one session can be found in the other. -/
def KeepsLines (old new : Session) : Prop :=
  ∀ ref, (old.line? ref).isSome → (new.line? ref).isSome

theorem KeepsLines.refl (session : Session) : KeepsLines session session :=
  fun _ h => h

theorem KeepsLines.of_eq (hgraph : session'.graph = session.graph)
    (hshelved : session'.shelved = session.shelved) : KeepsLines session session' := by
  intro ref h
  rw [line?, graphAt?, graphs, hgraph, hshelved]
  exact h

theorem line?_isSome_iff {ref : LineRef} : (session.line? ref).isSome ↔
    ∃ graph node, session.graphAt? ref.graph = some graph ∧
      graph.nodes.get? ref.key = some node ∧ ref.index < node.size := by
  rw [Option.isSome_iff_exists]
  constructor
  · rintro ⟨line, hline⟩
    obtain ⟨graph, hgraph, hnode⟩ := Option.bind_eq_some_iff.mp hline
    obtain ⟨node, hget, hindex⟩ := Option.bind_eq_some_iff.mp hnode
    exact ⟨graph, node, hgraph, hget, (List.getElem?_eq_some_iff.mp hindex).1⟩
  · rintro ⟨graph, node, hgraph, hget, hindex⟩
    refine ⟨node.lines[ref.index], Option.bind_eq_some_iff.mpr ⟨graph, hgraph, ?_⟩⟩
    exact Option.bind_eq_some_iff.mpr ⟨node, hget, List.getElem?_eq_getElem hindex⟩

theorem graphAt?_generation (session : Session) :
    session.graphAt? session.generation = session.graph := by
  unfold graphAt? graphs generation
  cases session.graph <;> simp

/-- A line of a node of the present graph. -/
theorem line?_of_stored (hstored : session.graph.bind (·.nodes.get? key) = some stored)
    (s : SessionId) (n : Nat) :
    session.line? ⟨s, session.generation, key, n⟩ = stored.lines[n]? := by
  obtain ⟨graph, hgraph, hget⟩ := Option.bind_eq_some_iff.mp hstored
  rw [line?, graphAt?_generation, hgraph]
  dsimp only [Option.bind_eq_bind, Option.bind_some]
  rw [hget, Option.bind_some]

/-- Another number than the present one leads to the same graph after a change of nodes. -/
theorem graphAt?_setNode (session : Session) (key : String) (node : Node) (n : Nat) :
    (session.setNode key node).graphAt? n =
      if n = session.generation then (session.setNode key node).graph
      else session.graphAt? n := by
  split
  · rename_i h
    exact h ▸ graphAt?_generation (session.setNode key node)
  · rename_i h
    unfold graphAt? graphs setNode
    unfold generation at h
    rcases Nat.lt_or_gt_of_ne h with hlt | hgt
    · rw [List.getElem?_append_left hlt, List.getElem?_append_left hlt]
    -- Beyond the present graph there is none.
    · have hnone : ∀ last : Option Graph, (session.shelved ++ last.toList)[n]? = none := by
        intro last
        apply List.getElem?_eq_none
        have : last.toList.length ≤ 1 := by cases last <;> simp
        rw [List.length_append]
        omega
      rw [hnone, hnone]

theorem keepsLines_setNode (hstored : session.graph.bind (·.nodes.get? key) = some stored)
    (hsize : node.size = stored.size) : KeepsLines session (session.setNode key node) := by
  obtain ⟨graph, hgraph, hget⟩ := Option.bind_eq_some_iff.mp hstored
  intro ref h
  rw [line?_isSome_iff] at h ⊢
  obtain ⟨old, found, hold, hfound, hindex⟩ := h
  rw [graphAt?_setNode]
  by_cases hnow : ref.graph = session.generation
  · rw [hnow, graphAt?_generation, hgraph, Option.some.injEq] at hold
    subst hold
    rw [if_pos hnow, graph_setNode hgraph]
    refine ⟨_, if key = ref.key then node else found, rfl, ?_, ?_⟩
    · rw [Graph.modify, Table.get?_modify, hfound]
      split <;> rfl
    · split
      · rename_i hkey
        rw [← hkey, hget, Option.some.injEq] at hfound
        rw [hsize, hfound]
        exact hindex
      · exact hindex
  · rw [if_neg hnow]
    exact ⟨old, found, hold, hfound, hindex⟩

/-- The graphs used so far keep their numbers. -/
theorem keepsLines_replaceGraph (session : Session) (graph : Graph) :
    KeepsLines session (session.replaceGraph graph) := by
  intro ref h
  rw [line?_isSome_iff] at h ⊢
  obtain ⟨old, found, hold, hfound, hindex⟩ := h
  refine ⟨old, found, ?_, hfound, hindex⟩
  have hlength := (List.getElem?_eq_some_iff.mp hold).1
  rw [graphAt?] at hold
  exact (List.getElem?_append_left hlength).trans hold

/-- A line that can be found stays the same when another graph is loaded. -/
theorem line?_replaceGraph {ref : LineRef} {graph : Graph} (h : (session.line? ref).isSome) :
    (session.replaceGraph graph).line? ref = session.line? ref := by
  obtain ⟨old, node, hold, -, -⟩ := line?_isSome_iff.mp h
  have hlt : ref.graph < (session.shelved ++ session.graph.toList).length :=
    (List.getElem?_eq_some_iff.mp hold).1
  have hgraph : (session.replaceGraph graph).graphAt? ref.graph = session.graphAt? ref.graph :=
    List.getElem?_append_left hlt
  rw [line?, hgraph, line?]

/-! ## What a move comes to -/

/-- The moves that a session has, under any settings. -/
inductive Move.Of (session : Session) : Move → Prop
  | start (title : String) : Of session (session.start title)
  | proceed : Of session session.proceed
  | follow (config : Config) (option destination : String) :
      Of session (session.follow config option destination)

/-- The session after a move. -/
def Move.outcome (session : Session) : Move → Session
  | .refuse _ => session
  | .fail moved _ | .display moved _ _ | .ended moved => moved

theorem enter_of_pos (hcursor : node.cursor < node.size) : session.enter key node =
    .display { session.setNode key node with phase := .inNode key } key node.cursor := by
  have hlines : node.lines ≠ [] := List.ne_nil_of_length_pos (Nat.lt_of_le_of_lt (Nat.zero_le _)
    hcursor)
  rw [enter, Node.currentLine, if_neg (by simpa using hlines),
    List.getElem?_eq_getElem hcursor]

theorem enter_of_empty (h : node.size = 0) : session.enter key node =
    .fail (session.setNode key node) (.emptyNode node.title) := by
  have hlines : node.lines = [] := List.eq_nil_of_length_eq_zero h
  rw [enter, Node.currentLine, if_pos (by simp [hlines])]

theorem start_cases (session : Session) (title : String) :
    (∃ entry, session.start title = .refuse entry) ∨
      ∃ key stored, session.graph.bind (·.nodes.get? key) = some stored ∧
        session.start title = session.enter key stored.reset := by
  unfold start
  split
  · exact .inl ⟨_, rfl⟩
  · split
    · exact .inl ⟨_, rfl⟩
    · rename_i key stored heq
      obtain ⟨graph, hgraph, hfound⟩ := Option.bind_eq_some_iff.mp heq
      obtain ⟨found, hget, hpair⟩ := Option.map_eq_some_iff.mp hfound
      obtain ⟨rfl, rfl⟩ := Prod.mk.inj hpair
      exact .inr ⟨_, found, Option.bind_eq_some_iff.mpr ⟨graph, hgraph, hget⟩, rfl⟩

theorem activeNode?_eq_some (h : session.activeNode? = some (key, node)) :
    session.finished = false ∧ session.phase = .inNode key ∧
      session.currentNode? = some node := by
  unfold activeNode? at h
  split at h
  · exact absurd h (by simp)
  · rename_i hfinished
    split at h
    · rename_i here hphase
      obtain ⟨found, hcurrent, hpair⟩ := Option.map_eq_some_iff.mp h
      obtain ⟨rfl, rfl⟩ := Prod.mk.inj hpair
      exact ⟨by simpa using hfinished, hphase, hcurrent⟩
    · exact absurd h (by simp)

theorem proceed_cases (session : Session) :
    (∃ entry, session.proceed = .refuse entry) ∨
      ∃ key node, session.activeNode? = some (key, node) ∧
        (node.hasNextLine = true ∧ session.proceed =
            .display (session.setNode key node.forward) key node.forward.cursor ∨
          node.hasNextLine = false ∧ session.proceed = .ended (session.endAt key)) := by
  unfold proceed
  split
  · exact .inl ⟨_, rfl⟩
  · rename_i key node hactive
    refine .inr ⟨key, node, hactive, ?_⟩
    cases hnext : node.hasNextLine
    · exact .inr ⟨rfl, if_neg (by simp)⟩
    · exact .inl ⟨rfl, if_pos rfl⟩

theorem follow_cases (session : Session) (config : Config) (option destination : String) :
    (∃ entry, session.follow config option destination = .refuse entry) ∨
      ∃ here now, session.activeNode? = some (here, now) ∧
        (destination = config.endToken ∧
            session.follow config option destination = .ended (session.endAt here) ∨
          ∃ key stored node, session.graph.bind (·.nodes.get? key) = some stored ∧
            (node = stored ∨ node = stored.reset) ∧
            session.follow config option destination = session.enter key node) := by
  unfold follow
  split
  · exact .inl ⟨_, rfl⟩
  · rename_i here now hactive
    split
    · rename_i htoken
      exact .inr ⟨here, now, hactive, .inl ⟨htoken, rfl⟩⟩
    · split
      · exact .inl ⟨_, rfl⟩
      · rename_i key stored heq
        obtain ⟨graph, hgraph, hfound⟩ := Option.bind_eq_some_iff.mp heq
        obtain ⟨found, hget, hpair⟩ := Option.map_eq_some_iff.mp hfound
        obtain ⟨rfl, rfl⟩ := Prod.mk.inj hpair
        refine .inr ⟨here, now, hactive, .inr ⟨_, found, _,
          Option.bind_eq_some_iff.mpr ⟨graph, hgraph, hget⟩, ?_, rfl⟩⟩
        split
        · exact .inr rfl
        · exact .inl rfl

/-- A move changes nothing of a session but its graph and its phase. -/
def Frame (session : Session) (move : Move) : Prop :=
  ∃ graph phase, move.outcome session = { session with graph := graph, phase := phase }

theorem frame_enter (session : Session) (key : String) (node : Node) :
    Frame session (session.enter key node) := by
  unfold enter
  split
  · exact ⟨_, session.phase, rfl⟩
  · exact ⟨_, .inNode key, rfl⟩

theorem Move.Of.frame {move : Move} (h : Move.Of session move) : Frame session move := by
  cases h with
  | start title =>
      rcases start_cases session title with ⟨entry, heq⟩ | ⟨key, stored, -, heq⟩ <;> rw [heq]
      · exact ⟨session.graph, session.phase, rfl⟩
      · exact frame_enter session key stored.reset
  | proceed =>
      rcases proceed_cases session with
        ⟨entry, heq⟩ | ⟨key, node, -, ⟨-, heq⟩ | ⟨-, heq⟩⟩ <;> rw [heq]
      · exact ⟨session.graph, session.phase, rfl⟩
      · exact ⟨_, session.phase, rfl⟩
      · exact ⟨session.graph, .ended key, rfl⟩
  | follow config option destination =>
      rcases follow_cases session config option destination with
        ⟨entry, heq⟩ | ⟨here, now, -, ⟨-, heq⟩ | ⟨key, stored, node, -, -, heq⟩⟩ <;> rw [heq]
      · exact ⟨session.graph, session.phase, rfl⟩
      · exact ⟨session.graph, .ended here, rfl⟩
      · exact frame_enter session key node

theorem Frame.bus_eq {move : Move} (h : Frame session move) :
    (move.outcome session).bus = session.bus := by
  obtain ⟨graph, phase, heq⟩ := h
  rw [heq]

theorem Frame.actions_eq {move : Move} (h : Frame session move) :
    (move.outcome session).actions = session.actions := by
  obtain ⟨graph, phase, heq⟩ := h
  rw [heq]

theorem Frame.display_eq {move : Move} (h : Frame session move) :
    (move.outcome session).display = session.display := by
  obtain ⟨graph, phase, heq⟩ := h
  rw [heq]

theorem Frame.finished_eq {move : Move} (h : Frame session move) :
    (move.outcome session).finished = session.finished := by
  obtain ⟨graph, phase, heq⟩ := h
  rw [heq]

/-! ## Moves of a placed session -/

/-- What a move of a placed session comes to. -/
inductive Comes (session : Session) : Move → Prop
  | refused (entry : LogEntry) : Comes session (.refuse entry)
  | stuck {key : String} {stored node : Node}
      (hstored : session.graph.bind (·.nodes.get? key) = some stored)
      (hsize : node.size = stored.size) (hempty : node.size = 0) :
      Comes session (.fail (session.setNode key node) (.emptyNode node.title))
  | entered {key : String} {stored node : Node}
      (hstored : session.graph.bind (·.nodes.get? key) = some stored)
      (hsize : node.size = stored.size) (hcursor : node.cursor < node.size) :
      Comes session
        (.display { session.setNode key node with phase := .inNode key } key node.cursor)
  | forward {key : String} {node : Node} (hphase : session.phase = .inNode key)
      (hnode : session.currentNode? = some node) (hnext : node.cursor + 1 < node.size) :
      Comes session (.display (session.setNode key node.forward) key node.forward.cursor)
  | ended {key : String} (hphase : session.phase = .inNode key) :
      Comes session (.ended (session.endAt key))

theorem Placed.comes_enter (h : session.Placed)
    (hstored : session.graph.bind (·.nodes.get? key) = some stored)
    (hnode : node = stored ∨ node = stored.reset) : Comes session (session.enter key node) := by
  obtain ⟨graph, hgraph, hget⟩ := Option.bind_eq_some_iff.mp hstored
  have hsize : node.size = stored.size := by rcases hnode with rfl | rfl <;> rfl
  rcases Nat.eq_zero_or_pos node.size with hempty | hpos
  · exact enter_of_empty hempty ▸ .stuck hstored hsize hempty
  · have hcursor : node.cursor < node.size := by
      rcases hnode with rfl | rfl
      · exact h.inBounds graph hgraph key node hget hpos
      · exact hpos
    exact enter_of_pos hcursor ▸ .entered hstored hsize hcursor

theorem Move.Of.comes {move : Move} (hmove : Move.Of session move) (h : session.Placed) :
    Comes session move := by
  cases hmove with
  | start title =>
      rcases start_cases session title with ⟨entry, heq⟩ | ⟨key, stored, hstored, heq⟩
      · exact heq ▸ .refused entry
      · exact heq ▸ h.comes_enter hstored (.inr rfl)
  | proceed =>
      rcases proceed_cases session with ⟨entry, heq⟩ | ⟨key, node, hactive, hcases⟩
      · exact heq ▸ .refused entry
      · obtain ⟨-, hphase, hnode⟩ := activeNode?_eq_some hactive
        rcases hcases with ⟨hnext, heq⟩ | ⟨-, heq⟩
        · exact heq ▸ .forward hphase hnode (by simpa [Node.hasNextLine] using hnext)
        · exact heq ▸ .ended hphase
  | follow config option destination =>
      rcases follow_cases session config option destination with
        ⟨entry, heq⟩ | ⟨here, now, hactive, ⟨-, heq⟩ | ⟨key, stored, node, hstored, hnode, heq⟩⟩
      · exact heq ▸ .refused entry
      · exact heq ▸ .ended (activeNode?_eq_some hactive).2.1
      · exact heq ▸ h.comes_enter hstored hnode

/-- The current node of a session that is in a node is stored under the key of its phase. -/
theorem stored_of_inNode (hphase : session.phase = .inNode key)
    (hnode : session.currentNode? = some node) :
    session.graph.bind (·.nodes.get? key) = some node := by
  obtain ⟨graph, here, hgraph, hhere, hget⟩ := currentNode?_eq_some_iff.mp hnode
  obtain rfl : key = here := by simpa [hphase, Phase.key?] using hhere
  exact Option.bind_eq_some_iff.mpr ⟨graph, hgraph, hget⟩

variable {move : Move}

theorem Comes.placed (hmove : Comes session move) (h : session.Placed) :
    (move.outcome session).Placed := by
  cases hmove with
  | refused entry => exact h
  | stuck hstored hsize hempty => exact h.setNode hstored hsize (by omega)
  | @entered key stored node hstored hsize hcursor =>
      have hplaced := h.setNode hstored hsize fun _ => hcursor
      exact ⟨fun here _ => ⟨node, currentNode?_enter hstored, Nat.zero_lt_of_lt hcursor⟩,
        hplaced.inBounds⟩
  | @forward key node hphase hnode hnext =>
      have hsize : node.forward.size = node.size := by rw [Node.size, Node.lines_forward]; rfl
      refine h.setNode (stored_of_inNode hphase hnode) hsize fun _ => ?_
      rw [Node.cursor_forward, if_pos (by omega), hsize]
      exact hnext
  | @ended key hphase =>
      have hkey : session.phase.key? = (session.endAt key).phase.key? := by rw [hphase]; rfl
      refine ⟨fun here hhere => ?_, h.inBounds⟩
      obtain ⟨node, hnode, hpos⟩ := h.current here (hkey.trans hhere)
      refine ⟨node, ?_, hpos⟩
      show (session.endAt key).currentNode? = some node
      rw [currentNode?, ← hkey]
      exact hnode

theorem Comes.keepsLines (hmove : Comes session move) :
    KeepsLines session (move.outcome session) := by
  cases hmove with
  | refused entry => exact .refl session
  | stuck hstored hsize hempty => exact keepsLines_setNode hstored hsize
  | entered hstored hsize hcursor =>
      exact fun ref href => keepsLines_setNode hstored hsize ref href
  | forward hphase hnode hnext =>
      refine keepsLines_setNode (stored_of_inNode hphase hnode) ?_
      rw [Node.size, Node.lines_forward]
      rfl
  | ended hphase => exact .of_eq rfl rfl

/-- The only failure is that of a node without lines. -/
theorem Comes.failure_eq {moved : Session} {failure : Failure}
    (hmove : Comes session (.fail moved failure)) : ∃ title, failure = .emptyNode title := by
  cases hmove with
  | stuck hstored hsize hempty => exact ⟨_, rfl⟩

/-- The line that a move shows is the one that the cursor is on. -/
theorem Comes.shown {moved : Session} {index : Nat}
    (hmove : Comes session (.display moved key index)) :
    moved.phase = .inNode key ∧
      ∃ node, moved.currentNode? = some node ∧ node.cursor = index ∧ index < node.size := by
  cases hmove with
  | @entered _ stored node hstored hsize hcursor =>
      exact ⟨rfl, node, currentNode?_enter hstored, rfl, hcursor⟩
  | @forward _ node hphase hnode hnext =>
      refine ⟨hphase, node.forward, ?_, rfl, ?_⟩
      · rw [currentNode?_setNode (stored_of_inNode hphase hnode), if_pos (by rw [hphase]; rfl)]
      · rw [Node.cursor_forward, if_pos (by omega), Node.size, Node.lines_forward]
        exact hnext

/-- The line that a move shows can be found. -/
theorem Comes.line?_isSome {moved : Session} {index : Nat}
    (hmove : Comes session (.display moved key index)) (s : SessionId) :
    (moved.line? ⟨s, moved.generation, key, index⟩).isSome := by
  obtain ⟨hphase, node, hnode, -, hindex⟩ := hmove.shown
  obtain ⟨graph, hgraph, hget⟩ := Option.bind_eq_some_iff.mp (stored_of_inNode hphase hnode)
  rw [line?_isSome_iff]
  exact ⟨graph, node, (graphAt?_generation moved).trans hgraph, hget, hindex⟩

end Parley.Session
