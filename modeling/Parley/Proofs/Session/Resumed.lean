import Parley.Proofs.Session.Story
import Parley.Proofs.Session.Whereabouts

/-!
# An option resumes its destination

A session that is told not to reset the destination of an option goes on there where it left off:
it shows the line of the node that it displayed last, or the first line of a node of which it has
displayed none (`option_resumes`).

## Strategy

The cursor of every node that has lines is kept in step with the history of the display, whatever
the settings (`Marked`).  Between a move and the display of its line the history lags behind, so a
line that waits counts as the latest of its node.  A move that leads to a line sets one cursor and
makes that line wait.  No other step moves a cursor or changes what is the latest line of a node,
as long as at most one line waits and none is lost; and the nodes of a graph that has been loaded
since cannot have been displayed.
-/

namespace Parley

/-- Whether a line belongs to a node of one of the graphs of its session. -/
def LineRef.isOf (generation : ℕ) (key : String) (line : LineRef) : Bool :=
  line.graph = generation && line.key = key

/-- The line that a display move leads to is the one the cursor of its node is on; the other
nodes stay as they are. -/
theorem Session.Comes.stored {session moved : Session} {key other : String} {index : ℕ}
    {node : Node} (hcomes : Session.Comes session (.display moved key index))
    (hnode : moved.graph.bind (·.nodes.get? other) = some node) :
    key = other ∧ node.cursor = index ∨
      key ≠ other ∧ session.graph.bind (·.nodes.get? other) = some node := by
  have hset : ∀ {stored changed : Node},
      session.graph.bind (·.nodes.get? key) = some stored →
      (session.setNode key changed).graph.bind (·.nodes.get? other) = some node →
      key = other ∧ node.cursor = changed.cursor ∨
        key ≠ other ∧ session.graph.bind (·.nodes.get? other) = some node := by
    intro stored changed hstored hfound
    rw [Session.stored_setNode hstored] at hfound
    split at hfound
    · rename_i hkey
      rw [Option.some.inj hfound]
      exact .inl ⟨hkey, rfl⟩
    · rename_i hkey
      exact .inr ⟨hkey, hfound⟩
  cases hcomes with
  | entered hstored hsize hcursor => exact hset hstored hnode
  | forward hphase hcurrent hnext => exact hset (stored_of_inNode hphase hcurrent) hnode

theorem Session.Comes.generation {session moved : Session} {key : String} {index : ℕ}
    (hcomes : Session.Comes session (.display moved key index)) :
    moved.generation = session.generation := by
  cases hcomes <;> rfl

/-- Without a reset, an option leads to the line that the cursor of its destination is on. -/
theorem Session.stored_of_follow {session moved : Session} {config : Config}
    {option destination key : String} {index : ℕ} (hreset : config.resetOnOption = false)
    (henters : session.follow config option destination = .display moved key index) :
    session.graph.map (fun graph => graph.key destination) = some key ∧
      ∃ stored, session.graph.bind (·.nodes.get? key) = some stored ∧ 0 < stored.size ∧
        stored.cursor = index := by
  unfold follow at henters
  split at henters
  · exact absurd henters (by simp)
  · split at henters
    · exact absurd henters (by simp)
    · split at henters
      · exact absurd henters (by simp)
      · rename_i there stored hfound
        obtain ⟨graph, hgraph, hpair⟩ := Option.bind_eq_some_iff.mp hfound
        obtain ⟨node, hget, hsame⟩ := Option.map_eq_some_iff.mp hpair
        obtain ⟨rfl, rfl⟩ := Prod.mk.inj hsame
        rw [if_neg (by simp [hreset])] at henters
        have hstored : session.graph.bind (·.nodes.get? (graph.key destination)) = some node :=
          Option.bind_eq_some_iff.mpr ⟨graph, hgraph, hget⟩
        unfold enter at henters
        split at henters
        · exact absurd henters (by simp)
        · rename_i line hline
          obtain ⟨-, rfl, rfl⟩ := Move.display.inj henters
          refine ⟨by rw [hgraph]; rfl, node, hstored, ?_, rfl⟩
          refine List.length_pos_of_ne_nil fun hnil => ?_
          rw [Node.currentLine, hnil] at hline
          exact absurd hline (by simp)

namespace Machine

variable {x : ℕ → Machine} {m : Machine} {s : SessionId} {session session' : Session} {i n : ℕ}
  {generation : ℕ} {key : String} {line : LineRef}

/-- The line of a node that its session displayed last. -/
def lastShownOf (s : SessionId) (generation : ℕ) (key : String) (x : ℕ → Machine) :
    ℕ → Option LineRef
  | 0 => none
  | i + 1 => ((displayed s (x i)).filter (LineRef.isOf generation key)).or
      (lastShownOf s generation key x i)

/-- The line of a node that its session has come to last: one that waits, or else the one that
was displayed last. -/
def latest (s : SessionId) (generation : ℕ) (key : String) (x : ℕ → Machine) (i : ℕ) :
    Option LineRef :=
  ((Task.waiting s (x i).agenda).find? (LineRef.isOf generation key)).or
    (lastShownOf s generation key x i)

theorem session_of_displayed (h : displayed s m = some line) : line.session = s := by
  unfold displayed at h
  split at h
  · split at h
    · rename_i heq
      exact Option.some.inj h ▸ heq
    · exact absurd h (by simp)
  · exact absurd h (by simp)

theorem displayed_of_moves {move : Session.Move} (h : Moves s m session move) :
    displayed s m = none := by
  cases h with
  | start hhead => rw [displayed, hhead]
  | proceed hhead => rw [displayed, hhead]
  | follow hhead => rw [displayed, hhead]

theorem eq_of_lastShownOf (h : lastShownOf s generation key x i = some line) :
    line = ⟨s, generation, key, line.index⟩ := by
  induction i with
  | zero => exact absurd h (by simp [lastShownOf])
  | succ i ih =>
      rcases Option.or_eq_some_iff.mp h with hnow | ⟨-, hbefore⟩
      · obtain ⟨hdisplayed, hof⟩ := Option.filter_eq_some_iff.mp hnow
        rw [LineRef.isOf, Bool.and_eq_true, decide_eq_true_eq, decide_eq_true_eq] at hof
        rw [← session_of_displayed hdisplayed, ← hof.1, ← hof.2]
      · exact ih hbefore

/-! ## What one step changes -/

/-- Unless it leads to a line, a step leaves the cursors of the nodes that have lines where they
are, or brings in a graph whose cursors are at the first line. -/
theorem Passage.cursor (h : Passage s m session session') (hplaced : session.Placed)
    (hmeddles : meddles s m = false)
    (hmoves : ∀ moved key index, ¬ Moves s m session (.display moved key index)) {node : Node}
    (hnode : session'.graph.bind (·.nodes.get? key) = some node) (hsize : 0 < node.size) :
    (session'.generation = session.generation ∧
        ∃ stored, session.graph.bind (·.nodes.get? key) = some stored ∧ 0 < stored.size ∧
          node.cursor = stored.cursor) ∨
      session.graphAt? session'.generation = none ∧ node.cursor = 0 := by
  have hsame : session'.graph = session.graph → session'.shelved = session.shelved →
      session'.generation = session.generation ∧
        ∃ stored, session.graph.bind (·.nodes.get? key) = some stored ∧ 0 < stored.size ∧
          node.cursor = stored.cursor := by
    intro hgraph hshelved
    exact ⟨congrArg List.length hshelved, node, hgraph ▸ hnode, hsize, rfl⟩
  cases h with
  | aside h =>
      exact .inl (hsame (congrArg Standing.graph h) (congrArg Standing.shelved h))
  | @moved move hmove h =>
      have hcomes := hmove.of.comes hplaced
      cases hcomes with
      | refused entry => exact .inl (hsame (by rw [h]; rfl) (by rw [h]; rfl))
      | entered hstored hsize hcursor => exact absurd hmove (hmoves _ _ _)
      | forward hphase hcurrent hnext => exact absurd hmove (hmoves _ _ _)
      | ended hphase => exact .inl (hsame (by rw [h]; rfl) (by rw [h]; rfl))
      | @stuck empty stored changed hstored hsame hempty =>
          rw [h] at hnode
          change (session.setNode empty changed).graph.bind (·.nodes.get? key) = some node at hnode
          rw [Session.stored_setNode hstored] at hnode
          split at hnode
          · rw [← Option.some.inj hnode] at hsize
            omega
          · exact .inl ⟨by rw [h]; rfl, node, hnode, hsize, rfl⟩
  | @loaded data start graph hhead hgraph h =>
      subst h
      refine .inr ⟨List.getElem?_eq_none (le_refl _), hgraph key node ?_⟩
      simpa using hnode
  | finished hhead h =>
      exact .inl (hsame (congrArg Standing.graph h) (congrArg Standing.shelved h))
  | @edited _ _ step place stored changed _ hhead hname hstored hrun h =>
      have hstep : step.movesCursor = false := by
        simpa [meddles, hhead, hname] using hmeddles
      obtain ⟨hlines, hcursor⟩ := NodeStep.size_cursor_of_run hrun hstep
      subst h
      rw [Session.stored_setNode hstored] at hnode
      split at hnode
      · rename_i hkey
        rw [← Option.some.inj hnode] at hsize ⊢
        exact .inl ⟨rfl, stored, hkey ▸ hstored, by omega, hcursor⟩
      · exact .inl ⟨rfl, node, hnode, hsize, rfl⟩

/-- Unless a move leads to a line, what is the latest line of a node stays so: it goes on waiting
or is displayed. -/
theorem latest_succ_of_flow (hflow : Flow s (x i)) (hstep : x (i + 1) = (x i).step)
    (hmoves : ∀ session moved key index, (x i).world.session? s = some session →
      ¬ Moves s (x i) session (.display moved key index))
    (hone : (Task.waiting s (x i).agenda).length ≤ 1)
    (hlost : Task.waiting s (x i).agenda ≠ [] →
      Task.waiting s (x (i + 1)).agenda ≠ [] ∨ (displayed s (x i)).isSome) :
    latest s generation key x (i + 1) = latest s generation key x i := by
  cases hflow with
  | adds hdisplayed hs hmove => exact absurd hmove (hmoves _ _ _ _ hs)
  | stays hdisplayed hwaiting =>
      rw [latest, lastShownOf, hdisplayed, hstep, hwaiting]
      rfl
  | @shows shown hdisplayed hwaiting =>
      rw [hwaiting, List.length_cons] at hone
      have hnil : Task.waiting s (x i).step.agenda = [] :=
        List.eq_nil_of_length_eq_zero (by omega)
      rw [latest, lastShownOf, hdisplayed, hstep, latest, hwaiting, hnil]
      cases hof : shown.isOf generation key <;> simp [Option.filter, hof]
  | loses hdisplayed hsuffix =>
      have hsame : Task.waiting s (x (i + 1)).agenda = Task.waiting s (x i).agenda := by
        rw [← hstep] at hsuffix
        refine hsuffix.eq_of_length_le ?_
        by_cases hnil : Task.waiting s (x i).agenda = []
        · simp [hnil]
        · have hleft := (hlost hnil).resolve_right (by simp [hdisplayed])
          have := List.length_pos_of_ne_nil hleft
          omega
      rw [latest, lastShownOf, hdisplayed, hsame]
      rfl

/-! ## Every line that is displayed can be found -/

theorem Execution.found_of_lastShownOf (h : Execution x)
    (hfresh : ∀ session, (x 0).world.session? s = some session → session.Fresh)
    (hleft : ∀ i < n, meddles s (x i) = false) (hi : i ≤ n)
    (hline : lastShownOf s generation key x i = some line) :
    ∃ session, (x i).world.session? s = some session ∧ (session.line? line).isSome := by
  induction i with
  | zero => exact absurd hline (by simp [lastShownOf])
  | succ i ih =>
      have hsettled := h.settled hfresh hleft (Nat.le_of_lt hi)
      have hbefore : ∃ session, (x i).world.session? s = some session ∧
          (session.line? line).isSome := by
        rcases Option.or_eq_some_iff.mp hline with hnow | ⟨-, hearlier⟩
        · obtain ⟨hdisplayed, -⟩ := Option.filter_eq_some_iff.mp hnow
          cases (h.reachable i).sound.flow s with
          | shows hshown hflow =>
              obtain rfl := Option.some.inj (hshown.symm.trans hdisplayed)
              exact hsettled.waiting _ (hflow ▸ List.mem_cons_self)
          | stays hnone => exact absurd (hnone.symm.trans hdisplayed) (by simp)
          | adds hnone => exact absurd (hnone.symm.trans hdisplayed) (by simp)
          | loses hnone => exact absurd (hnone.symm.trans hdisplayed) (by simp)
        · exact ih (by omega) hearlier
      obtain ⟨session, hs, hfound⟩ := hbefore
      obtain ⟨session', hs', hpassage⟩ :=
        ((h.reachable i).sound.passes_next (h.next i) s).passage session hs
      have hkeeps := (hpassage.keeps (hsettled.placed session hs) (hleft i (by omega))).2
      exact ⟨session', hs', hkeeps line hfound⟩

theorem Execution.found_of_latest (h : Execution x)
    (hfresh : ∀ session, (x 0).world.session? s = some session → session.Fresh)
    (hleft : ∀ i < n, meddles s (x i) = false) (hi : i ≤ n)
    (hline : latest s generation key x i = some line) :
    line.graph = generation ∧
      ∃ session, (x i).world.session? s = some session ∧ (session.line? line).isSome := by
  rcases Option.or_eq_some_iff.mp hline with hwaits | ⟨-, hshown⟩
  · have hof := List.find?_some hwaits
    rw [LineRef.isOf, Bool.and_eq_true, decide_eq_true_eq] at hof
    exact ⟨hof.1, (h.settled hfresh hleft hi).waiting line (List.mem_of_find?_eq_some hwaits)⟩
  · refine ⟨?_, h.found_of_lastShownOf hfresh hleft hi hshown⟩
    rw [eq_of_lastShownOf hshown]

/-! ## Cursors and the display -/

/-- The cursor of every node that has lines is on the latest line of that node, or on the first
if there is no latest one. -/
def Marked (s : SessionId) (x : ℕ → Machine) (i : ℕ) : Prop :=
  ∀ session key node, (x i).world.session? s = some session →
    session.graph.bind (·.nodes.get? key) = some node → 0 < node.size →
    node.cursor = (latest s session.generation key x i).elim 0 LineRef.index

/-- A move that leads to a line makes it the latest of its node. -/
theorem Marked.display {moved : Session} {key : String} {index : ℕ} (h : Marked s x i)
    (hstep : x (i + 1) = (x i).step) (hs : (x i).world.session? s = some session)
    (hplaced : session.Placed) (hmove : Moves s (x i) session (.display moved key index))
    (hone : (Task.waiting s (x (i + 1)).agenda).length ≤ 1) : Marked s x (i + 1) := by
  intro session' other node hs' hnode hsize
  have hleads := leads_of_display hs hmove
  have hwaiting := hleads.waiting s
  rw [← hstep, if_pos rfl] at hwaiting
  obtain rfl : session' = moved := by
    have hmoved := hleads.session
    rw [← hstep] at hmoved
    exact Option.some.inj (hs'.symm.trans hmoved)
  rw [hwaiting, List.length_cons] at hone
  have hnil : Task.waiting s (x i).agenda = [] := List.eq_nil_of_length_eq_zero (by omega)
  have hdisplayed : displayed s (x i) = none := displayed_of_moves hmove
  have hcomes := hmove.of.comes hplaced
  rw [latest, lastShownOf, hdisplayed, hwaiting, hnil]
  rcases hcomes.stored hnode with ⟨rfl, hcursor⟩ | ⟨hne, hstored⟩
  · rw [List.find?_cons_of_pos (by simp [LineRef.isOf])]
    exact hcursor
  · have hbefore := h session other node hs hstored hsize
    rw [latest, hnil] at hbefore
    rw [List.find?_cons_of_neg (by simp [LineRef.isOf, hne]), hcomes.generation]
    exact hbefore

theorem Marked.step (h : Marked s x i) (hx : Execution x)
    (hfresh : ∀ session, (x 0).world.session? s = some session → session.Fresh)
    (hleft : ∀ i < n, meddles s (x i) = false) (hi : i < n)
    (hstep : x (i + 1) = (x i).step)
    (hone : ∀ i ≤ n, (Task.waiting s (x i).agenda).length ≤ 1)
    (hlost : Task.waiting s (x i).agenda ≠ [] →
      Task.waiting s (x (i + 1)).agenda ≠ [] ∨ (displayed s (x i)).isSome) :
    Marked s x (i + 1) := by
  have hsound := (hx.reachable i).sound
  have hsettled := hx.settled hfresh hleft (Nat.le_of_lt hi)
  by_cases hmoves : ∃ session moved key index, (x i).world.session? s = some session ∧
      Moves s (x i) session (.display moved key index)
  · obtain ⟨session, moved, key, index, hs, hmove⟩ := hmoves
    exact h.display hstep hs (hsettled.placed session hs) hmove (hone (i + 1) hi)
  · have hnone : ∀ session moved key index, (x i).world.session? s = some session →
        ¬ Moves s (x i) session (.display moved key index) :=
      fun session moved key index hs hmove => hmoves ⟨session, moved, key, index, hs, hmove⟩
    intro session' key node hs' hnode hsize
    rw [latest_succ_of_flow (hsound.flow s) hstep hnone (hone i (Nat.le_of_lt hi)) hlost]
    -- No line of a graph that has just come in can have been displayed, nor can it wait.
    have hnever : ∀ generation, (∀ session, (x i).world.session? s = some session →
        session.graphAt? generation = none) → latest s generation key x i = none := by
      intro generation hnew
      refine Option.eq_none_iff_forall_not_mem.mpr fun line hline => ?_
      obtain ⟨rfl, session, hs, hfound⟩ :=
        hx.found_of_latest hfresh hleft (Nat.le_of_lt hi) hline
      obtain ⟨graph, -, hgraph, -⟩ := Session.line?_isSome_iff.mp hfound
      exact absurd (hgraph.symm.trans (hnew session hs)) (by simp)
    have hpasses := hsound.passes s
    rw [← hstep] at hpasses
    cases hs : (x i).world.session? s with
    | none =>
        obtain ⟨graph, hgraph, hget⟩ := Option.bind_eq_some_iff.mp hnode
        rw [hnever _ fun session hsession => absurd (hs.symm.trans hsession) (by simp)]
        exact (hpasses.fresh session' hs hs').unread graph hgraph key node hget
    | some session =>
        obtain ⟨found, hfound, hpassage⟩ := hpasses.passage session hs
        obtain rfl : session' = found := Option.some.inj (hs'.symm.trans hfound)
        rcases hpassage.cursor (hsettled.placed session hs) (hleft i hi)
            (fun moved key index => hnone session moved key index hs) hnode hsize with
          ⟨hgeneration, stored, hstored, hpos, hcursor⟩ | ⟨hnew, hcursor⟩
        · rw [hcursor, hgeneration]
          exact h session key stored hs hstored hpos
        · rw [hcursor, hnever]
          · rfl
          · intro found hfound
            rw [← Option.some.inj (hs.symm.trans hfound)]
            exact hnew

theorem Marked.host {step : Step} (h : Marked s x i) (hagenda : (x i).agenda = [])
    (hstep : x (i + 1) = { world := (x i).world, agenda := [.perform step] }) :
    Marked s x (i + 1) := by
  intro session key node hs hnode hsize
  rw [hstep] at hs
  have hbefore := h session key node hs hnode hsize
  rw [latest, hagenda] at hbefore
  rw [latest, lastShownOf, displayed, hagenda, hstep]
  exact hbefore

theorem Execution.marked (h : Execution x)
    (hfresh : ∀ session, (x 0).world.session? s = some session → session.Fresh)
    (hleft : ∀ i < n, meddles s (x i) = false)
    (hone : ∀ i ≤ n, (Task.waiting s (x i).agenda).length ≤ 1)
    (hlost : ∀ i < n, Task.waiting s (x i).agenda ≠ [] →
      Task.waiting s (x (i + 1)).agenda ≠ [] ∨ (displayed s (x i)).isSome) (hi : i ≤ n) :
    Marked s x i := by
  induction i with
  | zero =>
      intro session key node hs hnode hsize
      obtain ⟨graph, hgraph, hget⟩ := Option.bind_eq_some_iff.mp hnode
      rw [latest, lastShownOf, h.initial.agenda]
      exact (hfresh session hs).unread graph hgraph key node hget
  | succ i ih =>
      generalize hnext : x (i + 1) = m
      cases (hnext ▸ h.next i : Next (x i) m) with
      | step =>
          exact (ih (by omega)).step h hfresh hleft hi hnext hone (hlost i hi)
      | host hagenda step => exact (ih (by omega)).host hagenda hnext

/-- Following an option that leads to a line has its session display that line. -/
theorem Execution.displayed_of_follow (h : Execution x) {option destination : String}
    {moved : Session} {index : ℕ} (hhead : (x i).agenda.head? = some (.follow s option destination))
    (hs : (x i).world.session? s = some session)
    (henters : session.follow ((x i).world.configOf session) option destination =
      .display moved key index) :
    displayed s (x (i + 2)) = some ⟨s, moved.generation, key, index⟩ := by
  obtain ⟨rest, hagenda⟩ := List.head?_eq_some_iff.mp hhead
  have hmove : Moves s (x i) session (.display moved key index) := henters ▸ .follow hhead
  have hmoved := (leads_of_display hs hmove).session
  have hpresents : (x i).step.agenda = .present s ⟨s, moved.generation, key, index⟩ :: rest := by
    have henters' : session.follow (World.configOf { x i with agenda := rest }.world session)
        option destination = .display moved key index := henters
    rw [step_eq hagenda]
    simp only [exec, follow, hs, henters', carryOut]
    rfl
  have hfirst : x (i + 1) = (x i).step := h.eq_step (by rw [hagenda]; simp)
  rw [← hfirst] at hmoved hpresents
  have hsecond : x (i + 2) = (x (i + 1)).step := h.eq_step (by rw [hpresents]; simp)
  have hshows : (x (i + 2)).agenda.head? =
      some (.showLine moved.display ⟨s, moved.generation, key, index⟩) := by
    rw [hsecond, step_eq hpresents]
    simp only [exec, present, hmoved]
    rfl
  rw [displayed, hshows]
  exact if_pos rfl

/-- If the lines of a session wait one at a time, and none of them is lost, then an option that
does not reset its destination and leads to a node has the session display the line of that node
that it displayed last, or the first line if it has displayed none. -/
theorem option_resumes (h : Execution x)
    (hfresh : ∀ session, (x 0).world.session? s = some session → session.Fresh)
    (hleft : ∀ i < n, meddles s (x i) = false)
    (hone : ∀ i ≤ n, (Task.waiting s (x i).agenda).length ≤ 1)
    (hlost : ∀ i < n, Task.waiting s (x i).agenda ≠ [] →
      Task.waiting s (x (i + 1)).agenda ≠ [] ∨ (displayed s (x i)).isSome)
    {option destination : String} {moved : Session} {index : ℕ} (hi : i < n)
    (hhead : (x i).agenda.head? = some (.follow s option destination))
    (hs : (x i).world.session? s = some session)
    (hreset : ((x i).world.configOf session).resetOnOption = false)
    (henters : session.follow ((x i).world.configOf session) option destination =
      .display moved key index) :
    session.graph.map (fun graph => graph.key destination) = some key ∧
      displayed s (x (i + 2)) = some ((lastShownOf s session.generation key x i).getD
        ⟨s, session.generation, key, 0⟩) := by
  obtain ⟨hkey, stored, hstored, hsize, hcursor⟩ := Session.stored_of_follow hreset henters
  have hmove : Moves s (x i) session (.display moved key index) := henters ▸ .follow hhead
  have hplaced := (h.settled hfresh hleft hi.le).placed session hs
  have hgeneration := (hmove.of.comes hplaced).generation
  -- The line would be the second to wait if there were one.
  have hnil : Task.waiting s (x i).agenda = [] := by
    have hwaiting := (leads_of_display hs hmove).waiting s
    have hnext := hone (i + 1) hi
    have hne : (x i).agenda ≠ [] := fun hnil => absurd hhead (by simp [hnil])
    rw [h.eq_step hne, hwaiting, if_pos rfl, List.length_cons] at hnext
    exact List.eq_nil_of_length_eq_zero (by omega)
  have hmarked := h.marked hfresh hleft hone hlost hi.le session key stored hs hstored hsize
  rw [latest, hnil, List.find?_nil, Option.none_or, hcursor] at hmarked
  refine ⟨hkey, ?_⟩
  rw [h.displayed_of_follow hhead hs henters, hgeneration, hmarked]
  cases hlast : lastShownOf s session.generation key x i with
  | none => rfl
  | some line =>
      rw [Option.getD_some, eq_of_lastShownOf hlast]
      rfl

/-- A host that leaves a node at its second line and comes back to it by an option. -/
def returning : ℕ → Machine :=
  course { world := World.ofHandlers [] }
    [.newDisplay "c" "c" (.recording {} false),
      .newSession "s" "c" (some (.object [("reset_on_option", .bool false)])) (.graph (some
        (.array [.object [("title", .string "A"), ("body", .string "one\ntwo\nthree")],
          .object [("title", .string "B"), ("body", .string "four\nfive")]]))),
      .session "s" (.start "A"),
      .session "s" .proceed,
      .session "s" (.follow "there" "B"),
      .session "s" (.follow "back" "A")]

theorem option_resumes_returning :
    Execution returning ∧ (∀ i ≤ 60, (Task.waiting ⟨0⟩ (returning i).agenda).length ≤ 1) ∧
      displayed ⟨0⟩ (returning 61) = some ⟨⟨0⟩, 0, "A", 1⟩ := by
  have h : Execution returning := execution_course (initial_ofHandlers _) _
  have hnew : (returning 0).world.session? ⟨0⟩ = none := rfl
  have hone : ∀ i ≤ 60, (Task.waiting ⟨0⟩ (returning i).agenda).length ≤ 1 := by decide +kernel
  have hsession : ((returning 59).world.session? ⟨0⟩).any (fun session =>
      session.generation = 0 && !((returning 59).world.configOf session).resetOnOption &&
        session.graph.map (fun graph => graph.key "A") = some "A" &&
        (session.follow ((returning 59).world.configOf session) "back" "A").line?.isSome) =
      true := by
    decide +kernel
  obtain ⟨session, hs, hfound⟩ := (Option.any_eq_true ..).mp hsession
  cases hfollow : session.follow ((returning 59).world.configOf session) "back" "A" with
  | display moved key index =>
      simp only [Bool.and_eq_true, decide_eq_true_eq, Bool.not_eq_true'] at hfound
      obtain ⟨⟨⟨hgeneration, hreset⟩, hnode⟩, -⟩ := hfound
      obtain ⟨hkey, hdisplayed⟩ := option_resumes (n := 60) h
        (fun session hs => absurd (hnew.symm.trans hs) (by simp)) (by decide +kernel) hone
        (by decide +kernel) (by omega) rfl hs hreset hfollow
      obtain rfl := Option.some.inj (hkey.symm.trans hnode)
      rw [hgeneration] at hdisplayed
      exact ⟨h, hone, hdisplayed.trans (by decide +kernel)⟩
  | _ => simp [hfollow, Session.Move.line?] at hfound

end Machine

end Parley
