import Parley.Proofs.Session.Waiting

/-!
# A session keeps its place

As long as nobody but the session moves the cursors of its nodes, it is idle or at a line of a
node of its present graph, whatever is called from inside its operations.  Its phase changes
only as its moves say (`Shift`), none of its moves runs past the last line of a node, and every
line that is given to a display can be found (`session_keeps_place`).

## Strategy

Each step keeps the session placed and the lines that wait findable (`Settled.step`).  Both are
kept together: a line that waits is found because its session has not lost it since it moved
there.
-/

namespace Parley

/-! ## Cursors moved by the host -/

/-- Whether a step on a node moves its cursor. -/
def NodeStep.movesCursor : NodeStep → Bool
  | .reset | .advance | .seek _ => true
  | _ => false

/-- The other steps on a node leave it with as many lines and its cursor in place. -/
theorem NodeStep.size_cursor_of_run {step : NodeStep} {node changed : Node} {answer : Answer}
    (hrun : (step.run node).value = .ok (changed, answer)) (hstep : step.movesCursor = false) :
    changed.size = node.size ∧ changed.cursor = node.cursor := by
  have hsame : ∀ {result : Answer}, (Except.ok (node, result) : Except Failure (Node × Answer)) =
      .ok (changed, answer) → changed.size = node.size ∧ changed.cursor = node.cursor := by
    intro result heq
    obtain ⟨rfl, -⟩ := Prod.mk.inj (Except.ok.inj heq)
    exact ⟨rfl, rfl⟩
  cases step with
  | reset => exact absurd hstep (by simp [movesCursor])
  | advance => exact absurd hstep (by simp [movesCursor])
  | seek index => exact absurd hstep (by simp [movesCursor])
  | currentLine =>
      cases hline : node.currentLine with
      | error failure =>
          simp only [run, hline] at hrun
          exact absurd hrun (by simp [Except.map])
      | ok line =>
          simp only [run, hline] at hrun
          exact hsame hrun
  | line index edit =>
      cases hnumber : node.lineNumber? index with
      | none =>
          simp only [run, hnumber] at hrun
          exact absurd hrun (by simp)
      | some n =>
          simp only [run, hnumber] at hrun
          obtain ⟨rfl, -⟩ := Prod.mk.inj (Except.ok.inj hrun)
          exact ⟨Node.size_modifyLine .., rfl⟩
  | _ => exact hsame hrun

/-! ## The place of a session -/

namespace Session

/-- A session is idle without a node, or at a line of a node of its graph. -/
structure AtLine (session : Session) : Prop where
  idle_iff : session.phase = .idle ↔ session.currentNode? = none
  current : ∀ node, session.currentNode? = some node →
    ∃ graph key, session.graph = some graph ∧ session.phase.key? = some key ∧
      graph.nodes.get? key = some node ∧ node.lines ≠ [] ∧ node.cursor < node.size

theorem Placed.atLine {session : Session} (h : session.Placed) : session.AtLine := by
  refine ⟨⟨fun hidle => ?_, fun hnone => ?_⟩, fun node hnode => ?_⟩
  · cases hgraph : session.graph <;> simp [currentNode?, hgraph, hidle, Phase.key?]
  · cases hkey : session.phase.key? with
    | none =>
        cases hphase : session.phase with
        | idle => rfl
        | inNode key => exact absurd hkey (by simp [hphase, Phase.key?])
        | ended key => exact absurd hkey (by simp [hphase, Phase.key?])
    | some key =>
        obtain ⟨node, hnode, -⟩ := h.current key hkey
        exact absurd (hnone.symm.trans hnode) (by simp)
  · obtain ⟨graph, key, hgraph, hkey, hget⟩ := currentNode?_eq_some_iff.mp hnode
    obtain ⟨found, hfound, hpos⟩ := h.current key hkey
    obtain rfl : found = node := Option.some.inj (hfound.symm.trans hnode)
    exact ⟨graph, key, hgraph, hkey, hget, List.ne_nil_of_length_pos hpos,
      h.inBounds graph hgraph key found hget hpos⟩

end Session

namespace Machine

variable {x : ℕ → Machine} {m : Machine} {s : SessionId} {session session' : Session} {i n : ℕ}

/-- Whether the next step lets the host move a cursor of a session. -/
def meddles (s : SessionId) (m : Machine) : Bool :=
  match m.agenda.head? with
  | some (.perform (.session name (.node _ step))) =>
    step.movesCursor && m.world.sessionNames.get? name = some s
  | _ => false

/-! ## What one step keeps -/

theorem Passage.keeps (h : Passage s m session session') (hplaced : session.Placed)
    (hmeddles : meddles s m = false) :
    session'.Placed ∧ session.KeepsLines session' := by
  cases h with
  | aside h =>
      have hgraph : session'.graph = session.graph := congrArg Standing.graph h
      exact ⟨hplaced.congr hgraph (congrArg Standing.phase h),
        .of_eq hgraph (congrArg Standing.shelved h)⟩
  | moved hmove h =>
      have hcomes := hmove.of.comes hplaced
      exact h ▸ ⟨hcomes.placed hplaced, hcomes.keepsLines⟩
  | loaded hhead hgraph h =>
      exact h ▸ ⟨.replaceGraph hgraph.inBounds session, Session.keepsLines_replaceGraph _ _⟩
  | finished hhead h =>
      have hgraph : session'.graph = session.graph := congrArg Standing.graph h
      exact ⟨hplaced.congr hgraph (congrArg Standing.phase h),
        .of_eq hgraph (congrArg Standing.shelved h)⟩
  | @edited _ _ step _ _ _ _ hhead hname hstored hrun h =>
      have hstep : step.movesCursor = false := by
        simpa [meddles, hhead, hname] using hmeddles
      obtain ⟨hsize, hcursor⟩ := NodeStep.size_cursor_of_run hrun hstep
      obtain ⟨graph, hgraph, hget⟩ := Option.bind_eq_some_iff.mp hstored
      have hbound := hplaced.inBounds graph hgraph _ _ hget
      rw [← hsize, ← hcursor] at hbound
      exact h ▸ ⟨hplaced.setNode hstored hsize hbound, Session.keepsLines_setNode hstored hsize⟩

/-- A session that is there is placed, and the lines of it that wait can be found. -/
structure Settled (s : SessionId) (m : Machine) : Prop where
  placed : ∀ session, m.world.session? s = some session → session.Placed
  waiting : ∀ line ∈ Task.waiting s m.agenda,
    ∃ session, m.world.session? s = some session ∧ (session.line? line).isSome

theorem Settled.placed_of_passes {m' : Machine} (h : Settled s m) (hpasses : Passes s m m')
    (hmeddles : meddles s m = false) (session' : Session)
    (hs' : m'.world.session? s = some session') : session'.Placed := by
  cases hs : m.world.session? s with
  | none => exact (hpasses.fresh session' hs hs').placed
  | some session =>
      obtain ⟨found, hfound, hpassage⟩ := hpasses.passage session hs
      obtain rfl : session' = found := Option.some.inj (hs'.symm.trans hfound)
      exact (hpassage.keeps (h.placed session hs) hmeddles).1

theorem Settled.step (h : Settled s m) (hsound : Sound m) (hmeddles : meddles s m = false) :
    Settled s m.step := by
  have hpasses := hsound.passes s
  have hfound : ∀ line ∈ Task.waiting s m.agenda,
      ∃ session', m.step.world.session? s = some session' ∧ (session'.line? line).isSome := by
    intro line hline
    obtain ⟨session, hs, hsome⟩ := h.waiting line hline
    obtain ⟨session', hs', hpassage⟩ := hpasses.passage session hs
    have hkeeps := (hpassage.keeps (h.placed session hs) hmeddles).2
    exact ⟨session', hs', hkeeps line hsome⟩
  refine ⟨h.placed_of_passes hpasses hmeddles, fun line hline => ?_⟩
  cases hsound.flow s with
  | stays hdisplayed hflow => exact hfound line (hflow ▸ hline)
  | shows hdisplayed hflow => exact hfound line (hflow ▸ List.mem_cons_of_mem _ hline)
  | loses hdisplayed hflow => exact hfound line (hflow.subset hline)
  | adds hdisplayed hs hmove hmoved hflow =>
      rw [hflow, List.mem_cons] at hline
      rcases hline with rfl | hline
      · exact ⟨_, hmoved, (hmove.of.comes (h.placed _ hs)).line?_isSome s⟩
      · exact hfound line hline

theorem Settled.next {m' : Machine} (h : Settled s m) (hsound : Sound m) (hnext : Next m m')
    (hmeddles : meddles s m = false) : Settled s m' := by
  cases hnext with
  | step => exact h.step hsound hmeddles
  | host hagenda step => exact ⟨h.placed, by simp [Task.waiting, Task.line?]⟩

theorem Execution.settled (h : Execution x)
    (hfresh : ∀ session, (x 0).world.session? s = some session → session.Fresh)
    (hleft : ∀ i < n, meddles s (x i) = false) (hi : i ≤ n) : Settled s (x i) := by
  induction i with
  | zero =>
      refine ⟨fun session hs => (hfresh session hs).placed, ?_⟩
      rw [h.initial.agenda]
      simp [Task.waiting]
  | succ i ih =>
      exact (ih (by omega)).next (h.reachable i).sound (h.next i) (hleft i (by omega))

/-! ## How the phase changes -/

/-- How a step may change the phase of a session. -/
inductive Shift (s : SessionId) (m : Machine) (session session' : Session) : Prop
  | stays (h : session'.phase = session.phase)
  | entered {title key : String} {node : Node} (hhead : m.agenda.head? = some (.start s title))
      (h : session'.phase = .inNode key) (hnode : session'.currentNode? = some node)
      (hlines : node.lines ≠ [])
  | followed {option destination here there : String}
      (hhead : m.agenda.head? = some (.follow s option destination))
      (hbefore : session.phase = .inNode here) (h : session'.phase = .inNode there)
  | ranOut {key : String} {node : Node} (hhead : m.agenda.head? = some (.proceed s))
      (hbefore : session.phase = .inNode key) (hnode : session.currentNode? = some node)
      (hlast : node.cursor + 1 = node.size) (h : session'.phase = .ended key)
  | brokeOff {option key : String}
      (hhead : m.agenda.head? =
        some (.follow s option (m.world.configOf session).endToken))
      (hbefore : session.phase = .inNode key) (h : session'.phase = .ended key)
  | reloaded {data : Json.Value} {start : Option String}
      (hhead : m.agenda.head? = some (.load s data start)) (h : session'.phase = .idle)

/-- Entering a node either fails and leaves the phase alone, or leads there. -/
theorem phase_enter (session : Session) (key : String) (node : Node) :
    ((session.enter key node).outcome session).phase = session.phase ∨
      ∃ moved, session.enter key node = .display moved key node.cursor ∧
        moved.phase = .inNode key := by
  unfold Session.enter
  split
  · exact .inl rfl
  · exact .inr ⟨_, rfl, rfl⟩

theorem Moves.shift {move : Session.Move} (h : Moves s m session move)
    (hplaced : session.Placed) : Shift s m session (move.outcome session) := by
  cases h with
  | @start title hhead =>
      have hcomes := (Session.Move.Of.start title).comes hplaced
      rcases Session.start_cases session title with ⟨entry, heq⟩ | ⟨key, stored, hstored, heq⟩
      · exact heq ▸ .stays rfl
      · rcases phase_enter session key stored.reset with hphase | ⟨moved, hmoved, hphase⟩
        · exact heq ▸ .stays hphase
        · rw [heq, hmoved] at hcomes ⊢
          obtain ⟨-, node, hnode, -, hlt⟩ := hcomes.shown
          exact .entered hhead hphase hnode (List.ne_nil_of_length_pos (Nat.zero_lt_of_lt hlt))
  | proceed hhead =>
      rcases Session.proceed_cases session with
        ⟨entry, heq⟩ | ⟨key, node, hactive, ⟨-, heq⟩ | ⟨hlast, heq⟩⟩
      · exact heq ▸ .stays rfl
      · exact heq ▸ .stays rfl
      · obtain ⟨-, hphase, hnode⟩ := Session.activeNode?_eq_some hactive
        obtain ⟨graph, here, hgraph, hhere, -, -, hlt⟩ := hplaced.atLine.current node hnode
        have hnot : ¬ node.cursor + 1 < node.size := by
          simpa [Node.hasNextLine] using hlast
        exact heq ▸ .ranOut hhead hphase hnode (by omega) rfl
  | @follow option destination hhead =>
      rcases Session.follow_cases session (m.world.configOf session) option destination with
        ⟨entry, heq⟩ | ⟨here, now, hactive, ⟨rfl, heq⟩ | ⟨key, stored, node, hstored, -, heq⟩⟩
      · exact heq ▸ .stays rfl
      · exact heq ▸ .brokeOff hhead (Session.activeNode?_eq_some hactive).2.1 rfl
      · rcases phase_enter session key node with hphase | ⟨moved, hmoved, hphase⟩
        · exact heq ▸ .stays hphase
        · rw [heq, hmoved]
          exact .followed hhead (Session.activeNode?_eq_some hactive).2.1 hphase

theorem Passage.shift (h : Passage s m session session') (hplaced : session.Placed) :
    Shift s m session session' := by
  cases h with
  | aside h => exact .stays (congrArg Standing.phase h)
  | moved hmove h => exact h ▸ hmove.shift hplaced
  | loaded hhead hgraph h => exact .reloaded hhead (by rw [h]; rfl)
  | finished hhead h => exact .stays (congrArg Standing.phase h)
  | edited hhead hname hstored hrun h => exact .stays (by rw [h]; rfl)

/-! ## Whole runs -/

/-- A session that was loaded afresh, and whose cursors are left to itself, is at all times idle
without a node or at a line of a node of its present graph, and none of its moves runs past the
last line of a node.  It stays in the world, its phase changes only as a move or a new graph
demands, and once finished it stays finished.  A line that is given to a display can be found. -/
theorem session_keeps_place (h : Execution x)
    (hfresh : ∀ session, (x 0).world.session? s = some session → session.Fresh)
    (hleft : ∀ i < n, meddles s (x i) = false) :
    (∀ i ≤ n, ∀ session, (x i).world.session? s = some session →
        session.AtLine ∧ ∀ moved failure, Session.Move.Of session (.fail moved failure) →
          ∃ title, failure = .emptyNode title) ∧
      (∀ i < n, ∀ session, (x i).world.session? s = some session →
        ∃ session', (x (i + 1)).world.session? s = some session' ∧
          Shift s (x i) session session' ∧
          (session.finished = true → session'.finished = true)) ∧
      ∀ i ≤ n, ∀ line, displayed s (x i) = some line →
        ∃ session, (x i).world.session? s = some session ∧ (session.line? line).isSome := by
  refine ⟨fun i hi session hs => ?_, fun i hi session hs => ?_, fun i hi line hline => ?_⟩
  · have hplaced := (h.settled hfresh hleft hi).placed session hs
    refine ⟨hplaced.atLine, fun moved failure hmove => ?_⟩
    exact (hmove.comes hplaced).failure_eq
  · have hplaced := (h.settled hfresh hleft (Nat.le_of_lt hi)).placed session hs
    obtain ⟨session', hs', hpassage⟩ :=
      ((h.reachable i).sound.passes_next (h.next i) s).passage session hs
    exact ⟨session', hs', hpassage.shift hplaced, hpassage.finished_of_finished⟩
  · cases (h.reachable i).sound.flow s with
    | shows hdisplayed hflow =>
        obtain rfl := Option.some.inj (hdisplayed.symm.trans hline)
        exact (h.settled hfresh hleft hi).waiting _ (hflow ▸ List.mem_cons_self)
    | stays hdisplayed => exact absurd (hdisplayed.symm.trans hline) (by simp)
    | adds hdisplayed => exact absurd (hdisplayed.symm.trans hline) (by simp)
    | loses hdisplayed => exact absurd (hdisplayed.symm.trans hline) (by simp)

/-- A host that goes on to the next line while the first is being shown. -/
def hasty : ℕ → Machine :=
  course { world := World.ofHandlers [("skip", [(1, [.session "s" .proceed])])] }
    [.newDisplay "c" "c" (.recording { line := some "skip" } false),
      .newSession "s" "c" none (.graph (some
        (.array [.object [("title", .string "A"), ("body", .string "one\ntwo")]]))),
      .session "s" (.start "A")]

theorem session_keeps_place_hasty :
    Execution hasty ∧ (∀ i < 25, meddles ⟨0⟩ (hasty i) = false) ∧
      ∃ session node, (hasty 25).world.session? ⟨0⟩ = some session ∧ session.AtLine ∧
        session.currentNode? = some node ∧ node.cursor = 1 := by
  have h : Execution hasty := execution_course (initial_ofHandlers _) _
  have hleft : ∀ i < 25, meddles ⟨0⟩ (hasty i) = false := by decide +kernel
  have hnone : (hasty 0).world.session? ⟨0⟩ = none := rfl
  have hfresh : ∀ session, (hasty 0).world.session? ⟨0⟩ = some session → session.Fresh :=
    fun session hs => absurd (hnone.symm.trans hs) (by simp)
  obtain ⟨hplace, -, -⟩ := session_keeps_place h hfresh hleft
  have hcursor : ((hasty 25).world.session? ⟨0⟩).bind
      (fun session => session.currentNode?.map Node.cursor) = some 1 := by decide +kernel
  obtain ⟨session, hs, hnode⟩ := Option.bind_eq_some_iff.mp hcursor
  obtain ⟨node, hcurrent, hone⟩ := Option.map_eq_some_iff.mp hnode
  exact ⟨h, hleft, session, node, hs, (hplace 25 (by omega) session hs).1, hcurrent, hone⟩

end Machine

end Parley
