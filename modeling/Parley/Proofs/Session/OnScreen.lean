import Parley.Proofs.Session.Whereabouts

/-!
# What is on the screen

The line that a move leads to is fixed at once and shown later, so what happens in between can
leave an old line on the screen: a listener that moves the session on while the line waits has
its own line shown first (`screen_lags_behind`).  If no two lines of a session ever wait at the
same time, and none that waits is lost to a failure, the line that was shown last is the current
one whenever none is waiting (`screen_shows_place`).

## Strategy

As long as the session is in a node, its current line either waits or was shown last
(`OnScreen`).  A move makes its line wait, showing it makes it the last one shown, and nothing
else changes the place of the session.
-/

namespace Parley

/-- Where an unfinished part of a conversation has got to: the current line of a session that is
in a node. -/
def Session.place? (session : Session) (s : SessionId) : Option LineRef :=
  match session.phase with
  | .inNode key => session.currentNode?.map fun node => ⟨s, session.generation, key, node.cursor⟩
  | _ => none

namespace Machine

variable {x : ℕ → Machine} {m : Machine} {s : SessionId} {session session' : Session} {i n : ℕ}
  {line : LineRef}

/-- The line of a session that was given to a display last. -/
def lastShown (s : SessionId) (x : ℕ → Machine) : ℕ → Option LineRef
  | 0 => none
  | i + 1 => (displayed s (x i)).or (lastShown s x i)

/-! ## How the place changes -/

theorem place?_congr (hgraph : session'.graph = session.graph)
    (hshelved : session'.shelved = session.shelved) (hphase : session'.phase = session.phase)
    (s : SessionId) : session'.place? s = session.place? s := by
  have hcurrent : session'.currentNode? = session.currentNode? := by
    rw [Session.currentNode?, hgraph, hphase, Session.currentNode?]
  have hgeneration : session'.generation = session.generation := by
    rw [Session.generation, hshelved, Session.generation]
  rw [Session.place?, hphase, hcurrent, hgeneration, Session.place?]

/-- A node with the same cursor may take the place of another. -/
theorem place?_setNode {key : String} {node stored : Node}
    (hstored : session.graph.bind (·.nodes.get? key) = some stored)
    (hcursor : session.phase.key? = some key → node.cursor = stored.cursor) (s : SessionId) :
    (session.setNode key node).place? s = session.place? s := by
  have hcurrent : (session.setNode key node).currentNode? =
      if session.phase.key? = some key then some node else session.currentNode? :=
    Session.currentNode?_setNode hstored
  unfold Session.place?
  rw [hcurrent, Session.phase_setNode]
  cases hphase : session.phase with
  | inNode here =>
      by_cases hkey : here = key
      · subst hkey
        have hkey : session.phase.key? = some here := by rw [hphase]; rfl
        have hsame := Session.currentNode?_of_stored hstored hkey
        have hcursor := hcursor hkey
        simp [Phase.key?, hsame, hcursor, Session.generation, Session.setNode]
      · simp [Phase.key?, hkey, Session.generation, Session.setNode]
  | idle => rfl
  | ended here => rfl

/-- A node without lines is not the current one. -/
theorem place?_of_stuck {key : String} {node stored : Node} (hplaced : session.Placed)
    (hstored : session.graph.bind (·.nodes.get? key) = some stored)
    (hsize : node.size = stored.size) (hempty : node.size = 0) (s : SessionId) :
    (session.setNode key node).place? s = session.place? s := by
  refine place?_setNode hstored (fun hkey => ?_) s
  obtain ⟨current, hcurrent, hpos⟩ := hplaced.current key hkey
  obtain rfl : current = stored :=
    Option.some.inj (hcurrent.symm.trans (Session.currentNode?_of_stored hstored hkey))
  omega

/-- Unless it leads to a line, a move leaves the place as it is or brings the conversation to its
end.  A node that it fails at is empty, and so not the current one. -/
theorem place?_outcome {move : Session.Move} (hplaced : session.Placed)
    (hcomes : Session.Comes session move) (s : SessionId) :
    (move.outcome session).place? s = none ∨
      (move.outcome session).place? s = session.place? s ∨
      ∃ moved key index, move = .display moved key index := by
  cases hcomes with
  | refused entry => exact .inr (.inl rfl)
  | entered hstored hsize hcursor => exact .inr (.inr ⟨_, _, _, rfl⟩)
  | forward hphase hnode hnext => exact .inr (.inr ⟨_, _, _, rfl⟩)
  | ended hphase => exact .inl rfl
  | stuck hstored hsize hempty => exact .inr (.inl (place?_of_stuck hplaced hstored hsize hempty s))

/-- Only a move that leads to a line brings a session to a new place. -/
theorem Passage.place? (h : Passage s m session session') (hplaced : session.Placed)
    (hmeddles : meddles s m = false) :
    session'.place? s = none ∨ session'.place? s = session.place? s ∨
      ∃ moved key index, Moves s m session (.display moved key index) := by
  cases h with
  | aside h =>
      exact .inr (.inl (place?_congr (congrArg Standing.graph h) (congrArg Standing.shelved h)
        (congrArg Standing.phase h) s))
  | moved hmove h =>
      rw [h]
      rcases place?_outcome hplaced (hmove.of.comes hplaced) s with
        hnone | hsame | ⟨moved, key, index, rfl⟩
      · exact .inl hnone
      · exact .inr (.inl hsame)
      · exact .inr (.inr ⟨moved, key, index, hmove⟩)
  | loaded hhead hgraph h => exact .inl (by rw [h]; rfl)
  | finished hhead h =>
      exact .inr (.inl (place?_congr (congrArg Standing.graph h) (congrArg Standing.shelved h)
        (congrArg Standing.phase h) s))
  | @edited _ _ step _ _ _ _ hhead hname hstored hrun h =>
      have hstep : step.movesCursor = false := by
        simpa [meddles, hhead, hname] using hmeddles
      have hcursor := (NodeStep.size_cursor_of_run hrun hstep).2
      exact .inr (.inl (h ▸ place?_setNode hstored (fun _ => hcursor) s))

/-- A move that leads to a line brings its session there. -/
theorem place?_of_display {moved : Session} {key : String} {index : ℕ}
    (hcomes : Session.Comes session (.display moved key index)) (s : SessionId) :
    moved.place? s = some ⟨s, moved.generation, key, index⟩ := by
  obtain ⟨hphase, node, hnode, rfl, -⟩ := hcomes.shown
  rw [Session.place?, hphase, hnode]
  rfl

/-! ## Keeping up -/

/-- The place of a session waits to be shown, or is what was shown last. -/
def OnScreen (s : SessionId) (x : ℕ → Machine) (i : ℕ) : Prop :=
  ∀ session line, (x i).world.session? s = some session → session.place? s = some line →
    Task.waiting s (x i).agenda = [line] ∨
      Task.waiting s (x i).agenda = [] ∧ lastShown s x i = some line

/-- A step that is no move to a line leaves the place either waiting or shown. -/
theorem OnScreen.of_flow (hflow : Flow s (x i)) (hstep : x (i + 1) = (x i).step)
    (hadds : ∀ session moved key index, (x i).world.session? s = some session →
      ¬ Moves s (x i) session (.display moved key index))
    (hlost : Task.waiting s (x i).agenda ≠ [] →
      Task.waiting s (x (i + 1)).agenda ≠ [] ∨ (displayed s (x i)).isSome)
    (h : Task.waiting s (x i).agenda = [line] ∨
      Task.waiting s (x i).agenda = [] ∧ lastShown s x i = some line) :
    Task.waiting s (x (i + 1)).agenda = [line] ∨
      Task.waiting s (x (i + 1)).agenda = [] ∧ lastShown s x (i + 1) = some line := by
  cases hflow with
  | adds hdisplayed hs hmove => exact absurd hmove (hadds _ _ _ _ hs)
  | stays hdisplayed hwaiting =>
      rw [lastShown, hdisplayed, hstep, hwaiting]
      exact h
  | @shows shown hdisplayed hwaiting =>
      rw [hwaiting] at h
      rcases h with hone | ⟨hnone, -⟩
      · obtain ⟨rfl, hnil⟩ := List.cons.inj hone
        rw [lastShown, hdisplayed, hstep]
        exact .inr ⟨hnil, rfl⟩
      · exact absurd hnone (by simp)
  | loses hdisplayed hsuffix =>
      rw [lastShown, hdisplayed]
      rw [← hstep] at hsuffix
      rcases h with hone | ⟨hnone, hlast⟩
      · have hleft : Task.waiting s (x (i + 1)).agenda ≠ [] := by
          rcases hlost (by simp [hone]) with hleft | hsome
          · exact hleft
          · exact absurd hsome (by simp [hdisplayed])
        rw [hone] at hsuffix
        rcases List.suffix_cons_iff.mp hsuffix with hall | hnil
        · exact .inl hall
        · exact absurd (List.suffix_nil.mp hnil) hleft
      · rw [hnone] at hsuffix
        exact .inr ⟨List.suffix_nil.mp hsuffix, hlast⟩

theorem OnScreen.step (h : OnScreen s x i) (hx : Execution x)
    (hstep : x (i + 1) = (x i).step) (hsettled : Settled s (x i))
    (hmeddles : meddles s (x i) = false)
    (hone : (Task.waiting s (x (i + 1)).agenda).length ≤ 1)
    (hlost : Task.waiting s (x i).agenda ≠ [] →
      Task.waiting s (x (i + 1)).agenda ≠ [] ∨ (displayed s (x i)).isSome) :
    OnScreen s x (i + 1) := by
  intro session' line hs' hline
  have hsound := (hx.reachable i).sound
  have hpasses := hsound.passes s
  rw [← hstep] at hpasses
  cases hs : (x i).world.session? s with
  | none =>
      have hidle := (hpasses.fresh session' hs hs').phase
      exact absurd hline (by simp [Session.place?, hidle])
  | some session =>
      have hplaced := hsettled.placed session hs
      by_cases hmoves : ∃ moved key index, Moves s (x i) session (.display moved key index)
      · obtain ⟨moved, key, index, hmove⟩ := hmoves
        have hleads := leads_of_display hs hmove
        have hmoved := hleads.session
        have hwaiting := hleads.waiting s
        rw [← hstep] at hmoved hwaiting
        rw [if_pos rfl] at hwaiting
        obtain rfl : session' = moved := Option.some.inj (hs'.symm.trans hmoved)
        rw [place?_of_display (hmove.of.comes hplaced) s] at hline
        -- The line joins those that wait, and only one may wait.
        rw [hwaiting, List.length_cons] at hone
        have hnil : Task.waiting s (x i).agenda = [] := List.length_eq_zero_iff.mp (by omega)
        rw [hnil, Option.some.inj hline] at hwaiting
        exact .inl hwaiting
      · obtain ⟨found, hfound, hpassage⟩ := hpasses.passage session hs
        obtain rfl : session' = found := Option.some.inj (hs'.symm.trans hfound)
        rcases hpassage.place? hplaced hmeddles with hnone | hsame | hmoved
        · exact absurd (hnone.symm.trans hline) (by simp)
        · refine OnScreen.of_flow (hsound.flow s) hstep ?_ hlost
            (h session line hs (hsame.symm.trans hline))
          intro found moved key index hfound hmove
          obtain rfl : session = found := Option.some.inj (hs.symm.trans hfound)
          exact hmoves ⟨moved, key, index, hmove⟩
        · exact absurd hmoved hmoves

theorem OnScreen.host {step : Step} (h : OnScreen s x i) (hagenda : (x i).agenda = [])
    (hstep : x (i + 1) = { world := (x i).world, agenda := [.perform step] }) :
    OnScreen s x (i + 1) := by
  intro session line hs hline
  rw [hstep] at hs
  rw [lastShown, displayed, hagenda, hstep]
  rcases h session line hs hline with hone | ⟨-, hlast⟩
  · rw [hagenda] at hone
    exact absurd hone (by simp [Task.waiting])
  · exact .inr ⟨rfl, hlast⟩

/-- If the lines of a session wait one at a time, and none of them is lost, then whenever none is
waiting and the session is in a node, the line shown last is the current line of that node. -/
theorem screen_shows_place (h : Execution x)
    (hfresh : ∀ session, (x 0).world.session? s = some session → session.Fresh)
    (hleft : ∀ i < n, meddles s (x i) = false)
    (hone : ∀ i ≤ n, (Task.waiting s (x i).agenda).length ≤ 1)
    (hlost : ∀ i < n, Task.waiting s (x i).agenda ≠ [] →
      Task.waiting s (x (i + 1)).agenda ≠ [] ∨ (displayed s (x i)).isSome)
    {key : String} {node : Node} (hs : (x n).world.session? s = some session)
    (hphase : session.phase = .inNode key) (hnode : session.currentNode? = some node)
    (hnone : Task.waiting s (x n).agenda = []) :
    lastShown s x n = some ⟨s, session.generation, key, node.cursor⟩ := by
  have hscreen : ∀ i ≤ n, OnScreen s x i := by
    intro i hi
    induction i with
    | zero =>
        intro session line hs hline
        exact absurd hline (by simp [Session.place?, (hfresh session hs).phase])
    | succ i ih =>
        have hsettled := h.settled hfresh hleft (Nat.le_of_lt hi)
        generalize hnext : x (i + 1) = m
        cases (hnext ▸ h.next i : Next (x i) m) with
        | step =>
            exact (ih (by omega)).step h hnext hsettled (hleft i hi) (hone (i + 1) hi)
              (hlost i hi)
        | host hagenda step => exact (ih (by omega)).host hagenda hnext
  have hline : session.place? s = some ⟨s, session.generation, key, node.cursor⟩ := by
    rw [Session.place?, hphase, hnode]
    rfl
  rcases hscreen n (Nat.le_refl n) session _ hs hline with hwaits | ⟨-, hlast⟩
  · exact absurd (hnone.symm.trans hwaits) (by simp)
  · exact hlast

theorem screen_shows_place_hasty :
    Execution hasty ∧ (∀ i ≤ 48, (Task.waiting ⟨0⟩ (hasty i).agenda).length ≤ 1) ∧
      (hasty 48).agenda = [] ∧ lastShown ⟨0⟩ hasty 48 = some ⟨⟨0⟩, 0, "A", 1⟩ := by
  have h : Execution hasty := execution_course (initial_ofHandlers _) _
  have hnew : (hasty 0).world.session? ⟨0⟩ = none := rfl
  have hone : ∀ i ≤ 48, (Task.waiting ⟨0⟩ (hasty i).agenda).length ≤ 1 := by decide +kernel
  have hrest : (hasty 48).agenda.isEmpty = true := by decide +kernel
  have hplace : ((hasty 48).world.session? ⟨0⟩).bind (fun session =>
      (session.currentNode?).map fun node =>
        (session.phase, session.generation, node.cursor)) = some (.inNode "A", 0, 1) := by
    decide +kernel
  obtain ⟨session, hs, hfound⟩ := Option.bind_eq_some_iff.mp hplace
  obtain ⟨node, hnode, hvalues⟩ := Option.map_eq_some_iff.mp hfound
  obtain ⟨hphase, hvalues⟩ := Prod.mk.inj hvalues
  obtain ⟨hgeneration, hcursor⟩ := Prod.mk.inj hvalues
  have hagenda : (hasty 48).agenda = [] := List.isEmpty_iff.mp hrest
  have hlast := screen_shows_place (n := 48) h
    (fun session hs => absurd (hnew.symm.trans hs) (by simp)) (by decide +kernel) hone
    (by decide +kernel) hs hphase hnode (by rw [hagenda]; rfl)
  rw [hgeneration, hcursor] at hlast
  exact ⟨h, hone, hagenda, hlast⟩

/-- A host that goes on as soon as it is told of a new node. -/
def rushed : ℕ → Machine :=
  course { world := World.ofHandlers [("skip", [(1, [.display "c" .proceed])])] }
    [.newDisplay "c" "c" (.recording { node := some "skip" } false),
      .newSession "s" "c" none (.graph (some
        (.array [.object [("title", .string "A"), ("body", .string "one\ntwo")]]))),
      .session "s" (.start "A")]

/-- Without that, an unfinished session at rest can be at another line than the one that was shown
last. -/
theorem screen_lags_behind :
    Execution rushed ∧ (rushed 60).agenda = [] ∧
      lastShown ⟨0⟩ rushed 60 = some ⟨⟨0⟩, 0, "A", 0⟩ ∧
      ∃ session node, (rushed 60).world.session? ⟨0⟩ = some session ∧
        session.finished = false ∧ session.phase = .inNode "A" ∧
        session.currentNode? = some node ∧ node.cursor = 1 := by
  have h : Execution rushed := execution_course (initial_ofHandlers _) _
  have hrest : (rushed 60).agenda.isEmpty = true := by decide +kernel
  have hplace : ((rushed 60).world.session? ⟨0⟩).bind (fun session =>
      (session.currentNode?).map fun node =>
        (session.finished, session.phase, node.cursor)) = some (false, .inNode "A", 1) := by
    decide +kernel
  obtain ⟨session, hs, hfound⟩ := Option.bind_eq_some_iff.mp hplace
  obtain ⟨node, hnode, hvalues⟩ := Option.map_eq_some_iff.mp hfound
  obtain ⟨hfinished, hvalues⟩ := Prod.mk.inj hvalues
  obtain ⟨hphase, hcursor⟩ := Prod.mk.inj hvalues
  exact ⟨h, List.isEmpty_iff.mp hrest, by decide +kernel, session, node, hs, hfinished, hphase,
    hnode, hcursor⟩

end Machine

end Parley
