import Parley.Proofs.Actions.Encounter

/-!
# Two ways of firing actions

The actions of a line fire when the line is shown, if the settings of the session say so; or the
display reports them as input later on.  Both ways call the same handlers with the same texts in
the same order, and leave the session where it stands with the handlers that it has
(`ways_of_firing_agree`).
-/

namespace Parley

namespace Session

variable {session session' moved : Session} {key title option destination : String} {index : Nat}
  {config config' : Config}

/-! ## Moves of sessions at the same place -/

/-- The session with all that does not bear on where it stands taken from another one. -/
def dressedAs (session other : Session) : Session :=
  { session with
    label := other.label
    bus := other.bus
    actions := other.actions
    replacements := other.replacements }

theorem dressedAs_of_standing (h : session'.standing = session.standing) :
    session' = session.dressedAs session' := by
  obtain ⟨⟨label, display, id, bus, phase, finished, actions, texts⟩, graph, shelved⟩ := session
  obtain ⟨⟨label', display', id', bus', phase', finished', actions', texts'⟩, graph', shelved'⟩ :=
    session'
  simp only [standing, Standing.mk.injEq] at h
  obtain ⟨rfl, rfl, rfl, rfl, rfl, rfl⟩ := h
  rfl

/-- The move with the session that it leaves changed. -/
def Move.map (f : Session → Session) : Move → Move
  | .refuse entry => .refuse entry
  | .fail session failure => .fail (f session) failure
  | .display session key index => .display (f session) key index
  | .ended session => .ended (f session)

/-- Where a move leads to: the number of the graph, the key of the node, and the number of the
line. -/
def Move.place? : Move → Option (Nat × String × Nat)
  | .display moved key index => some (moved.generation, key, index)
  | _ => none

theorem Move.eq_of_place? {move : Move} {generation : Nat}
    (h : move.place? = some (generation, key, index)) :
    ∃ moved, move = .display moved key index ∧ moved.generation = generation := by
  cases move with
  | display moved key' index' =>
      simp only [place?, Option.some.injEq, Prod.mk.injEq] at h
      obtain ⟨hgeneration, rfl, rfl⟩ := h
      exact ⟨moved, rfl, hgeneration⟩
  | _ => exact absurd h (by simp [place?])

theorem enter_dressedAs (other : Session) (key : String) (node : Node) :
    (session.dressedAs other).enter key node =
      (session.enter key node).map (·.dressedAs other) := by
  unfold enter
  split <;> rfl

theorem start_dressedAs (other : Session) (title : String) :
    (session.dressedAs other).start title = (session.start title).map (·.dressedAs other) := by
  have hfinished : (session.dressedAs other).finished = session.finished := rfl
  have hgraph : (session.dressedAs other).graph = session.graph := rfl
  unfold start
  rw [hfinished, hgraph]
  split
  · rfl
  · split
    · rfl
    · exact enter_dressedAs other _ _

theorem proceed_dressedAs (other : Session) :
    (session.dressedAs other).proceed = session.proceed.map (·.dressedAs other) := by
  have hactive : (session.dressedAs other).activeNode? = session.activeNode? := rfl
  unfold proceed
  rw [hactive]
  split
  · rfl
  · split <;> rfl

theorem follow_dressedAs (other : Session) (config : Config) (option destination : String) :
    (session.dressedAs other).follow config option destination =
      (session.follow config option destination).map (·.dressedAs other) := by
  have hactive : (session.dressedAs other).activeNode? = session.activeNode? := rfl
  have hgraph : (session.dressedAs other).graph = session.graph := rfl
  unfold follow
  rw [hactive, hgraph]
  split
  · rfl
  · split
    · rfl
    · split
      · rfl
      · exact enter_dressedAs other _ _

end Session

namespace Machine

variable {x y : ℕ → Machine} {m m' : Machine} {s : SessionId} {session session' moved : Session}
  {input : Task} {rest rest' below : List Task} {key : String} {index i i' n n' k l : ℕ}

/-- Sessions that stand at the same place, under settings that agree but for the firing of what
is shown, are led to the same line by the same input. -/
theorem Moves.display_congr (hmove : Moves s m session (.display moved key index))
    (hhead : m'.agenda.head? = m.agenda.head?) (hstanding : session'.standing = session.standing)
    {flag : Bool} (hsettings : m.world.configOf session =
      { m'.world.configOf session' with dispatchActionsOnDisplay := flag }) :
    Moves s m' session' (.display (moved.dressedAs session') key index) := by
  have hdressed := Session.dressedAs_of_standing hstanding
  generalize hdisplay : Session.Move.display moved key index = move at hmove
  have hmap : Session.Move.display (moved.dressedAs session') key index =
      move.map (·.dressedAs session') := by
    rw [← hdisplay]
    rfl
  rw [hmap]
  cases hmove with
  | start hnext =>
      rw [← Session.start_dressedAs, ← hdressed]
      exact .start (hhead.trans hnext)
  | proceed hnext =>
      rw [← Session.proceed_dressedAs, ← hdressed]
      exact .proceed (hhead.trans hnext)
  | follow hnext =>
      rw [← Session.follow_dressedAs, ← hdressed, hsettings]
      exact .follow (hhead.trans hnext)

/-- What a session fires when it shows a line, it also fires if it shows the line without firing
and its display then reports the actions of the line: the handlers registered for each action, one
action after the other.  After that it stands at the same place with the same handlers. -/
theorem ways_of_firing_agree (hx : Execution x) (hy : Execution y)
    (hfires : Showing s session input rest true x i n)
    (hmove : Moves s (x i) session (.display moved key index))
    (hkeeps : Showing s session' input rest' false y i' n')
    (hstanding : session'.standing = session.standing)
    (hregistry : ∀ tag, session'.handlersOf tag = session.handlersOf tag)
    (hsettings : (x i).world.configOf session =
      { (y i').world.configOf session' with dispatchActionsOnDisplay := true })
    (hlater : n' ≤ k) (hleft : ∀ j, n' ≤ j → j < k → callsOn s (y j) = false)
    (hreports : Encounter s session.display ⟨s, moved.generation, key, index⟩ below y k l) :
    firedIn s (input.behind.length + rest.length) x i n =
        firedIn s (input.behind.length + rest'.length) y i' n' ++ firedIn s below.length y k l ∧
      firedIn s (input.behind.length + rest.length) x i n = callsOf session.handlersOf
        ((x n).world.line ⟨s, moved.generation, key, index⟩).actions ∧
      ((x n).world.session? s).map Session.standing =
        ((y l).world.session? s).map Session.standing ∧
      ∀ tag, (x n).world.handlersOf s tag = (y l).world.handlersOf s tag := by
  have hhead : (y i').agenda.head? = (x i).agenda.head? := by
    rw [hkeeps.works.pushed, hfires.works.pushed]
    rfl
  have hmove' := hmove.display_congr hhead hstanding hsettings
  -- The line is the same on both sides, from when it is shown up to the end.
  have hline := hfires.line_eq hx hmove hfires.works.lt le_rfl
    (rfl : (⟨s, moved.generation, key, index⟩ : LineRef).session = s)
  have hline' := hkeeps.line_eq hy hmove' hkeeps.works.lt le_rfl
    (rfl : (⟨s, moved.generation, key, index⟩ : LineRef).session = s)
  have hdressed : ∀ ref, (moved.dressedAs session').line? ref = moved.line? ref := fun _ => rfl
  rw [hdressed] at hline'
  obtain ⟨shown, hshown⟩ := hy.session_of_le hkeeps.session hkeeps.works.later
  obtain ⟨asked, hasked⟩ := hy.session_of_le hshown hlater
  have hbetween := hy.sameSession hshown hlater hleft
  have hlast := hreports.sameSession hy hasked hreports.works.later le_rfl
  obtain ⟨hplace, hhandlers⟩ := hfires.sameSession hx hmove hfires.works.lt le_rfl
  obtain ⟨hplace', hhandlers'⟩ := hkeeps.sameSession hy hmove' hkeeps.works.lt le_rfl
  have hfired := hfires.firedIn_of_set hx hmove
  have hreported := hreports.firedIn_eq hy hasked rfl
  have hsame : (y k).world.handlersOf s = session.handlersOf :=
    funext fun tag => by rw [hbetween.handlers, hhandlers', hregistry]
  have hlineAsked : (y k).world.line ⟨s, moved.generation, key, index⟩ =
      (y n').world.line ⟨s, moved.generation, key, index⟩ :=
    World.SameSession.line hbetween
  rw [hsame, hlineAsked, hline'] at hreported
  refine ⟨?_, by rw [hfired, hline], ?_, fun tag => ?_⟩
  · rw [hkeeps.firedIn_of_unset hy hmove', List.nil_append, hreported, hfired]
  · rw [hplace, hlast.standing, hbetween.standing, hplace']
    rfl
  · rw [hhandlers, hlast.handlers, hsame]

/-- A host that shows a line with two actions, under some settings.  The second handler makes use
of a bus of its own. -/
def rehearsed (settings : Option Json.Value) (later : List Step) : ℕ → Machine :=
  Machine.course { world := World.ofHandlers [("a", [(9, [])]),
      ("b", [(9, [.bus (.free "f") (.publish (.dialogue .dialogueOver) [])])])] }
    ([.newDisplay "d" "d" (.recording {} false),
      .newSession "s" "d" settings (.graph (some (.array [.object [("title", .string "A"),
        ("body", .string "Hi | actions([t|1], [u])")]]))),
      .session "s" (.registerAction "t" "a"), .session "s" (.registerAction "t" "b"),
      .session "s" (.registerAction "u" "b"), .session "s" (.start "A")] ++ later)

/-- The actions fire when the line is shown. -/
def outspoken : ℕ → Machine :=
  rehearsed none []

/-- The display reports the actions afterwards. -/
def reticent : ℕ → Machine :=
  rehearsed (some (.object [("dispatch_actions_on_display", .bool false)]))
    [.display "d" (.actions "s" ⟨some "A", some 0⟩)]

theorem ways_of_firing_agree_rehearsed :
    Execution outspoken ∧ Execution reticent ∧
      firedIn ⟨0⟩ 2 outspoken 13 59 = [(⟨0⟩, "1"), (⟨1⟩, "1"), (⟨1⟩, "")] ∧
      firedIn ⟨0⟩ 2 outspoken 13 59 =
        firedIn ⟨0⟩ 2 reticent 13 31 ++ firedIn ⟨0⟩ 1 reticent 34 74 ∧
      ((outspoken 59).world.session? ⟨0⟩).map Session.standing =
        ((reticent 74).world.session? ⟨0⟩).map Session.standing := by
  have hx : Execution outspoken := execution_course (initial_ofHandlers _) _
  have hy : Execution reticent := execution_course (initial_ofHandlers _) _
  have hready : ((outspoken 13).world.session? ⟨0⟩).map (fun session =>
      (session.display, (session.start "A").place?)) = some (⟨0⟩, some (0, "A", 0)) := by
    decide +kernel
  obtain ⟨session, hs, hvalue⟩ := Option.map_eq_some_iff.mp hready
  obtain ⟨hdisplay, hstart⟩ := Prod.mk.inj hvalue
  obtain ⟨moved, hmoved, hgeneration⟩ := Session.Move.eq_of_place? hstart
  have hstandings : ((reticent 13).world.session? ⟨0⟩).map (fun session =>
      (session.standing, session.actions)) = ((outspoken 13).world.session? ⟨0⟩).map (fun session =>
        (session.standing, session.actions)) := by decide +kernel
  rw [hs, Option.map_some] at hstandings
  obtain ⟨session', hs', hsame⟩ := Option.map_eq_some_iff.mp hstandings
  obtain ⟨hstanding, hactions⟩ := Prod.mk.inj hsame
  have hsettings : ((outspoken 13).world.session? ⟨0⟩).map (outspoken 13).world.configOf =
      ((reticent 13).world.session? ⟨0⟩).map (fun session =>
        { (reticent 13).world.configOf session with dispatchActionsOnDisplay := true }) := by
    decide +kernel
  rw [hs, hs', Option.map_some, Option.map_some, Option.some.injEq] at hsettings
  have hbusy : ∀ j < 59, 13 ≤ j → 1 < (outspoken j).agenda.length := by decide +kernel
  have hsetting : ∀ j < 59, 13 ≤ j → (outspoken j).world.firesShown ⟨0⟩ = true := by decide +kernel
  have halone : ∀ j < 59, 13 < j → callsOn ⟨0⟩ (outspoken j) = false := by decide +kernel
  have hfires : Showing ⟨0⟩ session (.start ⟨0⟩ "A") [.leave ⟨0⟩] true outspoken 13 59 :=
    ⟨⟨rfl, by omega, fun j hij hjn => hbusy j hjn hij, by decide +kernel, by simp⟩, hs,
      fun j hij hjn => hsetting j hjn hij, fun j hij hjn => halone j hjn hij⟩
  have hbusy' : ∀ j < 31, 13 ≤ j → 1 < (reticent j).agenda.length := by decide +kernel
  have hsetting' : ∀ j < 31, 13 ≤ j → (reticent j).world.firesShown ⟨0⟩ = false := by
    decide +kernel
  have halone' : ∀ j < 74, 13 < j → callsOn ⟨0⟩ (reticent j) = false := by decide +kernel
  have hkeeps : Showing ⟨0⟩ session' (.start ⟨0⟩ "A") [.leave ⟨0⟩] false reticent 13 31 :=
    ⟨⟨rfl, by omega, fun j hij hjn => hbusy' j hjn hij, by decide +kernel, by simp⟩, hs',
      fun j hij hjn => hsetting' j hjn hij, fun j hij hjn => halone' j (by omega) hij⟩
  have hreported : ∀ j < 74, 34 ≤ j → 1 < (reticent j).agenda.length ∧
      (reticent j).world.Hears ⟨0⟩ ⟨0⟩ ∧ (reticent j).world.sessionAlive {} ⟨0⟩ = true ∧
      (3 < (reticent j).agenda.length → published (.display ⟨0⟩) (reticent j) = []) ∧
      (4 < (reticent j).agenda.length → 4 ≤ (reticent (j + 1)).agenda.length) := by
    decide +kernel
  have hreports : Encounter ⟨0⟩ session.display ⟨⟨0⟩, moved.generation, "A", 0⟩
      [.answer .nothing] reticent 34 74 := by
    rw [hdisplay, hgeneration]
    exact ⟨⟨rfl, by omega, fun j hij hjn => (hreported j hjn hij).1, by decide +kernel,
      by simp⟩, by decide +kernel, fun j hij hjn => (hreported j hjn hij).2.1,
      fun j hij hjn => (hreported j hjn hij).2.2.1,
      fun j hij hjn => halone' j hjn (by omega),
      fun j hij hjn => (hreported j hjn hij).2.2.2.1,
      fun j hij hjn => (hreported j hjn hij).2.2.2.2⟩
  have hmove : Moves ⟨0⟩ (outspoken 13) session (.display moved "A" 0) :=
    hmoved ▸ .start rfl
  obtain ⟨hsum, -, hplace, -⟩ := ways_of_firing_agree hx hy hfires hmove hkeeps hstanding
    (fun tag => by rw [Session.handlersOf, Session.handlersOf, hactions]) hsettings
    (by omega) (fun j hij hjn => halone' j (by omega) (by omega)) hreports
  exact ⟨hx, hy, by decide +kernel, hsum, hplace⟩

end Machine

end Parley
