import Parley.Proofs.Session.Passage

/-!
# Sessions that fail to load

A session is attached to its display and listens there before its records are looked at.  If
they are not valid, or the node to start has no lines, the session is given up, and soon nobody
holds it.  What it leaves behind on the display is its attachment: the listeners that are alive
and the display's being open or not are as before, but a session that was attached before is no
longer, and its replacement texts are lost to the display (`outlook_of_failed_records`).

## Strategy

Up to the failure, all that happens to the world is that a session joins it and changes itself
(`Joined`).  The new session holds on to nobody, so whoever was alive still is
(`Joined.alive_eq`), and its own subscriptions lead nowhere once it is gone.
-/

namespace Parley

/-! ## Subscriptions that are left out of account -/

namespace Bus

variable {p : Subscription → Bool} {sub : Subscription} {type : EventType}

theorem filter_insertByPriority (h : p sub = false) (subs : List Subscription) :
    (insertByPriority sub subs).filter p = subs.filter p := by
  induction subs with
  | nil => simp [insertByPriority, h]
  | cons other rest ih =>
      rw [insertByPriority]
      split
      · rw [List.filter_cons, h]
        rfl
      · rw [List.filter_cons, List.filter_cons, ih]

theorem filter_subscribe (h : p sub = false) (bus : Bus) (other : EventType) :
    ((bus.subscribe other sub).subscriptions type).filter p =
      (bus.subscriptions type).filter p := by
  by_cases htype : type = other
  · subst htype
    unfold subscribe
    split
    · rfl
    · rw [subscriptions_update_self, filter_insertByPriority h]
  · rw [subscriptions_subscribe_of_ne htype]

theorem filter_listen {s : SessionId} (h : ∀ kind, p ⟨0, .input s kind, true, false⟩ = false)
    (bus : Bus) :
    ((World.listen s bus).subscriptions type).filter p = (bus.subscriptions type).filter p := by
  simp only [World.listen, ContextEvent.all, List.foldl_cons, List.foldl_nil]
  rw [filter_subscribe (h _), filter_subscribe (h _), filter_subscribe (h _)]

/-- A session that listens is not held by the bus. -/
theorem holds_listen (s : SessionId) (bus : Bus) : (World.listen s bus).holds = bus.holds := by
  simp only [holds]
  congr 1
  funext type
  rw [filter_listen fun _ => rfl]

end Bus

/-! ## What can be seen of a display -/

/-- What can be seen of a display. -/
@[ext]
structure Outlook where
  /-- The session that is attached to it. -/
  attached : Option SessionId
  /-- The subscriptions on its bus that lead to a listener. -/
  subscribers : EventType → List Subscription
  /-- The replacement texts that it works with. -/
  replacements : Table String String
  isOpen : Bool

namespace World

/-- What can be seen of a display while the given things are in use. -/
def outlook (w : World) (held : Held) (display : Display) : Outlook where
  attached := w.attachedTo held display
  subscribers := fun type => (display.bus.subscriptions type).filter fun sub =>
    sub.resolves (w.alive held)
  replacements := w.replacementsOf held display
  isOpen := display.isOpen

/-- A session has been made on a display, and has changed nothing but itself. -/
structure Joined (d : DisplayId) (w w' : World) : Prop where
  displays : w'.displays = (w.modifyDisplay d (attachTo ⟨w.sessions.length⟩)).displays
  sessions : ∀ t : SessionId, t ≠ ⟨w.sessions.length⟩ → w'.session? t = w.session? t
  /-- It holds on to nobody. -/
  free : ∀ session, w'.session? ⟨w.sessions.length⟩ = some session →
    session.bus = {} ∧ session.actions = Table.empty
  managers : w'.managers = w.managers
  manager : w'.manager = w.manager
  buses : w'.buses = w.buses
  sessionNames : w'.sessionNames = w.sessionNames
  handlerNames : w'.handlerNames = w.handlerNames

variable {w w' : World} {d e : DisplayId} {s : SessionId} {session : Session}
  {display : Display} {held : Held}

theorem joined_addSession (c : Config) (hdisplay : session.display = d)
    (hbus : session.bus = {}) (hactions : session.actions = Table.empty) :
    Joined d w ((w.addConfig c).1.addSession session).1 := by
  subst hdisplay
  have hlook := session?_addSession (w.addConfig c).1 session
  refine ⟨rfl, fun t ht => ?_, fun found hfound => ?_,
    managers_addSession _ _, rfl, rfl, rfl, rfl⟩
  · rw [hlook, if_neg fun hindex => ht ?_]
    · rfl
    · obtain ⟨i⟩ := t
      exact congrArg SessionId.mk hindex
  · rw [hlook, if_pos (by rfl)] at hfound
    obtain rfl := Option.some.inj hfound
    exact ⟨hbus, hactions⟩

/-- The new session may change, as long as it holds on to nobody. -/
theorem Joined.setSession (h : Joined d w w') (hbus : session.bus = {})
    (hactions : session.actions = Table.empty) :
    Joined d w (w'.modifySession ⟨w.sessions.length⟩ fun _ => session) := by
  refine ⟨h.displays, fun t ht => ?_, fun found hfound => ?_,
    (managers_modifySession ..).trans h.managers, h.manager, h.buses, h.sessionNames,
    h.handlerNames⟩
  · rw [session?_modifySession, if_neg (Ne.symm ht), h.sessions t ht]
  · rw [session?_modifySession, if_pos rfl] at hfound
    obtain ⟨before, -, rfl⟩ := Option.map_eq_some_iff.mp hfound
    exact ⟨hbus, hactions⟩

/-! ## Who is alive -/

theorem Joined.liveSessions_eq (h : Joined d w w') (held : Held) :
    w'.liveSessions held = w.liveSessions held := by
  have hpending : w'.displays.flatMap (fun display =>
      display.pending.flatMap callbackSessions) =
        w.displays.flatMap fun display => display.pending.flatMap callbackSessions := by
    rw [h.displays]
    exact flatMap_modify fun _ _ => rfl
  simp only [liveSessions, hpending, h.sessionNames, h.manager, manager?, h.managers]

theorem Joined.liveHandlers_eq (h : Joined d w w') (held : Held) :
    w'.liveHandlers held = w.liveHandlers held := by
  have hdisplays : w'.displays.flatMap (fun display =>
      display.pending.flatMap callbackHandlers ++ listenerHandlers display.bus.holds) =
        w.displays.flatMap fun display =>
          display.pending.flatMap callbackHandlers ++ listenerHandlers display.bus.holds := by
    rw [h.displays]
    refine flatMap_modify fun display _ => ?_
    rw [attachTo, Bus.holds_listen]
  -- The new session holds nobody, whether it is alive or not.
  have hsessions : ∀ t, (w'.session? t).elim [] (fun session =>
      listenerHandlers session.bus.holds ++ session.actions.values.flatten) =
        (w.session? t).elim [] fun session =>
          listenerHandlers session.bus.holds ++ session.actions.values.flatten := by
    intro t
    by_cases ht : t = ⟨w.sessions.length⟩
    · subst ht
      rw [session?_length]
      cases hnew : w'.session? ⟨w.sessions.length⟩ with
      | none => rfl
      | some session =>
          obtain ⟨hbus, hactions⟩ := h.free session hnew
          rw [Option.elim_some, hbus, hactions]
          rfl
    · rw [h.sessions t ht]
  simp only [liveHandlers, hdisplays, h.handlerNames, h.buses, h.liveSessions_eq, hsessions]

/-- Whoever was alive still is. -/
theorem Joined.alive_eq (h : Joined d w w') (held : Held) : w'.alive held = w.alive held := by
  funext listener
  cases listener with
  | handler id => simp only [alive, h.liveHandlers_eq]
  | observer t => rfl
  | input t kind => simp only [alive, sessionAlive, h.liveSessions_eq]

theorem Joined.sessionAlive_eq (h : Joined d w w') (held : Held) :
    w'.sessionAlive held = w.sessionAlive held := by
  funext t
  simp only [sessionAlive, h.liveSessions_eq]

/-! ## What is left behind -/

/-- Once the new session is gone, what can be seen of its display is that no session is attached
to it. -/
theorem Joined.outlook_attachTo (h : Joined d w w')
    (hgone : w.sessionAlive held ⟨w.sessions.length⟩ = false) (display : Display) :
    w'.outlook held (attachTo ⟨w.sessions.length⟩ display) =
      { w.outlook held display with attached := none, replacements := Table.empty } := by
  have hattached : w'.attachedTo held (attachTo ⟨w.sessions.length⟩ display) = none := by
    rw [attachedTo, h.sessionAlive_eq, attachTo, Option.filter_some, hgone]
    rfl
  have hnowhere : ∀ kind, Subscription.resolves (w.alive held)
      ⟨0, .input ⟨w.sessions.length⟩ kind, true, false⟩ = false := fun kind => by
    simp [Subscription.resolves, alive, hgone]
  rw [outlook, replacementsOf, hattached, h.alive_eq, attachTo, outlook]
  congr 1
  funext type
  exact Bus.filter_listen hnowhere display.bus

/-- Nothing can be seen of it on other displays. -/
theorem Joined.outlook_eq (h : Joined d w w')
    (hgone : w.sessionAlive held ⟨w.sessions.length⟩ = false) (display : Display) :
    w'.outlook held display = w.outlook held display := by
  have hattached : w'.attachedTo held display = w.attachedTo held display := by
    rw [attachedTo, attachedTo, h.sessionAlive_eq]
  rw [outlook, outlook, replacementsOf, replacementsOf, hattached, h.alive_eq]
  congr 2
  cases hsession : w.attachedTo held display with
  | none => rfl
  | some t =>
      have halive : w.sessionAlive held t = true :=
        (Option.filter_eq_some_iff.mp hsession).2
      have hne : t ≠ ⟨w.sessions.length⟩ := by
        rintro rfl
        exact absurd (halive.symm.trans hgone) (by simp)
      rw [Option.bind_some, Option.bind_some, h.sessions t hne]

/-- What can be seen of a display by its number. -/
def outlook? (w : World) (held : Held) (d : DisplayId) : Option Outlook :=
  (w.display? d).map (w.outlook held)

theorem Joined.display? (h : Joined d w w') (e : DisplayId) :
    w'.display? e = if d = e then (w.display? e).map (attachTo ⟨w.sessions.length⟩)
      else w.display? e := by
  rw [← display?_modifyDisplay, World.display?, h.displays, World.display?]

theorem Joined.outlook?_self (h : Joined d w w')
    (hgone : w.sessionAlive held ⟨w.sessions.length⟩ = false) :
    w'.outlook? held d = (w.outlook? held d).map fun outlook =>
      { outlook with attached := none, replacements := Table.empty } := by
  rw [outlook?, h.display?, if_pos rfl, outlook?, Option.map_map, Option.map_map]
  congr 1
  funext display
  exact h.outlook_attachTo hgone display

theorem Joined.outlook?_of_ne (h : Joined d w w') (hne : e ≠ d)
    (hgone : w.sessionAlive held ⟨w.sessions.length⟩ = false) :
    w'.outlook? held e = w.outlook? held e := by
  rw [outlook?, h.display?, if_neg (Ne.symm hne), outlook?]
  congr 1
  funext display
  exact h.outlook_eq hgone display

/-- A display without a session has no replacement texts. -/
theorem outlook_replacements_eq (h : (w.outlook held display).attached = none) :
    (w.outlook held display).replacements = Table.empty := by
  have hattached : w.attachedTo held display = none := h
  rw [outlook, replacementsOf, hattached]
  rfl

end World

/-! ## Sessions that fail -/

/-- A session made with these records and start node fails at its `n`-th step: the records are
not valid, or the node has no lines. -/
inductive FailsToLoad (config : Config) (data : Json.Value) : Option String → ℕ → Failure → Prop
  | records {start : Option String} {failure : Failure}
      (h : Graph.load config.caseSensitiveTitles data = .error failure) :
      FailsToLoad config data start 2 failure
  | start {title : String} {loaded : Logged Graph} {node : Node}
      (h : Graph.load config.caseSensitiveTitles data = .ok loaded)
      (hnode : loaded.value.get? title = some node) (hempty : node.lines = []) :
      FailsToLoad config data (some title) 3 (.emptyNode node.title)

/-- A node without lines cannot be started. -/
theorem Session.start_of_empty {session : Session} {graph : Graph} {title : String} {node : Node}
    (hunfinished : session.finished = false) (hgraph : session.graph = some graph)
    (hnode : graph.get? title = some node) (hempty : node.lines = []) :
    session.start title =
      .fail (session.setNode (graph.key title) node.reset) (.emptyNode node.title) := by
  have hlines : node.reset.lines.isEmpty = true := List.isEmpty_iff.mpr hempty
  simp only [Session.start, hunfinished, hgraph, Option.bind_some, hnode, Option.map_some,
    Session.enter, Node.currentLine, hlines, if_true]
  rfl

namespace Machine

variable {m : Machine} {rest : List Task} {name : String} {d : DisplayId}
  {config : Config} {data : Json.Value} {start : Option String} {n : ℕ} {failure : Failure}
  {held : World.Held}

/-- The next step makes a session over records, on a display that is there and with settings that
are valid. -/
structure MakesSession (d : DisplayId) (config : Config) (data : Json.Value)
    (start : Option String) (m : Machine) : Prop where
  asked : ∃ name display settings rest,
    m.agenda = .perform (.newSession name display settings (.records data start)) :: rest ∧
      m.world.displayNames.get? display = some d ∧
      settings.elim (.ok {}) Config.ofValue = .ok config
  there : (m.world.display? d).isSome = true

/-- The session that is made before its records are looked at. -/
def blank (d : DisplayId) (m : Machine) : Session :=
  { display := d, config := ⟨m.world.configs.length⟩ }

theorem MakesSession.made (h : MakesSession d config data start m) :
    m.step.world = ((m.world.addConfig config).1.addSession (m.blank d)).1 ∧
      ∃ name rest, m.step.agenda = .load ⟨m.world.sessions.length⟩ data start ::
        .adopt ⟨m.world.sessions.length⟩ name .nothing :: rest := by
  obtain ⟨name, display, settings, rest, hagenda, hname, hsettings⟩ := h.asked
  obtain ⟨shown, hshown⟩ := Option.isSome_iff_exists.mp h.there
  have hstep : m.step = { m with agenda := rest }.newSession name d config
      (.records data start) := by
    rw [step_eq hagenda]
    simp only [exec, perform, withDisplay, hname, hshown, Option.bind_some, Option.map_some]
    cases settings with
    | none => rw [withSettings, Except.ok.inj hsettings]
    | some value =>
        rw [Option.elim_some] at hsettings
        simp only [withSettings, hsettings]
  rw [hstep]
  exact ⟨rfl, name, rest, rfl⟩

/-- The session fails after as many steps as it takes, and until then only joins the world. -/
theorem MakesSession.fails (h : MakesSession d config data start m)
    (hfails : FailsToLoad config data start n failure) :
    (∃ m' : Machine, step^[n] m = m'.fail failure) ∧ m.world.Joined d (step^[n] m).world := by
  obtain ⟨hworld, name, rest, hagenda⟩ := h.made
  have hjoined : m.world.Joined d m.step.world := by
    rw [hworld]
    exact World.joined_addSession config rfl rfl rfl
  have hnew : m.step.world.session? ⟨m.world.sessions.length⟩ = some (m.blank d) := by
    rw [hworld, World.session?_addSession, if_pos (by rfl)]
  have hconfig : m.step.world.configOf (m.blank d) = config := by
    rw [hworld, World.configOf, World.config]
    simp [World.addSession, World.enrol, World.addConfig, World.modifyDisplay, blank]
  cases hfails with
  | records hload =>
      have hstep : m.step.step = { m.step with
          agenda := .adopt ⟨m.world.sessions.length⟩ name .nothing :: rest }.fail failure := by
        rw [step_eq hagenda]
        simp only [exec, load, hnew, hconfig, hload]
      refine ⟨⟨_, hstep⟩, ?_⟩
      rw [Function.iterate_succ_apply', Function.iterate_one, hstep, world_fail]
      exact hjoined
  | @start title loaded node hload hnode hempty =>
      have hloaded : m.step.step.world = m.step.world.modifySession ⟨m.world.sessions.length⟩
            (fun _ => (m.blank d).replaceGraph loaded.value) ∧
          m.step.step.agenda = .start ⟨m.world.sessions.length⟩ title ::
            .adopt ⟨m.world.sessions.length⟩ name .nothing :: rest := by
        rw [step_eq hagenda]
        simp only [exec, load, hnew, hconfig, hload]
        exact ⟨rfl, rfl⟩
      obtain ⟨hworld₂, hagenda₂⟩ := hloaded
      have hnew₂ : m.step.step.world.session? ⟨m.world.sessions.length⟩ =
          some ((m.blank d).replaceGraph loaded.value) := by
        rw [hworld₂, World.session?_modifySession, if_pos rfl, hnew, Option.map_some]
      have hstart : ((m.blank d).replaceGraph loaded.value).start title = .fail
          (((m.blank d).replaceGraph loaded.value).setNode (loaded.value.key title) node.reset)
          (.emptyNode node.title) :=
        Session.start_of_empty rfl rfl hnode hempty
      have hstep : m.step.step.step = ({ m.step.step with
          agenda := .adopt ⟨m.world.sessions.length⟩ name .nothing :: rest }.setSession
            ⟨m.world.sessions.length⟩ (((m.blank d).replaceGraph loaded.value).setNode
              (loaded.value.key title) node.reset)).fail (.emptyNode node.title) := by
        rw [step_eq hagenda₂]
        simp only [exec, Machine.start, hnew₂, hstart, carryOut]
      refine ⟨⟨_, hstep⟩, ?_⟩
      have hthree : step^[3] m = m.step.step.step := rfl
      rw [hthree, hstep, world_fail]
      refine World.Joined.setSession ?_ rfl rfl
      rw [hworld₂]
      exact hjoined.setSession rfl rfl

/-- A session that fails to load its records, or to start a node that has no lines, leaves its
display with the same live subscriptions on its bus and as open as it was, but with no session
attached and no replacement texts.  So once the failed session is gone, the display looks as before
exactly if no session was attached to it. -/
theorem outlook_of_failed_records (h : MakesSession d config data start m)
    (hfails : FailsToLoad config data start n failure)
    (hgone : (step^[n] m).world.sessionAlive held ⟨m.world.sessions.length⟩ = false) :
    (∃ m' : Machine, step^[n] m = m'.fail failure) ∧
      (step^[n] m).world.outlook? held d = (m.world.outlook? held d).map (fun outlook =>
        { outlook with attached := none, replacements := Table.empty }) ∧
      ((step^[n] m).world.outlook? held d = m.world.outlook? held d ↔
        ∀ outlook, m.world.outlook? held d = some outlook → outlook.attached = none) ∧
      ∀ e, e ≠ d → (step^[n] m).world.outlook? held e = m.world.outlook? held e := by
  obtain ⟨hfailed, hjoined⟩ := h.fails hfails
  rw [hjoined.sessionAlive_eq] at hgone
  have hself := hjoined.outlook?_self hgone
  refine ⟨hfailed, hself, ?_, fun e he => hjoined.outlook?_of_ne he hgone⟩
  obtain ⟨display, hdisplay⟩ := Option.isSome_iff_exists.mp h.there
  have hbefore : m.world.outlook? held d = some (m.world.outlook held display) := by
    rw [World.outlook?, hdisplay, Option.map_some]
  rw [hself, hbefore, Option.map_some, Option.some.injEq]
  constructor
  · rintro hsame outlook ⟨⟩
    exact (congrArg Outlook.attached hsame).symm
  · intro hnone
    have hattached := hnone _ rfl
    ext
    · rw [hattached]
    · rfl
    · rw [World.outlook_replacements_eq hattached]
    · rfl

/-- A host that makes a session on a display of its own and starts a node without lines. -/
def vain : ℕ → Machine :=
  course { world := World.ofHandlers [] }
    [.newDisplay "c" "c" (.recording {} false),
      .newSession "t" "c" none
        (.records (.array [.object [("title", .string "A"), ("body", .string "")]]) (some "A"))]

theorem outlook_of_failed_records_vain :
    MakesSession ⟨0⟩ {} (.array [.object [("title", .string "A"), ("body", .string "")]])
        (some "A") (vain 3) ∧
      (∃ m' : Machine, step^[3] (vain 3) = m'.fail (.emptyNode "A")) ∧
      (step^[3] (vain 3)).world.outlook? {} ⟨0⟩ = (vain 3).world.outlook? {} ⟨0⟩ := by
  have h : MakesSession ⟨0⟩ {} (.array [.object [("title", .string "A"), ("body", .string "")]])
      (some "A") (vain 3) := ⟨⟨"t", "c", none, [], rfl, by decide +kernel, rfl⟩, by decide +kernel⟩
  have hfails : FailsToLoad {} (.array [.object [("title", .string "A"), ("body", .string "")]])
      (some "A") 3 (.emptyNode "A") := @FailsToLoad.start {} _ "A" _ { title := "A" } rfl rfl rfl
  have hgone : (step^[3] (vain 3)).world.sessionAlive {} ⟨(vain 3).world.sessions.length⟩ =
      false := by decide +kernel
  obtain ⟨hfailed, -, hsame, -⟩ := outlook_of_failed_records h hfails hgone
  refine ⟨h, hfailed, hsame.mpr fun outlook houtlook => ?_⟩
  have hnone : ((vain 3).world.outlook? {} ⟨0⟩).all fun outlook => outlook.attached = none := by
    decide +kernel
  rw [houtlook] at hnone
  simpa using hnone

/-- A host that makes a session over records that are none, on a display that has a session. -/
def mishap : ℕ → Machine :=
  course { world := World.ofHandlers [] }
    [.newDisplay "c" "c" (.recording {} false),
      .newSession "s" "c" none
        (.records (.array [.object [("title", .string "A"), ("body", .string "one")]]) none),
      .session "s" (.registerReplacement "you" "Ann"),
      .newSession "t" "c" none (.records (.int 5) none)]

/-- The session that fails takes the place of the one that was attached to the display, and leaves
it empty. -/
theorem detached_by_failed_records :
    Execution mishap ∧ MakesSession ⟨0⟩ {} (.int 5) none (mishap 9) ∧
      FailsToLoad {} (.int 5) none 2 (.invalidData "5" .list) ∧ mishap 11 = step^[2] (mishap 9) ∧
      (mishap 11).world.sessionAlive {} ⟨1⟩ = false ∧
      (mishap 11).world.sessionAlive {} ⟨0⟩ = true ∧
      ((mishap 9).world.outlook? {} ⟨0⟩).map (fun outlook =>
          (outlook.attached, outlook.replacements)) = some (some ⟨0⟩, ⟨[("you", "Ann")]⟩) ∧
      ((mishap 11).world.outlook? {} ⟨0⟩).map (fun outlook =>
          (outlook.attached, outlook.replacements)) = some (none, Table.empty) := by
  exact ⟨execution_course (initial_ofHandlers _) _,
    ⟨⟨"t", "c", none, [], rfl, by decide +kernel, rfl⟩, by decide +kernel⟩, .records rfl, rfl,
    by decide +kernel, by decide +kernel, by decide +kernel, by decide +kernel⟩

end Machine

end Parley
