import Parley.Proofs.Input.BesideTasks

/-!
# Steps of a handler beside a hushed display

Whatever a handler asks for is done alike on both sides, provided that nobody else comes to
listen to the display by it.
-/

namespace Parley.Machine

variable {d : DisplayId} {s : SessionId} {earlier : List TraceEntry} {m m' : Machine}
  {now now' : List Task}

/-! ## Names -/

theorem Twin.withSession (h : Twin d s earlier m m') (name : String)
    {f f' : SessionId → Session → Machine}
    (hf : ∀ t session, m.withSession name f = f t session →
      Beside d s earlier (f t session) (f' t session)) :
    Beside d s earlier (m.withSession name f) (m'.withSession name f') := by
  unfold Machine.withSession at hf ⊢
  rw [h.sessionNames, funext h.session?]
  split
  · rename_i t session heq
    exact hf t session (by rw [heq])
  · exact h.fail _

theorem Twin.withDisplay (h : Twin d s earlier m m') (name : String)
    {f f' : DisplayId → Display → Machine}
    (hf : ∀ e display bus, m.withDisplay name f = f e display →
      Beside d s earlier (f e display) (f' e { display with bus := bus })) :
    Beside d s earlier (m.withDisplay name f) (m'.withDisplay name f') := by
  unfold Machine.withDisplay at hf ⊢
  rw [h.displayNames]
  cases hname : m.world.displayNames.get? name with
  | none => exact h.fail _
  | some e =>
      rw [Option.bind_some, Option.bind_some]
      rcases h.display? e with ⟨he, he'⟩ | ⟨display, bus, he, he'⟩ <;> rw [he, he']
      · exact h.fail _
      · exact hf e display bus (by rw [hname, Option.bind_some, he]; rfl)

theorem Twin.withHandler (h : Twin d s earlier m m') (name : String) {f f' : HandlerId → Machine}
    (hf : ∀ handler, m.withHandler name f = f handler →
      Beside d s earlier (f handler) (f' handler)) :
    Beside d s earlier (m.withHandler name f) (m'.withHandler name f') := by
  unfold Machine.withHandler at hf ⊢
  rw [h.handlerNames]
  split
  · rename_i handler heq
    exact hf handler (by rw [heq])
  · exact h.fail _

theorem Twin.withHandler? (h : Twin d s earlier m m') (name : Option String)
    {f f' : Option HandlerId → Machine}
    (hf : ∀ handler, Beside d s earlier (f handler) (f' handler)) :
    Beside d s earlier (m.withHandler? name f) (m'.withHandler? name f') := by
  cases name with
  | none => exact hf none
  | some name => exact h.withHandler name fun handler _ => hf (some handler)

theorem Twin.withBus (h : Twin d s earlier m m') (name : BusName) {f f' : BusId → Machine}
    (hf : ∀ b, m.withBus name f = f b → Beside d s earlier (f b) (f' b)) :
    Beside d s earlier (m.withBus name f) (m'.withBus name f') := by
  cases name with
  | session name => exact h.withSession name fun t _ heq => hf (.session t) heq
  | display name => exact h.withDisplay name fun e _ _ heq => hf (.display e) heq
  | free name => exact hf (.free name) rfl

theorem Twin.withSettings (h : Twin d s earlier m m') (settings : Option Json.Value)
    {f f' : Config → Machine}
    (hf : ∀ config, m.withSettings settings f = f config →
      Beside d s earlier (f config) (f' config)) :
    Beside d s earlier (m.withSettings settings f) (m'.withSettings settings f') := by
  unfold Machine.withSettings at hf ⊢
  cases settings with
  | none => exact hf _ rfl
  | some value =>
      dsimp only at hf ⊢
      split
      · rename_i heq
        exact hf _ (by rw [heq])
      · exact h.fail _

theorem Twin.withNode (h : Twin d s earlier m m') (session : Session) (title : Option String)
    {f f' : String → Node → Machine}
    (hf : ∀ key node, Beside d s earlier (f key node) (f' key node)) :
    Beside d s earlier (m.withNode session title f) (m'.withNode session title f') := by
  unfold Machine.withNode
  dsimp only
  split
  · exact hf _ _
  · exact h.fail _

theorem Twin.withLine (h : Twin d s earlier m m') (t : SessionId) (session : Session)
    (place : LinePlace) {f f' : LineRef → Machine}
    (hf : ∀ line, Beside d s earlier (f line) (f' line)) :
    Beside d s earlier (m.withLine t session place f) (m'.withLine t session place f') := by
  refine h.withNode session place.title fun key node => ?_
  split
  · split
    · exact hf _
    · exact h.fail _
  · split
    · exact hf _
    · exact h.fail _

/-! ## Steps on sessions and displays -/

theorem Twin.performNodeStep (h : Twin d s earlier m m') (t : SessionId) (session : Session)
    (key : String) (node : Node) (step : NodeStep) :
    Beside d s earlier (m.performNodeStep t session key node step)
      (m'.performNodeStep t session key node step) := by
  unfold Machine.performNodeStep
  dsimp only
  split
  · exact (h.logAll _).fail _
  · split
    · exact (((h.logAll _).setSession _ _).give _ _).beside
    · exact ((((h.logAll _).cutOff _ _).setSession _ _).give _ _).beside

theorem Twin.performSession (h : Twin d s earlier m m') (t : SessionId) (session : Session)
    (step : SessionStep) :
    Beside d s earlier (m.performSession t session step)
      (m'.performSession t session step) := by
  cases step with
  | load data start => exact (h.push (by simp)).beside
  | start title => exact (h.push (by simp)).beside
  | proceed => exact (h.push (by simp)).beside
  | follow key destination => exact (h.push (by simp)).beside
  | registerAction tag handler =>
      exact h.withHandler handler fun _ _ =>
        (((h.logAll _).setSession _ _).give _ _).beside
  | removeAction tag handler =>
      exact h.withHandler handler fun _ _ => ((h.setSession _ _).give _ _).beside
  | actionHandlers tag => exact (h.give _ _).beside
  | handleAction tag param => exact (h.push (by simp)).beside
  | registerReplacement key text => exact ((h.setSession _ _).give _ _).beside
  | removeReplacement key => exact ((h.setSession _ _).give _ _).beside
  | replacements => exact (h.give _ _).beside
  | tagValues key =>
      dsimp only [Machine.performSession]
      split
      · exact (h.give _ _).beside
      · exact ((h.logAll _).give _ _).beside
  | summary => exact (h.give _ _).beside
  | titles => exact (h.give _ _).beside
  | display => exact (h.give _ _).beside
  | config setting =>
      cases setting with
      | none => exact (h.give _ _).beside
      | some setting =>
          dsimp only [Machine.performSession]
          rw [h.configOf]
          split
          · exact h.fail _
          · exact ((h.withWorld rfl).give _ _).beside
  | finish onComplete =>
      dsimp only [Machine.performSession]
      exact h.withHandler? onComplete fun _ => (h.push (by simp)).beside
  | fireActions place =>
      dsimp only [Machine.performSession]
      exact h.withLine t session place fun _ => (h.push (by simp)).beside
  | node title step =>
      exact h.withNode session title fun key node => h.performNodeStep t session key node step

theorem Twin.performDisplay (h : Twin d s earlier m m') (e : DisplayId) (display : Display)
    (bus : Bus) (step : DisplayStep) :
    Beside d s earlier (m.performDisplay now e display step)
      (m'.performDisplay now' e { display with bus := bus } step) := by
  cases step with
  | openUp => exact ((h.modifyDisplay fun _ => rfl).give _ _).beside
  | proceed => exact (h.push (by simp)).beside
  | select key destination => exact (h.push (by simp [performDisplay.select])).beside
  | action tag param => exact (h.push (by simp [tell])).beside
  | actions session place =>
      refine h.withSession session fun t session _ => ?_
      exact h.withLine t session place fun _ => (h.push (by simp)).beside
  | choose number =>
      dsimp only [Machine.performDisplay]
      simp only [h.line]
      split
      · exact ((h.report _ _).give _ _).beside
      · exact (h.push (by simp [performDisplay.select])).beside
  | currentLine => exact (h.give _ _).beside
  | replace text => exact (h.give _ _).beside
  | replacements => exact (h.give _ _).beside
  | close handler =>
      dsimp only [Machine.performDisplay]
      exact h.withHandler? handler fun _ => (h.push (by simp)).beside
  | flushClose => exact ((h.modifyDisplay fun _ => rfl).push (by simp)).beside
  | attach session =>
      exact h.withSession session fun _ _ _ => ((h.modifyDisplay fun _ => rfl).give _ _).beside
  | detach => exact ((h.modifyDisplay fun _ => rfl).give _ _).beside
  | info => exact (h.give _ _).beside

/-! ## Steps on buses and the manager -/

theorem Twin.performBus (h : Twin d s earlier m m') (hd : m.world.HasBus (.display d)) (b : BusId)
    (step : BusStep) (hears : (m.performBus now b step).world.Hears d s) :
    Beside d s earlier (m.performBus now b step) (m'.performBus now' b step) := by
  cases step with
  | subscribe type handler priority oneShot weak =>
      refine h.withHandler handler fun id heq => ?_
      have hb : b ≠ .display d := by
        rintro rfl
        rw [Machine.performBus, heq] at hears
        refine World.not_hears_of_subscribe (fun kind => ?_) (World.bus_modifyBus_self hd _) hears
        simp
      exact ((h.withWorld (World.hush_modifyBus_of_ne hb _)).give _ _).beside
  | unsubscribe type handler =>
      refine h.withHandler handler fun id _ => ?_
      exact ((h.withWorld (World.hush_modifyBus (by simp) b)).give _ _).beside
  | isSubscribed type handler =>
      exact h.withHandler handler fun _ _ => (h.give _ _).beside
  | count type => exact (h.give _ _).beside
  | publish type data => exact (h.push (by simp)).beside
  | publishEvent type data consumed => exact (h.push (by simp)).beside
  | clear type => exact ((h.withWorld (World.hush_modifyBus (by simp) b)).give _ _).beside

theorem Twin.converse (h : Twin d s earlier m m') (id : ManagerId) (manager : Manager)
    (conversation title : String) (node : Option String) (name : String) :
    Beside d s earlier (m.converse id manager conversation title node name)
      (m'.converse id manager conversation title node name) := by
  unfold Machine.converse
  rw [h.cached?]
  split
  · exact ((h.report _ _).give _ _).beside
  · split
    · exact ((h.report _ _).give _ _).beside
    · have hforgot : Twin d s earlier
          (m.withWorld fun w => w.modifyManager id fun manager =>
            { manager with sessions := manager.sessions.erase title })
          (m'.withWorld fun w => w.modifyManager id fun manager =>
            { manager with sessions := manager.sessions.erase title }) := h.withWorld rfl
      dsimp only
      split
      · exact (hforgot.push (by simp)).beside
      · rw [hforgot.session?]
        split
        · exact (hforgot.push (by simp)).beside
        · exact ((hforgot.report _ _).push (by simp)).beside

theorem Twin.performManager (h : Twin d s earlier m m') (id : ManagerId) (manager : Manager)
    (step : ManagerStep) :
    Beside d s earlier (m.performManager id manager step)
      (m'.performManager id manager step) := by
  cases step with
  | register display =>
      refine h.withDisplay display fun e display bus _ => ?_
      exact (Twin.give (Twin.withWorld (h.logAll _) rfl) _ _).beside
  | displayOf title => exact (h.give _ _).beside
  | add conversation data =>
      dsimp only [Machine.performManager]
      rw [h.config]
      split
      · exact h.fail _
      · exact (Twin.give (Twin.withWorld (h.logAll _) rfl) _ _).beside
  | get conversation => exact (h.give _ _).beside
  | conversations => exact (h.give _ _).beside
  | loadFolder folder place =>
      dsimp only [Machine.performManager]
      rw [h.config]
      exact (Twin.give (Twin.withWorld (h.logAll _) rfl) _ _).beside
  | start conversation title node name => exact h.converse id manager conversation title node name
  | active =>
      have hactive : activeSessions m'.world manager = activeSessions m.world manager := by
        simp only [activeSessions, h.session?]
      dsimp only [Machine.performManager]
      rw [hactive]
      exact (Twin.give (Twin.withWorld h rfl) _ _).beside
  | endAll =>
      have hactive : activeSessions m'.world manager = activeSessions m.world manager := by
        simp only [activeSessions, h.session?]
      dsimp only [Machine.performManager]
      rw [hactive]
      refine (Twin.push (Twin.withWorld h rfl) fun task htask => ?_).beside
      rcases endAll_tasks htask with ⟨t, rfl⟩ | ⟨t, rfl⟩ | ⟨t, rfl⟩ | rfl | rfl <;> trivial

/-! ## Steps of the host -/

theorem Twin.newSession (h : Twin d s earlier m m') (hd : m.world.HasBus (.display d))
    (hs : s.index < m.world.sessions.length) (name : String) (e : DisplayId) (config : Config)
    (source : SessionSource) (hears : (m.newSession name e config source).world.Hears d s) :
    Beside d s earlier (m.newSession name e config source)
      (m'.newSession name e config source) := by
  have hmake : ∀ (n n' : Machine) (graph : Option Graph)
      (data : List (Json.Value × Option String)), Twin d s earlier n n' → n.world = m.world →
      (newSession.make name e config n graph data).world.Hears d s →
      Beside d s earlier (newSession.make name e config n graph data)
        (newSession.make name e config n' graph data) := by
    intro n n' graph data hn hworld hears
    obtain ⟨w', agenda', trace', result'⟩ := n'
    obtain rfl : w' = n.world.hush d := hn.world
    -- A session made on this display would be heard there.
    have hdisplay : e ≠ d := fun heq =>
      World.not_hears_addSession (w := (n.world.addConfig config).1) (hworld ▸ hd)
        (hworld ▸ hs) heq hears
    refine ((hn.setWorld ?_).push ?_).beside
    · exact (World.hush_addSession (w := (n.world.addConfig config).1) _ hdisplay).symm
    · rw [List.forall_mem_append, List.forall_mem_map]
      exact ⟨fun _ _ => trivial, by simp⟩
  unfold Machine.newSession at hears ⊢
  split at hears
  · exact hmake m m' none [] h rfl hears
  · split at hears
    · exact h.fail _
    · exact hmake _ _ _ [] (h.logAll _) rfl hears
  · exact hmake m m' none _ h rfl hears

theorem Twin.perform (h : Twin d s earlier m m') (hd : m.world.HasBus (.display d))
    (hs : s.index < m.world.sessions.length) (step : Step)
    (hears : (m.perform now step).world.Hears d s) :
    Beside d s earlier (m.perform now step) (m'.perform now' step) := by
  cases step with
  | define name rounds =>
      obtain ⟨w', agenda', trace', result'⟩ := m'
      obtain rfl : w' = m.world.hush d := h.world
      exact ((h.setWorld rfl).give .nothing .nothing).beside
  | dropHandler name =>
      exact h.withHandler name fun _ _ => ((h.withWorld rfl).give _ _).beside
  | newDisplay name title kind =>
      obtain ⟨w', agenda', trace', result'⟩ := m'
      obtain rfl : w' = m.world.hush d := h.world
      have hadded := World.hush_addDisplay hd { name, title, kind }
      have hnumber := World.length_displays_hush m.world d
      refine ((h.setWorld ?_).give .nothing .nothing).beside
      dsimp only [World.addDisplay] at hadded ⊢
      rw [hnumber]
      exact congrArg (fun w : World => { w with
        displayNames := w.displayNames.insert name ⟨m.world.displays.length⟩ }) hadded.symm
  | newSession name display settings source =>
      refine h.withDisplay display fun e display bus heq => ?_
      refine h.withSettings settings fun config heq' => ?_
      rw [Machine.perform, heq, heq'] at hears
      exact h.newSession hd hs name e config source hears
  | dropSession name =>
      exact h.withSession name fun _ _ _ => ((h.withWorld rfl).give _ _).beside
  | newManager settings =>
      obtain ⟨w', agenda', trace', result'⟩ := m'
      obtain rfl : w' = m.world.hush d := h.world
      dsimp only [Machine.perform]
      exact h.withSettings settings fun config _ => ((h.setWorld rfl).give .nothing .nothing).beside
  | session name step =>
      exact h.withSession name fun t session _ => h.performSession t session step
  | display name step =>
      exact h.withDisplay name fun e display bus _ => h.performDisplay e display bus step
  | bus name step =>
      dsimp only [Machine.perform] at hears ⊢
      refine h.withBus name fun b heq => ?_
      rw [heq] at hears
      exact h.performBus hd b step hears
  | manager step =>
      dsimp only [Machine.perform]
      rw [h.manager, funext h.manager?]
      split
      · exact h.fail _
      · exact h.performManager _ _ step
  | consume => exact h.fail _
  | fail kind message => exact h.fail _
  | unknown name => exact h.fail _

end Parley.Machine
