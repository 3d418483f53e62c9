import Parley.Proofs.Isolation.Alike

/-!
# Tasks done alike

The tasks of sessions, displays, buses and handlers, one after the other: two machines that go on
alike still do so after each of them.  What a task leaves to do is about things of the side, since
it got to them from its own.
-/

namespace Parley.Machine

variable {σ τ : Side} {w w' : World} {m m' : Machine} {now : List Task}

namespace Alike

/-! ## The tasks of sessions -/

theorem carryOut (h : Alike σ τ w w' m m') {s : SessionId} (hs : σ (.session s) = true)
    {session : Session} (hsession : session.On σ) {move : Session.Move}
    (hmove : Session.Move.Of session move) (refused : Option Answer)
    {shown : Session → LineRef → Machine → Machine}
    (hshown : ∀ {m m' : Machine} (moved : Session) (line : LineRef), Alike σ τ w w' m m' →
      moved.On σ → line.On σ → Alike σ τ w w' (shown moved line m) (shown moved line m')) :
    Alike σ τ w w' (m.carryOut s refused move shown) (m'.carryOut s refused move shown) := by
  have hmoved : (move.outcome session).On σ := hsession.outcome hmove
  cases move with
  | refuse entry =>
      cases refused with
      | none => exact h.logAll _
      | some answer => exact (h.logAll _).give answer
  | fail moved failure => exact (h.setSession hs hmoved).fail failure
  | display moved key index => exact hshown moved _ (h.setSession hs hmoved) hmoved hs
  | ended moved =>
      have hdisplay : σ (.display moved.display) = true := hmoved.display
      refine ((h.setSession hs hmoved).report _ _).push ?_
      simp [Task.On, hdisplay, BusId.thing, hs]

theorem start (h : Alike σ τ w w' m m') {s : SessionId} (hs : σ (.session s) = true)
    (title : String) : Alike σ τ w w' (m.start s title) (m'.start s title) := by
  unfold Machine.start
  rw [h.session? hs]
  cases hsession : m.world.session? s with
  | none => exact h.fail _
  | some session =>
      refine h.carryOut hs (h.session_on hs hsession) (.start title) _ ?_
      intro m m' moved line h hmoved hline
      have hdisplay := hmoved.display
      refine (h.report _ _).push ?_
      simp [Task.On, hdisplay, BusId.thing, hs, hline]

theorem proceed (h : Alike σ τ w w' m m') {s : SessionId} (hs : σ (.session s) = true) :
    Alike σ τ w w' (m.proceed s) (m'.proceed s) := by
  unfold Machine.proceed
  rw [h.session? hs]
  cases hsession : m.world.session? s with
  | none => exact h.fail _
  | some session =>
      refine h.carryOut hs (h.session_on hs hsession) .proceed _ ?_
      intro m m' moved line h _ hline
      exact h.push (by simp [Task.On, hs, hline])

theorem follow (h : Alike σ τ w w' m m') {s : SessionId} (hs : σ (.session s) = true)
    (key destination : String) :
    Alike σ τ w w' (m.follow s key destination) (m'.follow s key destination) := by
  unfold Machine.follow
  rw [h.session? hs]
  cases hsession : m.world.session? s with
  | none => exact h.fail _
  | some session =>
      dsimp only
      rw [h.same.configOf]
      refine h.carryOut hs (h.session_on hs hsession) (.follow _ key destination) _ ?_
      intro m m' moved line h _ hline
      exact h.push (by simp [Task.On, hs, hline])

theorem present (h : Alike σ τ w w' m m') {s : SessionId} (hs : σ (.session s) = true)
    {line : LineRef} (hline : line.On σ) :
    Alike σ τ w w' (m.present s line) (m'.present s line) := by
  unfold Machine.present
  rw [h.session? hs]
  cases hsession : m.world.session? s with
  | none => exact h.fail _
  | some session =>
      have hdisplay := (h.session_on hs hsession).display
      exact h.push (by simp [Task.On, hdisplay, BusId.thing, hs, hline])

theorem fireShown (h : Alike σ τ w w' m m') {s : SessionId} (hs : σ (.session s) = true)
    {line : LineRef} (hline : line.On σ) :
    Alike σ τ w w' (m.fireShown s line) (m'.fireShown s line) := by
  unfold Machine.fireShown
  rw [h.session? hs]
  cases m.world.session? s with
  | none => exact h.fail _
  | some session =>
      dsimp only
      rw [h.same.configOf]
      split
      · exact h.push (by simp [Task.On, Sink.thing, hs, Course.On, hline])
      · exact h

theorem load (h : Alike σ τ w w' m m') {s : SessionId} (hs : σ (.session s) = true)
    (data : Json.Value) (start : Option String) :
    Alike σ τ w w' (m.load s data start) (m'.load s data start) := by
  unfold Machine.load
  rw [h.session? hs]
  cases hsession : m.world.session? s with
  | none => exact h.fail _
  | some session =>
      dsimp only
      rw [h.same.configOf]
      split
      · exact h.fail _
      · rename_i loaded _
        have hloaded : (session.replaceGraph loaded.value).On σ :=
          (h.session_on hs hsession).of_eq rfl rfl rfl
        refine ((h.logAll _).setSession hs hloaded).push ?_
        cases start <;> simp [Task.On, hs]

theorem finish (h : Alike σ τ w w' m m') {s : SessionId} (hs : σ (.session s) = true)
    {onComplete : Option HandlerId}
    (hcomplete : ∀ i, onComplete = some i → σ (.handler i) = true) :
    Alike σ τ w w' (m.finish s onComplete) (m'.finish s onComplete) := by
  unfold Machine.finish
  rw [h.session? hs]
  cases hsession : m.world.session? s with
  | none => exact h.fail _
  | some session =>
      dsimp only
      split
      · exact h.report _ _
      · have hdisplay := (h.session_on hs hsession).display
        have hdeaf := h.modifyDisplay hdisplay
          (f := fun display => { display with bus := World.unlisten s display.bus })
          (fun display hon => ⟨hon.bus.unlisten s, hon.attached, hon.onScreen, hon.pending⟩)
          fun _ _ => rfl
        have hdone := hdeaf.modifySession hs
          (f := fun session => { session with finished := true, actions := Table.empty })
          fun found hfound => ⟨(hdeaf.session_on hs hfound).display,
            (hdeaf.session_on hs hfound).bus, fun _ hmem => absurd hmem List.not_mem_nil⟩
        refine hdone.push ?_
        simpa [Task.On, hdisplay, ClosingOn, Callback.On, hs] using hcomplete

theorem handleAction (h : Alike σ τ w w' m m') {s : SessionId} (hs : σ (.session s) = true)
    (tag param : String) :
    Alike σ τ w w' (m.handleAction s tag param) (m'.handleAction s tag param) := by
  unfold Machine.handleAction
  rw [h.session? hs]
  cases hsession : m.world.session? s with
  | none => exact h.fail _
  | some session =>
      have hhandlers := (h.session_on hs hsession).handlersOf tag
      exact h.push (by simpa [Task.On] using hhandlers)

theorem actions (h : Alike σ τ w w' m m') {sink : Sink} (hsink : σ sink.thing = true)
    {course : Course} (hcourse : course.On σ) :
    Alike σ τ w w' (m.actions sink course) (m'.actions sink course) := by
  have hnext : nextAction m'.world course = nextAction m.world course := by
    cases course with
    | live line n => rw [nextAction, h.same.line hcourse, nextAction]
    | frozen rest => cases rest <;> rfl
  unfold Machine.actions
  rw [hnext]
  split
  · exact h
  · rename_i action rest heq
    have hrest : rest.On σ := by
      cases course with
      | live line n =>
          obtain ⟨_, -, hpair⟩ := Option.map_eq_some_iff.mp heq
          exact (Prod.mk.inj hpair).2 ▸ hcourse
      | frozen actions =>
          cases actions with
          | nil => exact absurd heq (by simp [nextAction])
          | cons first actions => exact (Prod.mk.inj (Option.some.inj heq)).2 ▸ trivial
    refine h.push ?_
    cases sink with
    | session s =>
        have hs : σ (.session s) = true := hsink
        simp [tell, Task.On, Sink.thing, hs, hrest]
    | display d =>
        have hd : σ (.display d) = true := hsink
        simp [tell, Task.On, Sink.thing, BusId.thing, hd, hrest]

theorem multicast (h : Alike σ τ w w' m m') (called : List HandlerId) {waiting : List HandlerId}
    (hwaiting : ∀ i ∈ waiting, σ (.handler i) = true) (param : String) :
    Alike σ τ w w' (m.multicast called waiting param) (m'.multicast called waiting param) := by
  cases waiting with
  | nil => exact h
  | cons i rest => exact h.push (by simpa [Task.On] using hwaiting)

/-! ## The tasks of displays -/

theorem showNode (h : Alike σ τ w w' m m') {d : DisplayId} (hd : σ (.display d) = true)
    (title : String) : Alike σ τ w w' (m.showNode d title) (m'.showNode d title) := by
  unfold Machine.showNode
  rw [h.display? hd]
  split
  · exact h
  · split
    · exact (h.emit _).push (by simp [Task.On])
    · exact h.emit _

theorem setScreen (h : Alike σ τ w w' m m') {d : DisplayId} (hd : σ (.display d) = true)
    {onScreen : Option LineRef} (hline : ∀ line, onScreen = some line → line.On σ) :
    Alike σ τ w w' (m.withWorld fun w => w.modifyDisplay d fun display =>
        { display with onScreen := onScreen })
      (m'.withWorld fun w => w.modifyDisplay d fun display =>
        { display with onScreen := onScreen }) :=
  h.modifyDisplay hd (fun _ hon => ⟨hon.bus, hon.attached, hline, hon.pending⟩) fun _ _ => rfl

theorem clearScreen (h : Alike σ τ w w' m m') {d : DisplayId} (hd : σ (.display d) = true) :
    Alike σ τ w w' (m.clearScreen d) (m'.clearScreen d) :=
  h.setScreen hd (by simp)

theorem showLine (h : Alike σ τ w w' m m') (hnow : ∀ task ∈ now, task.On σ) {d : DisplayId}
    (hd : σ (.display d) = true) {line : LineRef} (hline : line.On σ) :
    Alike σ τ w w' (m.showLine now d line) (m'.showLine now d line) := by
  unfold Machine.showLine
  rw [h.display? hd]
  cases hdisplay : m.world.display? d with
  | none => exact h
  | some display =>
      dsimp only
      rw [h.same.line hline, h.replacementsOf hnow (h.display_on hd hdisplay)]
      split
      · exact (h.emit _).push (by simp [Task.On])
      · exact (h.setScreen hd fun shown heq => Option.some.inj heq ▸ hline).emit _

theorem showOver (h : Alike σ τ w w' m m') {d : DisplayId} (hd : σ (.display d) = true) :
    Alike σ τ w w' (m.showOver d) (m'.showOver d) := by
  unfold Machine.showOver
  rw [h.display? hd]
  split
  · exact h
  · split
    · exact (h.emit _).push (by simp [Task.On])
    · exact h.clearScreen hd

theorem close (h : Alike σ τ w w' m m') {d : DisplayId} (hd : σ (.display d) = true)
    {closing : Option Callback} (hclosing : ClosingOn σ closing) :
    Alike σ τ w w' (m.close d closing) (m'.close d closing) := by
  unfold Machine.close
  rw [h.display? hd]
  split
  · exact h
  · split
    · exact (h.emit _).push (by simp [Task.On, hd, hclosing])
    · exact ((h.emit _).clearScreen hd).push (by simp [Task.On, hd, hclosing])

theorem setOpen (h : Alike σ τ w w' m m') {d : DisplayId} (hd : σ (.display d) = true)
    (isOpen : Bool) :
    Alike σ τ w w' (m.withWorld fun w => w.modifyDisplay d fun display =>
        { display with isOpen := isOpen })
      (m'.withWorld fun w => w.modifyDisplay d fun display => { display with isOpen := isOpen }) :=
  h.modifyDisplay hd (fun _ hon => ⟨hon.bus, hon.attached, hon.onScreen, hon.pending⟩)
    fun _ _ => rfl

theorem shut (h : Alike σ τ w w' m m') {d : DisplayId} (hd : σ (.display d) = true)
    {closing : Option Callback} (hclosing : ClosingOn σ closing) :
    Alike σ τ w w' (m.shut d closing) (m'.shut d closing) := by
  refine (h.setOpen hd false).push (List.forall_mem_map.mpr fun c hc => ?_)
  exact hclosing c (by simpa using hc)

theorem settle (h : Alike σ τ w w' m m') {d : DisplayId} (hd : σ (.display d) = true)
    {closing : Option Callback} (hclosing : ClosingOn σ closing) :
    Alike σ τ w w' (m.settle d closing) (m'.settle d closing) := by
  unfold Machine.settle
  rw [h.display? hd]
  split
  · exact h
  · split
    · refine h.modifyDisplay hd (fun display hon => ?_) fun _ _ => rfl
      refine ⟨hon.bus, hon.attached, hon.onScreen, fun other hother => ?_⟩
      rcases List.mem_append.mp hother with hmem | hmem
      · exact hon.pending other hmem
      · exact List.mem_singleton.mp hmem ▸ hclosing
    · exact h.shut hd hclosing

theorem flush (h : Alike σ τ w w' m m') {d : DisplayId} (hd : σ (.display d) = true)
    (settled : List (Option Callback)) {waiting : List (Option Callback)}
    (hwaiting : ∀ closing ∈ waiting, ClosingOn σ closing) :
    Alike σ τ w w' (m.flush d settled waiting) (m'.flush d settled waiting) := by
  cases waiting with
  | nil => exact h
  | cons closing rest =>
      obtain ⟨hclosing, hrest⟩ := List.forall_mem_cons.mp hwaiting
      exact (h.push (by simpa [Task.On, hd] using hrest)).shut hd hclosing

theorem hook (h : Alike σ τ w w' m m') {name : Option String}
    (hname : ∀ given, name = some given → LeadsTo m.world.handlerNames .handler σ given)
    (text : String) : Alike σ τ w w' (m.hook name text) (m'.hook name text) := by
  cases name with
  | none => exact h
  | some given =>
      unfold Machine.hook
      dsimp only
      rw [h.same.handlerNames]
      cases hget : m.world.handlerNames.get? given with
      | none => exact h.fail _
      | some i => exact h.push (by simpa [Task.On] using hname given rfl i hget)

theorem sessionClosed (h : Alike σ τ w w' m m') (hnow : ∀ task ∈ now, task.On σ) {s : SessionId}
    (hs : σ (.session s) = true) {onComplete : Option HandlerId}
    (hcomplete : ∀ i, onComplete = some i → σ (.handler i) = true) :
    Alike σ τ w w' (m.sessionClosed now s onComplete) (m'.sessionClosed now s onComplete) := by
  unfold Machine.sessionClosed
  rw [h.session? hs]
  cases hsession : m.world.session? s with
  | none => exact h.fail _
  | some session =>
      have hdisplay := (h.session_on hs hsession).display
      have hlet := h.modifyDisplay hdisplay
        (f := fun display =>
          if m.world.attachedTo (Task.heldBy m.world now) display = some s then
            { display with attached := none }
          else display)
        (g := fun display =>
          if m'.world.attachedTo (Task.heldBy m'.world now) display = some s then
            { display with attached := none }
          else display)
        (fun display hon => by
          split
          · exact ⟨hon.bus, by simp, hon.onScreen, hon.pending⟩
          · exact hon)
        (fun display hon => by rw [h.attachedTo hnow hon])
      refine hlet.push ?_
      rw [List.cons_append, List.forall_mem_cons, List.forall_mem_append, List.forall_mem_map]
      refine ⟨⟨hs, Event.on_nil _ _⟩, fun i hi => ?_, by simp [Task.On, hs]⟩
      exact hcomplete i (by simpa using hi)

theorem callback (h : Alike σ τ w w' m m') (hnow : ∀ task ∈ now, task.On σ) {c : Callback}
    (hc : c.On σ) : Alike σ τ w w' (m.callback now c) (m'.callback now c) := by
  cases c with
  | session s onComplete => exact h.sessionClosed hnow hc.1 hc.2
  | handler i =>
      have hi : σ (.handler i) = true := hc
      exact h.push (by simp [Task.On, hi])

/-! ## The tasks of buses -/

theorem publish (h : Alike σ τ w w' m m') {b : BusId} (hb : σ b.thing = true)
    {event : Event LineRef} (hevent : event.On σ) :
    Alike σ τ w w' (m.publish b event) (m'.publish b event) := by
  unfold Machine.publish
  rw [h.same.bus hb, h.same.written hevent]
  split
  · exact (h.modifyBus hb fun _ hbus => hbus.enqueue hevent).give _
  · exact (h.modifyBus hb fun _ hbus => hbus.beginDispatch hevent).push (by simp [Task.On, hb])

theorem dispatch (h : Alike σ τ w w' m m') (hnow : ∀ task ∈ now, task.On σ) {b : BusId}
    (hb : σ b.thing = true) : Alike σ τ w w' (m.dispatch now b) (m'.dispatch now b) := by
  unfold Machine.dispatch
  rw [h.same.bus hb]
  cases hd : (m.world.bus b).dispatching with
  | none => exact h
  | some d =>
      have hon : d.On σ := (h.bus_on hb).dispatching d hd
      have hnext : d.settle.next (m'.world.alive (Task.heldBy m'.world now)) =
          d.settle.next (m.world.alive (Task.heldBy m.world now)) :=
        Dispatch.next_congr fun sub hsub => h.alive hnow (hon.settle.waiting sub hsub)
      dsimp only
      rw [hnext]
      have hnexton := hon.settle.next (m.world.alive (Task.heldBy m.world now))
      generalize d.settle.next (m.world.alive (Task.heldBy m.world now)) = next at hnexton ⊢
      split
      · rename_i sub hcalling
        have hsub := hnexton.calling sub hcalling
        refine (h.modifyBus hb fun _ hbus => hbus.modifyDispatch fun _ _ => hnexton).push ?_
        simp [Task.On, hb, hsub]
      · refine (h.modifyBus hb fun _ hbus => hbus.endDispatch next).push ?_
        simp [Task.On, hb, hnexton.event]

theorem drain (h : Alike σ τ w w' m m') {b : BusId} (hb : σ b.thing = true)
    {event : Event LineRef} (hevent : event.On σ) (holds : List Listener) :
    Alike σ τ w w' (m.drain b event holds) (m'.drain b event holds) := by
  unfold Machine.drain
  rw [h.same.bus hb, h.same.written hevent]
  cases hqueue : (m.world.bus b).queue with
  | nil => exact h.give _
  | cons first rest =>
      have hon := (h.bus_on hb).queue
      rw [hqueue] at hon
      obtain ⟨hfirst, hrest⟩ := List.forall_mem_cons.mp hon
      refine (h.modifyBus hb fun _ hbus => (hbus.setQueue hrest).beginDispatch hfirst).push ?_
      simp [Task.On, hb, hevent]

theorem deliver (h : Alike σ τ w w' m m') {b : BusId} (hb : σ b.thing = true)
    {listener : Listener} (hlistener : listener.On σ) :
    Alike σ τ w w' (m.deliver b listener) (m'.deliver b listener) := by
  unfold Machine.deliver
  rw [h.same.bus hb]
  cases hd : (m.world.bus b).dispatching with
  | none => exact h
  | some d =>
      have hevent := ((h.bus_on hb).dispatching d hd).event
      cases listener with
      | handler i =>
          have hi : σ (.handler i) = true := hlistener
          exact h.push (by simp [Task.On, hi, hb])
      | observer s =>
          dsimp only
          rw [h.same.labelOf hlistener, h.same.written hevent]
          exact h.emit _
      | input s kind =>
          have hs : σ (.session s) = true := hlistener
          refine h.push ?_
          cases kind <;> simp [input, Task.On, hs]

/-! ## The tasks of handlers -/

/-- A handler that both sides have is put back as it was. -/
theorem setHandler (h : Alike σ τ w w' m m') {i : HandlerId} {handler : Handler}
    {rounds : List (Nat × List Step)} (hi : σ (.handler i) = true)
    (hhandler : m.world.handler? i = some handler)
    (hbehaviour : handler.behaviour = .scripted rounds) :
    Alike σ τ w w'
      (m.withWorld fun w =>
        w.setHandler i { handler with behaviour := .scripted (nextRound rounds).2 })
      (m'.withWorld fun w =>
        w.setHandler i { handler with behaviour := .scripted (nextRound rounds).2 }) := by
  have hback : τ (.handler i) = true →
      m.world.handler? i = some { handler with behaviour := .scripted (nextRound rounds).2 } := by
    intro hτ
    have hsteady := (h.parted.handler hi hτ).steady handler hhandler rounds hbehaviour
    rw [hsteady, ← hbehaviour]
    exact hhandler
  refine h.withWorld (h.same.setHandler i _) ?_ (World.sameOn_setHandler hback)
    (World.sameOn_setHandler fun hτ => (h.same.handler i hi).trans (hback hτ))
  exact ⟨h.parted.left.session, h.parted.left.display, h.parted.left.free⟩

theorem runHandler (h : Alike σ τ w w' m m') {i : HandlerId} (hi : σ (.handler i) = true)
    {source : Option BusId} (hsource : ∀ b, source = some b → σ b.thing = true)
    (argument : Argument) :
    Alike σ τ w w' (m.runHandler i source argument) (m'.runHandler i source argument) := by
  unfold Machine.runHandler
  rw [h.same.handler i hi]
  cases hhandler : m.world.handler? i with
  | none => exact h.fail _
  | some handler =>
      dsimp only
      split
      · exact h.emit _
      · rename_i rounds hbehaviour
        refine ((h.emit _).setHandler hi hhandler hbehaviour).push ?_
        simpa [Task.On, hi] using hsource

theorem callWith (h : Alike σ τ w w' m m') {i : HandlerId} (hi : σ (.handler i) = true)
    {b : BusId} (hb : σ b.thing = true) :
    Alike σ τ w w' (m.callWith i b) (m'.callWith i b) := by
  unfold Machine.callWith
  rw [h.same.bus hb]
  cases hd : (m.world.bus b).dispatching with
  | none => exact h
  | some d =>
      dsimp only
      rw [h.same.written ((h.bus_on hb).dispatching d hd).event]
      exact h.runHandler hi (by simpa using hb) _

theorem script (h : Alike σ τ w w' m m') {i : HandlerId} (hi : σ (.handler i) = true)
    {source : Option BusId} (hsource : ∀ b, source = some b → σ b.thing = true)
    (steps : List Step) :
    Alike σ τ w w' (m.script i source steps) (m'.script i source steps) := by
  have hrest : ∀ rest, (Task.script i source rest).On σ := fun _ => ⟨hi, hsource⟩
  unfold Machine.script
  split
  · exact h
  · cases source with
    | none => exact h.push (List.forall_mem_singleton.mpr (hrest _))
    | some b =>
        exact (h.modifyBus (hsource b rfl) fun _ hbus => hbus.consume).push
          (List.forall_mem_singleton.mpr (hrest _))
  · exact h.fail _
  · refine h.push (List.forall_mem_cons.mpr ⟨trivial, ?_⟩)
    exact List.forall_mem_cons.mpr ⟨hi, List.forall_mem_singleton.mpr (hrest _)⟩

theorem returned (h : Alike σ τ w w' m m') {i : HandlerId} (hi : σ (.handler i) = true)
    (step : String) : Alike σ τ w w' (m.returned i step) (m'.returned i step) := by
  unfold Machine.returned
  rw [h.result, h.same.handler i hi]
  split
  · exact h
  · exact h.emit _

end Alike

end Parley.Machine
