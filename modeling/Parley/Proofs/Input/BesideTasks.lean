import Parley.Proofs.Input.Beside

/-!
# Tasks beside a hushed display

The tasks of sessions, managers, displays and handlers, one after the other: each does the same
on both sides.
-/

namespace Parley.Machine

variable {d : DisplayId} {s : SessionId} {earlier : List TraceEntry} {m m' : Machine}
  {now now' : List Task}

/-! ## The tasks of sessions and managers -/

theorem Twin.carryOut (h : Twin d s earlier m m') (t : SessionId) (refused : Option Answer)
    (move : Session.Move) {shown : Session → LineRef → Machine → Machine}
    (hshown : ∀ {m m' : Machine} moved line, Twin d s earlier m m' →
      Twin d s earlier (shown moved line m) (shown moved line m')) :
    Beside d s earlier (m.carryOut t refused move shown) (m'.carryOut t refused move shown) := by
  cases move with
  | refuse entry =>
      cases refused with
      | none => exact (h.logAll _).beside
      | some answer => exact ((h.logAll _).give _ _).beside
  | fail moved failure => exact (h.setSession t moved).fail failure
  | display moved key index => exact (hshown _ _ (h.setSession t moved)).beside
  | ended moved => exact (((h.setSession t moved).report _ _).push (by simp)).beside

theorem Twin.start (h : Twin d s earlier m m') (t : SessionId) (title : String) :
    Beside d s earlier (m.start t title) (m'.start t title) := by
  unfold Machine.start
  rw [h.session? t]
  cases m.world.session? t with
  | none => exact h.fail _
  | some session => exact h.carryOut _ _ _ fun _ _ h => (h.report _ _).push (by simp)

theorem Twin.proceed (h : Twin d s earlier m m') (t : SessionId) :
    Beside d s earlier (m.proceed t) (m'.proceed t) := by
  unfold Machine.proceed
  rw [h.session? t]
  cases m.world.session? t with
  | none => exact h.fail _
  | some session => exact h.carryOut _ _ _ fun _ _ h => h.push (by simp)

theorem Twin.follow (h : Twin d s earlier m m') (t : SessionId) (key destination : String) :
    Beside d s earlier (m.follow t key destination) (m'.follow t key destination) := by
  unfold Machine.follow
  rw [h.session? t]
  cases m.world.session? t with
  | none => exact h.fail _
  | some session =>
      dsimp only
      rw [h.configOf]
      exact h.carryOut _ _ _ fun _ _ h => h.push (by simp)

theorem Twin.present (h : Twin d s earlier m m') (t : SessionId) (line : LineRef) :
    Beside d s earlier (m.present t line) (m'.present t line) := by
  unfold Machine.present
  rw [h.session? t]
  cases m.world.session? t with
  | none => exact h.fail _
  | some session => exact (h.push (by simp)).beside

theorem Twin.fireShown (h : Twin d s earlier m m') (t : SessionId) (line : LineRef) :
    Beside d s earlier (m.fireShown t line) (m'.fireShown t line) := by
  unfold Machine.fireShown
  rw [h.session? t]
  cases m.world.session? t with
  | none => exact h.fail _
  | some session =>
      dsimp only
      rw [h.configOf]
      split
      · exact (h.push (by simp)).beside
      · exact h.beside

theorem Twin.load (h : Twin d s earlier m m') (t : SessionId) (data : Json.Value)
    (start : Option String) :
    Beside d s earlier (m.load t data start) (m'.load t data start) := by
  unfold Machine.load
  rw [h.session? t]
  cases m.world.session? t with
  | none => exact h.fail _
  | some session =>
      dsimp only
      rw [h.configOf]
      split
      · exact h.fail _
      · refine (((h.logAll _).setSession t _).push ?_).beside
        cases start <;> simp

theorem Twin.finish (h : Twin d s earlier m m') (t : SessionId) (onComplete : Option HandlerId) :
    Beside d s earlier (m.finish t onComplete) (m'.finish t onComplete) := by
  unfold Machine.finish
  rw [h.session? t]
  cases m.world.session? t with
  | none => exact h.fail _
  | some session =>
      dsimp only
      split
      · exact (h.report _ _).beside
      · refine ((h.withWorld ?_).push (by simp)).beside
        rw [World.hush_modifySession, World.hush_modifyDisplay]
        exact fun display => by rw [World.unlisten_unused]

theorem Twin.handleAction (h : Twin d s earlier m m') (t : SessionId) (tag param : String) :
    Beside d s earlier (m.handleAction t tag param) (m'.handleAction t tag param) := by
  unfold Machine.handleAction
  rw [h.session? t]
  cases m.world.session? t with
  | none => exact h.fail _
  | some session => exact (h.push (by simp)).beside

theorem Twin.actions (h : Twin d s earlier m m') (sink : Sink) (course : Course) :
    Beside d s earlier (m.actions sink course) (m'.actions sink course) := by
  have hnext : nextAction m'.world course = nextAction m.world course := by
    cases course with
    | live line n => rw [nextAction, nextAction, h.line]
    | frozen rest => cases rest <;> rfl
  unfold Machine.actions
  rw [hnext]
  split
  · exact h.beside
  · refine (h.push ?_).beside
    cases sink <;> simp [tell]

theorem Twin.multicast (h : Twin d s earlier m m') (called waiting : List HandlerId)
    (param : String) :
    Beside d s earlier (m.multicast called waiting param)
      (m'.multicast called waiting param) := by
  cases waiting with
  | nil => exact h.beside
  | cons handler rest => exact (h.push (by simp)).beside

theorem Twin.launch (h : Twin d s earlier m m') (hd : m.world.HasBus (.display d))
    (hs : s.index < m.world.sessions.length) (id : ManagerId) (graph : Ref Graph) (e : DisplayId)
    (title : String) (node : Option String) (name : String)
    (hears : (m.launch id graph e title node name).world.Hears d s) :
    Beside d s earlier (m.launch id graph e title node name)
      (m'.launch id graph e title node name) := by
  obtain ⟨w', agenda', trace', result'⟩ := m'
  obtain rfl : w' = m.world.hush d := h.world
  rw [launch_eq] at hears ⊢
  rw [launch_eq]
  rw [World.manager?_hush]
  cases hmanager : m.world.manager? id with
  | none => exact h.fail _
  | some settings =>
      rw [hmanager] at hears
      -- A session made on this display would be heard there.
      have hdisplay : e ≠ d := fun heq =>
        World.not_hears_addSession (World.hasBus_modifyDisplay.mpr hd) hs heq hears
      have hworld := World.hush_addSession (w := m.world.modifyDisplay e fun display =>
        { display with isOpen := true })
        { display := e, config := settings.config, graph := some (m.world.graph graph).clone }
        hdisplay
      rw [World.hush_modifyDisplay fun _ => rfl] at hworld
      refine ((h.setWorld ?_).push ?_).beside
      · exact congrArg (World.modifyManager · id _) hworld.symm
      · cases node <;> simp

theorem Twin.forget (h : Twin d s earlier m m') (id : ManagerId) :
    Beside d s earlier (m.forget id) (m'.forget id) :=
  (h.withWorld rfl).beside

theorem Twin.adopt (h : Twin d s earlier m m') (t : SessionId) (name : String) (answer : Answer) :
    Beside d s earlier ((m.withWorld fun w => w.adopt t name).give answer)
      ((m'.withWorld fun w => w.adopt t name).give answer) :=
  ((h.withWorld rfl).give _ _).beside

/-! ## The tasks of displays -/

theorem Twin.showNode (h : Twin d s earlier m m') (e : DisplayId) (title : String) :
    Beside d s earlier (m.showNode e title) (m'.showNode e title) := by
  unfold Machine.showNode
  rcases h.display? e with ⟨he, he'⟩ | ⟨display, bus, he, he'⟩ <;> rw [he, he']
  · exact h.beside
  · dsimp only
    split
    · exact ((h.emit _).push (by simp)).beside
    · exact (h.emit _).beside

theorem Twin.showLine (h : Twin d s earlier m m') (hlife : SameLife now now' m m')
    (e : DisplayId) (line : LineRef) :
    Beside d s earlier (m.showLine now e line) (m'.showLine now' e line) := by
  unfold Machine.showLine
  rcases h.display? e with ⟨he, he'⟩ | ⟨display, bus, he, he'⟩ <;> rw [he, he']
  · exact h.beside
  · dsimp only
    rw [h.line]
    split
    · exact ((h.emit _).push (by simp)).beside
    · rw [h.replacementsOf hlife]
      exact ((h.modifyDisplay fun _ => rfl).emit _).beside

theorem Twin.clearScreen (h : Twin d s earlier m m') (e : DisplayId) :
    Twin d s earlier (m.clearScreen e) (m'.clearScreen e) :=
  h.modifyDisplay fun _ => rfl

theorem Twin.showOver (h : Twin d s earlier m m') (e : DisplayId) :
    Beside d s earlier (m.showOver e) (m'.showOver e) := by
  unfold Machine.showOver
  rcases h.display? e with ⟨he, he'⟩ | ⟨display, bus, he, he'⟩ <;> rw [he, he']
  · exact h.beside
  · dsimp only
    split
    · exact ((h.emit _).push (by simp)).beside
    · exact (h.clearScreen e).beside

theorem Twin.close (h : Twin d s earlier m m') (e : DisplayId) (callback : Option Callback) :
    Beside d s earlier (m.close e callback) (m'.close e callback) := by
  unfold Machine.close
  rcases h.display? e with ⟨he, he'⟩ | ⟨display, bus, he, he'⟩ <;> rw [he, he']
  · exact h.beside
  · dsimp only
    split
    · exact ((h.emit _).push (by simp)).beside
    · exact (((h.emit _).clearScreen e).push (by simp)).beside

theorem Twin.shut (h : Twin d s earlier m m') (e : DisplayId) (callback : Option Callback) :
    Twin d s earlier (m.shut e callback) (m'.shut e callback) := by
  refine (h.modifyDisplay fun _ => rfl).push ?_
  cases callback <;> simp

theorem Twin.settle (h : Twin d s earlier m m') (e : DisplayId) (callback : Option Callback) :
    Beside d s earlier (m.settle e callback) (m'.settle e callback) := by
  unfold Machine.settle
  rcases h.display? e with ⟨he, he'⟩ | ⟨display, bus, he, he'⟩ <;> rw [he, he']
  · exact h.beside
  · have hdeferred : isDeferred { display with bus := bus } = isDeferred display := rfl
    dsimp only
    rw [hdeferred]
    split
    · exact (h.modifyDisplay fun _ => rfl).beside
    · exact (h.shut e callback).beside

theorem Twin.flush (h : Twin d s earlier m m') (e : DisplayId)
    (settled waiting : List (Option Callback)) :
    Beside d s earlier (m.flush e settled waiting) (m'.flush e settled waiting) := by
  cases waiting with
  | nil => exact h.beside
  | cons callback rest => exact ((h.push (by simp)).shut e callback).beside

theorem Twin.hook (h : Twin d s earlier m m') (name : Option String) (text : String) :
    Beside d s earlier (m.hook name text) (m'.hook name text) := by
  unfold Machine.hook
  rw [h.handlerNames]
  split
  · exact h.beside
  · split
    · exact h.fail _
    · exact (h.push (by simp)).beside

theorem Twin.sessionClosed (h : Twin d s earlier m m') (hlife : SameLife now now' m m')
    (t : SessionId) (onComplete : Option HandlerId) :
    Beside d s earlier (m.sessionClosed now t onComplete)
      (m'.sessionClosed now' t onComplete) := by
  unfold Machine.sessionClosed
  rw [h.session? t]
  cases m.world.session? t with
  | none => exact h.fail _
  | some session =>
      have hattached : ∀ display, (m.world.hush d).attachedTo
          (Task.heldBy (m.world.hush d) now') display =
            m.world.attachedTo (Task.heldBy m.world now) display := fun display =>
        h.world ▸ hlife.attachedTo display display.bus
      refine (Twin.push (h.withWorld ?_) ?_).beside
      · rw [h.world]
        simp only [hattached]
        refine World.hush_modifyDisplay fun display => ?_
        by_cases ht : m.world.attachedTo (Task.heldBy m.world now) display = some t
        · rw [if_pos ht]
          exact (if_pos (c := _ = some t) ht).symm
        · rw [if_neg ht]
          exact (if_neg (c := _ = some t) ht).symm
      · cases onComplete <;> simp

theorem Twin.callback (h : Twin d s earlier m m') (hlife : SameLife now now' m m')
    (c : Callback) : Beside d s earlier (m.callback now c) (m'.callback now' c) := by
  cases c with
  | session t onComplete => exact h.sessionClosed hlife t onComplete
  | handler handler => exact (h.push (by simp)).beside

/-! ## The tasks of handlers -/

theorem Twin.runHandler (h : Twin d s earlier m m') (handler : HandlerId)
    {source : Option BusId} (hsource : source ≠ some (.display d)) (argument : Argument) :
    Beside d s earlier (m.runHandler handler source argument)
      (m'.runHandler handler source argument) := by
  unfold Machine.runHandler
  rw [h.handler? handler]
  split
  · exact h.fail _
  · split
    · exact (h.emit _).beside
    · exact (((h.emit _).withWorld rfl).push (by simpa using hsource)).beside

theorem Twin.deliver (h : Twin d s earlier m m') {b : BusId} (hb : b ≠ .display d)
    (listener : Listener) : Beside d s earlier (m.deliver b listener) (m'.deliver b listener) := by
  unfold Machine.deliver
  rw [h.bus hb]
  split
  · exact h.beside
  · cases listener with
    | handler handler => exact (h.push (by simpa using hb)).beside
    | observer t =>
        dsimp only
        rw [h.labelOf, h.written]
        exact (h.emit _).beside
    | input t kind =>
        refine (h.push ?_).beside
        cases kind <;> simp [input]

theorem Twin.callWith (h : Twin d s earlier m m') (handler : HandlerId) {b : BusId}
    (hb : b ≠ .display d) :
    Beside d s earlier (m.callWith handler b) (m'.callWith handler b) := by
  unfold Machine.callWith
  rw [h.bus hb]
  split
  · exact h.beside
  · rw [h.written]
    exact h.runHandler handler (by simpa using hb) _

theorem Twin.script (h : Twin d s earlier m m') (handler : HandlerId) {source : Option BusId}
    (hsource : source ≠ some (.display d)) (steps : List Step) :
    Beside d s earlier (m.script handler source steps) (m'.script handler source steps) := by
  unfold Machine.script
  split
  · exact h.beside
  · cases source with
    | none => exact (h.push (by simp)).beside
    | some b =>
        have hb : b ≠ .display d := by simpa using hsource
        exact ((h.withWorld (World.hush_modifyBus_of_ne hb _)).push (by simpa using hb)).beside
  · exact h.fail _
  · exact (h.push (by simpa using hsource)).beside

theorem Twin.returned (h : Twin d s earlier m m') (handler : HandlerId) (step : String) :
    Beside d s earlier (m.returned handler step) (m'.returned handler step) := by
  obtain ⟨answer, hanswer⟩ := h.result
  unfold Machine.returned
  rw [hanswer]
  cases m.result with
  | error failure =>
      have hunseen : ∀ name, Twin d s earlier (m.emit []) (m'.emit [.returned name step answer]) :=
        fun name => h.emitUnseen rfl rfl
      have hkept : m.emit [] = m := by rw [Machine.emit, List.append_nil]
      rw [hkept] at hunseen
      exact (hunseen _).beside
  | ok _ => exact (h.emitUnseen rfl rfl).beside

end Parley.Machine
