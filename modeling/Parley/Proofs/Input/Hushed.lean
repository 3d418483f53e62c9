import Parley.Proofs.Session.Passage

/-!
# Displays that nobody listens to

With the bus of a display put back to an unused one (`hush`), what the display reports reaches
nobody.  Nearly every change of a world is the same change with the display hushed; only new
subscriptions on its bus are lost.  As long as exactly one session hears the input of the
display (`Hears`), there are none.
-/

namespace Parley

namespace Bus

/-- A listener that subscribes is subscribed. -/
theorem isSubscribed_subscribe (bus : Bus) (type : EventType) (sub : Subscription) :
    (bus.subscribe type sub).isSubscribed type sub.listener = true := by
  unfold subscribe
  split
  · assumption
  · rw [isSubscribed, subscriptions_update_self, List.any_eq_true]
    exact ⟨sub, mem_insertByPriority.mpr (.inl rfl), by simp⟩

@[simp] theorem unsubscribe_unused (type : EventType) (listener : Listener) :
    ({} : Bus).unsubscribe type listener = {} := by
  rw [unsubscribe, update]
  congr 1
  funext other
  split <;> rfl

@[simp] theorem clear_unused (type : Option EventType) : ({} : Bus).clear type = {} := by
  cases type with
  | none => rfl
  | some type =>
      rw [clear, update]
      congr 1
      funext other
      split <;> rfl

end Bus

namespace World

theorem unlisten_unused (s : SessionId) : unlisten s {} = {} := by
  simp [unlisten, ContextEvent.all]

variable {w : World} {d e : DisplayId} {s : SessionId}

/-- The world with an unused bus for a display. -/
def hush (w : World) (d : DisplayId) : World :=
  w.modifyDisplay d fun display => { display with bus := {} }

/-! ## Looking things up -/

@[simp] theorem session?_hush (w : World) (d : DisplayId) (s : SessionId) :
    (w.hush d).session? s = w.session? s := rfl

@[simp] theorem handler?_hush (w : World) (d : DisplayId) (h : HandlerId) :
    (w.hush d).handler? h = w.handler? h := rfl

@[simp] theorem manager?_hush (w : World) (d : DisplayId) (id : ManagerId) :
    (w.hush d).manager? id = w.manager? id := rfl

theorem display?_hush (w : World) (d e : DisplayId) :
    (w.display? e = none ∧ (w.hush d).display? e = none) ∨
      ∃ display bus, w.display? e = some display ∧
        (w.hush d).display? e = some { display with bus := bus } := by
  rw [hush, display?_modifyDisplay]
  cases he : w.display? e with
  | none => exact .inl ⟨rfl, by simp⟩
  | some display =>
      refine .inr ⟨display, if d = e then {} else display.bus, rfl, ?_⟩
      split <;> rfl

@[simp] theorem bus_hush_self (w : World) (d : DisplayId) : (w.hush d).bus (.display d) = {} := by
  rw [hush, bus_modifyDisplay, if_pos rfl]
  cases w.display? d <;> rfl

theorem bus_hush_of_ne {b : BusId} (h : b ≠ .display d) : (w.hush d).bus b = w.bus b := by
  rw [hush, bus_modifyDisplay, if_neg h]

/-! ## Changing things -/

/-- Changes of two displays, or of one in ways that do not matter to each other, may be made in
either order. -/
theorem modifyDisplay_comm {f g : Display → Display}
    (h : d = e → ∀ display, f (g display) = g (f display)) :
    (w.modifyDisplay e g).modifyDisplay d f = (w.modifyDisplay d f).modifyDisplay e g := by
  simp only [modifyDisplay]
  by_cases hd : d = e
  · subst hd
    rw [List.modify_modify_eq, List.modify_modify_eq]
    congr 2
    funext display
    exact h rfl display
  · have hindex : e.index ≠ d.index := fun heq => hd (by cases d; cases e; simp_all)
    rw [List.modify_modify_ne _ _ _ hindex]

theorem hush_modifyDisplay {f : Display → Display}
    (h : ∀ display : Display, ({ f display with bus := {} } : Display) =
      f { display with bus := {} }) :
    (w.modifyDisplay e f).hush d = (w.hush d).modifyDisplay e f :=
  modifyDisplay_comm fun _ => h

@[simp] theorem hush_modifySession (f : Session → Session) :
    (w.modifySession s f).hush d = (w.hush d).modifySession s f := rfl

/-- What is done to the bus of a display does not matter once it is hushed. -/
theorem hush_modifyBus_self (f : Bus → Bus) : (w.modifyBus (.display d) f).hush d = w.hush d := by
  simp only [hush, modifyBus, modifyDisplay, List.modify_modify_eq]
  rfl

theorem modifyBus_hush_self {f : Bus → Bus} (h : f {} = {}) :
    (w.hush d).modifyBus (.display d) f = w.hush d := by
  simp only [hush, modifyBus, modifyDisplay, List.modify_modify_eq]
  congr 2
  funext display
  simp [h]

theorem modifyBus_modifyBus (w : World) (e : DisplayId) (f g : Bus → Bus) :
    (w.modifyBus (.display e) f).modifyBus (.display e) g =
      w.modifyBus (.display e) (g ∘ f) := by
  simp only [modifyBus, modifyDisplay, List.modify_modify_eq]
  rfl

theorem hush_modifyBus_of_ne {b : BusId} (hb : b ≠ .display d) (f : Bus → Bus) :
    (w.modifyBus b f).hush d = (w.hush d).modifyBus b f := by
  cases b with
  | display e =>
      exact modifyDisplay_comm fun heq => absurd (heq ▸ rfl) hb
  | session s => rfl
  | free name => rfl

/-- A change that does nothing to an unused bus is the same with the display hushed. -/
theorem hush_modifyBus {f : Bus → Bus} (h : f {} = {}) (b : BusId) :
    (w.modifyBus b f).hush d = (w.hush d).modifyBus b f := by
  by_cases hb : b = .display d
  · subst hb
    rw [hush_modifyBus_self, modifyBus_hush_self h]
  · exact hush_modifyBus_of_ne hb f

theorem hush_addDisplay (hd : w.HasBus (.display d)) (display : Display) :
    (w.addDisplay display).1.hush d = ((w.hush d).addDisplay display).1 := by
  have hlt : d.index < w.displays.length := hd
  simp only [addDisplay, hush, modifyDisplay]
  congr 1
  apply List.ext_getElem?
  intro i
  by_cases hi : i < w.displays.length
  · rw [List.getElem?_append_left (by rwa [List.length_modify]), List.getElem?_modify,
      List.getElem?_modify, List.getElem?_append_left hi]
  · have hne : d.index ≠ i := by omega
    simp [List.getElem?_append, hi, hne]

theorem length_displays_hush (w : World) (d : DisplayId) :
    (w.hush d).displays.length = w.displays.length := by
  simp [hush, modifyDisplay]

theorem hush_addSession (session : Session) (h : session.display ≠ d) :
    (w.addSession session).1.hush d = ((w.hush d).addSession session).1 :=
  modifyDisplay_comm fun heq => absurd heq.symm h

/-! ## Hearing a display -/

/-- A session hears the input of a display, and nobody else hears anything of it. -/
def Hears (d : DisplayId) (s : SessionId) (w : World) : Prop :=
  (w.bus (.display d)).subscriptions = (listen s {}).subscriptions

instance : Decidable (Hears d s w) :=
  decidable_of_iff (∀ type ∈ EventType.all,
    (w.bus (.display d)).subscriptions type = (listen s {}).subscriptions type)
    ⟨fun h => funext fun type => h type type.mem_all, fun h type _ => congrFun h type⟩

theorem subscriptions_listen (s : SessionId) (kind : ContextEvent) :
    (listen s {}).subscriptions (.context kind) = [⟨0, .input s kind, true, false⟩] := by
  cases kind <;> rfl

theorem subscriptions_listen_dialogue (s : SessionId) (event : DialogueEvent) :
    (listen s {}).subscriptions (.dialogue event) = [] := by
  cases event <;> rfl

theorem mem_subscriptions_listen {sub : Subscription} {type : EventType}
    (h : sub ∈ (listen s {}).subscriptions type) :
    ∃ kind, type = .context kind ∧ sub = ⟨0, .input s kind, true, false⟩ := by
  cases type with
  | context kind =>
      rw [subscriptions_listen, List.mem_singleton] at h
      exact ⟨kind, rfl, h⟩
  | dialogue event =>
      rw [subscriptions_listen_dialogue] at h
      exact absurd h (by simp)

theorem Hears.hasBus (h : Hears d s w) : w.HasBus (.display d) := by
  cases hd : w.display? d with
  | some display => exact hasBus_display hd
  | none =>
      have hsubs := congrFun h (.context .continuePressed)
      rw [subscriptions_listen, bus, hd] at hsubs
      exact absurd hsubs (by simp)

/-- No other listener may have subscribed there. -/
theorem not_hears_of_subscribe {bus : Bus} {type : EventType} {sub : Subscription}
    (hsub : ∀ kind, sub.listener ≠ .input s kind)
    (hbus : w.bus (.display d) = bus.subscribe type sub) : ¬ Hears d s w := by
  intro h
  have hmem := Bus.isSubscribed_subscribe bus type sub
  rw [← hbus, Bus.isSubscribed, h, List.any_eq_true] at hmem
  obtain ⟨other, hother, hlistener⟩ := hmem
  obtain ⟨kind, -, rfl⟩ := mem_subscriptions_listen hother
  exact hsub kind (beq_iff_eq.mp hlistener).symm

theorem isSubscribed_listen (s : SessionId) (bus : Bus) :
    (listen s bus).isSubscribed (.context .continuePressed) (.input s .continuePressed) = true := by
  have hfirst := Bus.isSubscribed_subscribe bus (.context .continuePressed)
    ⟨0, .input s .continuePressed, true, false⟩
  rw [Bus.isSubscribed] at hfirst
  simp only [listen, ContextEvent.all, List.foldl_cons, List.foldl_nil, Bus.isSubscribed]
  rw [Bus.subscriptions_subscribe_of_ne (by simp), Bus.subscriptions_subscribe_of_ne (by simp)]
  exact hfirst

/-- Nor may another session have been made there. -/
theorem not_hears_addSession {session : Session} (hd : w.HasBus (.display d))
    (hs : s.index < w.sessions.length) (hdisplay : session.display = d) :
    ¬ Hears d s (w.addSession session).1 := by
  intro h
  obtain ⟨display, hfound⟩ : ∃ display, w.display? d = some display :=
    ⟨_, List.getElem?_eq_getElem hd⟩
  have hbus : (w.addSession session).1.bus (.display d) =
      listen ⟨w.sessions.length⟩ display.bus := by
    have hkept : (w.enrol session).display? d = some display := hfound
    rw [addSession, bus_modifyDisplay, hdisplay, if_pos rfl, hkept]
    rfl
  have hnew := isSubscribed_listen ⟨w.sessions.length⟩ display.bus
  rw [← hbus, Bus.isSubscribed, h, subscriptions_listen] at hnew
  simp only [List.any_cons, List.any_nil, Bool.or_false, beq_iff_eq, Listener.input.injEq,
    and_true] at hnew
  rw [hnew] at hs
  exact absurd hs (Nat.lt_irrefl _)

/-! ## Who is alive -/

/-- A bus that only sessions listen to holds nobody firmly. -/
theorem Hears.holds_eq_nil (h : Hears d s w) : (w.bus (.display d)).holds = [] := by
  rw [Bus.holds, List.flatMap_eq_nil_iff]
  intro type _
  rw [h, List.map_eq_nil_iff, List.filter_eq_nil_iff]
  intro sub hsub
  obtain ⟨kind, -, rfl⟩ := mem_subscriptions_listen hsub
  simp

/-- Two holds on the same things. -/
structure SameHold (held held' : Held) : Prop where
  sessions : ∀ t, t ∈ held.sessions ↔ t ∈ held'.sessions
  handlers : ∀ h, h ∈ held.handlers ↔ h ∈ held'.handlers
  managers : ∀ id, id ∈ held.managers ↔ id ∈ held'.managers

variable {held held' : Held}

theorem mem_liveSessions_hush (hheld : SameHold held held') (t : SessionId) :
    t ∈ w.liveSessions held ↔ t ∈ (w.hush d).liveSessions held' := by
  have hpending : (w.hush d).displays.flatMap (fun display =>
      display.pending.flatMap callbackSessions) =
        w.displays.flatMap fun display => display.pending.flatMap callbackSessions :=
    flatMap_modify fun _ _ => rfl
  simp only [liveSessions, List.mem_append, hpending, hheld.sessions, List.mem_flatMap,
    hheld.managers]
  rfl

theorem mem_liveHandlers_hush (h : Hears d s w) (hheld : SameHold held held') (id : HandlerId) :
    id ∈ w.liveHandlers held ↔ id ∈ (w.hush d).liveHandlers held' := by
  have hdisplays : (w.hush d).displays.flatMap (fun display =>
      display.pending.flatMap callbackHandlers ++ listenerHandlers display.bus.holds) =
        w.displays.flatMap fun display =>
          display.pending.flatMap callbackHandlers ++ listenerHandlers display.bus.holds := by
    refine flatMap_modify fun display hdisplay => ?_
    have hholds := h.holds_eq_nil
    rw [bus, display?, hdisplay, Option.elim_some] at hholds
    rw [hholds]
    rfl
  simp only [liveHandlers, List.mem_append, hdisplays, hheld.handlers, List.mem_flatMap,
    mem_liveSessions_hush (d := d) hheld]
  rfl

/-- The same listeners are alive with the display hushed. -/
theorem alive_hush (h : Hears d s w) (hheld : SameHold held held') :
    (w.hush d).alive held' = w.alive held := by
  funext listener
  rw [Bool.eq_iff_iff]
  cases listener with
  | handler id => simp [alive, mem_liveHandlers_hush h hheld id]
  | observer t => rfl
  | input t kind => simp [alive, sessionAlive, mem_liveSessions_hush (d := d) hheld t]

end World

end Parley
