import Parley.Machine.Run
import Parley.Proofs.Bus.Calm

/-!
# Sides

A side is a choice of things of a world: sessions, displays, handlers and free buses.  What a
thing holds is on a side if everything it refers to is.  A side is closed in a world if its things
are on it, so that whatever is done with them leads only to things of the same side.

Two sides part a world if both are closed in it and together they have everything (`Parted`).
What both may have are handlers that a call leaves as they are.  The settings, the managers and the
names belong to no side.
-/

namespace Parley

/-- A thing of a world that can be changed by itself. -/
inductive Thing where
  | session (s : SessionId)
  | display (d : DisplayId)
  | handler (h : HandlerId)
  /-- A free bus, by its name. -/
  | free (name : String)
  deriving DecidableEq, Repr

/-- A choice of things. -/
abbrev Side := Thing → Bool

variable {σ : Side}

/-- What is asked of a thing that may be missing can be decided. -/
instance decidableForallEqSome {α : Type} {p : α → Prop} [DecidablePred p] :
    (o : Option α) → Decidable (∀ a, o = some a → p a)
  | none => isTrue fun _ h => absurd h (by simp)
  | some a => decidable_of_iff (p a) ⟨fun h _ heq => Option.some.inj heq ▸ h, fun h => h a rfl⟩

/-! ## Events and listeners -/

def LineRef.On (σ : Side) (line : LineRef) : Prop :=
  σ (.session line.session) = true

def Datum.On (σ : Side) : Datum LineRef → Prop
  | .line ref => ref.On σ
  | _ => True

/-- The lines in the data of an event are on a side. -/
def Event.On (σ : Side) (event : Event LineRef) : Prop :=
  ∀ entry ∈ event.data, entry.2.On σ

@[simp] theorem Datum.on_text (text : String) : (Datum.text text).On σ := trivial

@[simp] theorem Datum.on_node (title : String) : (Datum.node title).On σ := trivial

@[simp] theorem Datum.on_line {line : LineRef} : (Datum.line line).On σ ↔ line.On σ := Iff.rfl

@[simp] theorem Event.on_nil (type : EventType) (consumed : Bool) :
    (⟨type, [], consumed⟩ : Event LineRef).On σ :=
  fun _ hentry => absurd hentry List.not_mem_nil

@[simp] theorem Event.on_cons {type : EventType} {entry : String × Datum LineRef}
    {data : List (String × Datum LineRef)} {consumed : Bool} :
    (⟨type, entry :: data, consumed⟩ : Event LineRef).On σ ↔
      entry.2.On σ ∧ (⟨type, data, consumed⟩ : Event LineRef).On σ :=
  List.forall_mem_cons

/-- The thing that a listener belongs to. -/
def Listener.thing : Listener → Thing
  | .handler h => .handler h
  | .observer s | .input s _ => .session s

def Listener.On (σ : Side) (listener : Listener) : Prop :=
  σ listener.thing = true

/-- The subscriptions are those of listeners on a side. -/
def ListenersOn (σ : Side) (subs : List Subscription) : Prop :=
  ∀ sub ∈ subs, sub.listener.On σ

theorem ListenersOn.mono {subs subs' : List Subscription} (h : ListenersOn σ subs)
    (hsubset : subs' ⊆ subs) : ListenersOn σ subs' :=
  fun sub hsub => h sub (hsubset hsub)

/-! ## Dispatches -/

namespace Dispatch

structure On (σ : Side) (d : Dispatch) : Prop where
  event : d.event.On σ
  snapshot : ListenersOn σ d.snapshot
  waiting : ListenersOn σ d.waiting
  calling : ∀ sub, d.calling = some sub → sub.listener.On σ
  last : ∀ listener, d.last = some listener → listener.On σ

variable {d : Dispatch}

theorem On.settle (h : d.On σ) : d.settle.On σ := by
  unfold Dispatch.settle
  split
  · exact h
  · refine ⟨h.event, h.snapshot, ?_, fun sub hsub => absurd hsub (by simp), h.last⟩
    dsimp only
    split
    · exact fun sub hsub => absurd hsub List.not_mem_nil
    · exact h.waiting

theorem On.next (h : d.On σ) (alive : Listener → Bool) : (d.next alive).On σ := by
  have hdrop : d.waiting.dropWhile (fun sub => !sub.resolves alive) ⊆ d.waiting :=
    (List.dropWhile_sublist _).subset
  unfold Dispatch.next
  dsimp only
  split
  · refine ⟨h.event, h.snapshot, fun sub hsub => absurd hsub List.not_mem_nil, h.calling, ?_⟩
    intro listener hlistener
    dsimp only at hlistener
    split at hlistener
    · exact h.last listener hlistener
    · exact absurd hlistener (by simp)
  · rename_i sub rest heq
    rw [heq] at hdrop
    have hon : sub.listener.On σ := h.waiting sub (hdrop List.mem_cons_self)
    refine ⟨h.event, h.snapshot, h.waiting.mono fun other hother => ?_, ?_, ?_⟩
    · exact hdrop (List.mem_cons_of_mem _ hother)
    · intro other hother
      exact Option.some.inj hother ▸ hon
    · intro listener hlistener
      exact Option.some.inj hlistener ▸ hon

theorem On.consume (h : d.On σ) : ({ d with event := d.event.consume } : Dispatch).On σ :=
  ⟨h.event, h.snapshot, h.waiting, h.calling, h.last⟩

end Dispatch

/-! ## Buses -/

namespace Bus

structure On (σ : Side) (bus : Bus) : Prop where
  subscriptions : ∀ type, ListenersOn σ (bus.subscriptions type)
  queue : ∀ event ∈ bus.queue, event.On σ
  dispatching : ∀ d, bus.dispatching = some d → d.On σ

variable {bus : Bus}

theorem on_unused : ({} : Bus).On σ :=
  ⟨fun _ _ hsub => absurd hsub List.not_mem_nil, fun _ hevent => absurd hevent List.not_mem_nil,
    fun _ hd => absurd hd (by simp)⟩

theorem On.update (h : bus.On σ) {type : EventType}
    {f : List Subscription → List Subscription}
    (hf : ∀ subs, ListenersOn σ subs → ListenersOn σ (f subs)) : (bus.update type f).On σ := by
  refine ⟨fun other => ?_, h.queue, h.dispatching⟩
  dsimp only [Bus.update]
  split
  · exact hf _ (h.subscriptions other)
  · exact h.subscriptions other

theorem On.subscribe (h : bus.On σ) {sub : Subscription} (hsub : sub.listener.On σ)
    (type : EventType) : (bus.subscribe type sub).On σ := by
  unfold Bus.subscribe
  split
  · exact h
  · refine h.update fun subs hsubs other hother => ?_
    rcases mem_insertByPriority.mp hother with rfl | hmem
    · exact hsub
    · exact hsubs other hmem

theorem On.unsubscribe (h : bus.On σ) (type : EventType) (listener : Listener) :
    (bus.unsubscribe type listener).On σ :=
  h.update fun _ hsubs => hsubs.mono List.filter_sublist.subset

theorem On.clear (h : bus.On σ) (type : Option EventType) : (bus.clear type).On σ := by
  cases type with
  | none => exact ⟨fun _ _ hsub => absurd hsub List.not_mem_nil, h.queue, h.dispatching⟩
  | some type => exact h.update fun _ _ _ hsub => absurd hsub List.not_mem_nil

theorem On.unlisten (h : bus.On σ) (s : SessionId) : (World.unlisten s bus).On σ := by
  simp only [World.unlisten, ContextEvent.all, List.foldl_cons, List.foldl_nil]
  exact ((h.unsubscribe _ _).unsubscribe _ _).unsubscribe _ _

theorem On.enqueue (h : bus.On σ) {event : Event LineRef} (hevent : event.On σ) :
    (bus.enqueue event).On σ := by
  refine ⟨h.subscriptions, ?_, h.dispatching⟩
  intro other hother
  rcases List.mem_append.mp hother with hmem | hmem
  · exact h.queue other hmem
  · exact List.mem_singleton.mp hmem ▸ hevent

theorem On.setQueue (h : bus.On σ) {queue : List (Event LineRef)}
    (hqueue : ∀ event ∈ queue, event.On σ) : ({ bus with queue := queue } : Bus).On σ :=
  ⟨h.subscriptions, hqueue, h.dispatching⟩

theorem On.beginDispatch (h : bus.On σ) {event : Event LineRef} (hevent : event.On σ) :
    (bus.beginDispatch event).On σ := by
  refine ⟨h.subscriptions, h.queue, ?_⟩
  intro d hd
  have hsubs := h.subscriptions event.type
  obtain rfl := Option.some.inj hd
  exact ⟨hevent, hsubs, hsubs, by simp, by simp⟩

theorem On.modifyDispatch (h : bus.On σ) {f : Dispatch → Dispatch}
    (hf : ∀ d : Dispatch, d.On σ → (f d).On σ) : (bus.modifyDispatch f).On σ := by
  refine ⟨h.subscriptions, h.queue, ?_⟩
  intro d hd
  obtain ⟨before, hbefore, rfl⟩ := Option.map_eq_some_iff.mp hd
  exact hf before (h.dispatching before hbefore)

theorem On.consume (h : bus.On σ) : bus.consume.On σ :=
  h.modifyDispatch fun _ hd => hd.consume

theorem On.endDispatch (h : bus.On σ) (d : Dispatch) : (bus.endDispatch d).On σ := by
  have hsettled : ({ bus with dispatching := none } : Bus).On σ :=
    ⟨h.subscriptions, h.queue, fun _ hd => absurd hd (by simp)⟩
  unfold Bus.endDispatch
  dsimp only
  split
  · exact hsettled
  · exact hsettled.update fun _ hsubs => hsubs.mono List.filter_sublist.subset

/-- Those whom a bus keeps alive are on its side. -/
theorem On.holds (h : bus.On σ) : ∀ listener ∈ bus.holds, listener.On σ := by
  intro listener hlistener
  obtain ⟨type, -, hmem⟩ := List.mem_flatMap.mp hlistener
  obtain ⟨sub, hsub, rfl⟩ := List.mem_map.mp hmem
  exact h.subscriptions type sub (List.mem_filter.mp hsub).1

end Bus

/-- The thing that a bus belongs to. -/
def BusId.thing : BusId → Thing
  | .display d => .display d
  | .session s => .session s
  | .free name => .free name

/-! ## Sessions and displays -/

def Callback.On (σ : Side) : Callback → Prop
  | .session s onComplete =>
    σ (.session s) = true ∧ ∀ h, onComplete = some h → σ (.handler h) = true
  | .handler h => σ (.handler h) = true

/-- What is to happen after a closing is on a side, if there is anything. -/
def ClosingOn (σ : Side) (callback : Option Callback) : Prop :=
  ∀ c, callback = some c → c.On σ

structure Session.On (σ : Side) (session : Session) : Prop where
  display : σ (.display session.display) = true
  bus : session.bus.On σ
  actions : ∀ hs ∈ session.actions.values, ∀ h ∈ hs, σ (.handler h) = true

structure Display.On (σ : Side) (display : Display) : Prop where
  bus : display.bus.On σ
  attached : ∀ s, display.attached = some s → σ (.session s) = true
  onScreen : ∀ line, display.onScreen = some line → line.On σ
  pending : ∀ callback ∈ display.pending, ClosingOn σ callback

/-- The things of a side refer only to things of that side. -/
structure World.Closed (σ : Side) (w : World) : Prop where
  session : ∀ s session, σ (.session s) = true → w.session? s = some session → session.On σ
  display : ∀ d display, σ (.display d) = true → w.display? d = some display → display.On σ
  free : ∀ name bus, σ (.free name) = true → (name, bus) ∈ w.buses.entries → bus.On σ

/-! ## The handlers of the host -/

def Listener.handler? : Listener → Option HandlerId
  | .handler h => some h
  | .observer _ | .input .. => none

/-- The handlers that are subscribed to a bus. -/
def Bus.callees (bus : Bus) : List HandlerId :=
  EventType.all.flatMap fun type => (bus.subscriptions type).filterMap (·.listener.handler?)

theorem Bus.mem_callees {bus : Bus} {type : EventType} {sub : Subscription} {h : HandlerId}
    (hsub : sub ∈ bus.subscriptions type) (hlistener : sub.listener = .handler h) :
    h ∈ bus.callees :=
  List.mem_flatMap.mpr ⟨type, type.mem_all,
    List.mem_filterMap.mpr ⟨sub, hsub, by rw [hlistener]; rfl⟩⟩

def Callback.callee? : Callback → Option HandlerId
  | .session _ onComplete => onComplete
  | .handler h => some h

namespace World

/-- The handlers that a thing may call: those that are subscribed to its bus, those that are
registered for an action, and those that a closing which has been noted is to be followed by. -/
def callees (w : World) : Thing → List HandlerId
  | .session s => (w.session? s).elim [] fun session =>
    session.bus.callees ++ session.actions.values.flatten
  | .display d => (w.display? d).elim [] fun display =>
    display.bus.callees ++ display.pending.filterMap (·.bind Callback.callee?)
  | .free name => (w.bus (.free name)).callees
  | .handler _ => []

/-- Whatever a thing of a side may call belongs to the side. -/
def Wired (σ : Side) (w : World) : Prop :=
  ∀ thing, σ thing = true → ∀ h ∈ w.callees thing, σ (.handler h) = true

/-- All sessions, displays and free buses. -/
def things (w : World) : List Thing :=
  (List.range w.sessions.length).map (.session ⟨·⟩) ++
    (List.range w.displays.length).map (.display ⟨·⟩) ++ w.buses.keys.map .free

/-- What is not there calls nobody. -/
theorem callees_of_notMem {w : World} {thing : Thing} (h : thing ∉ w.things) :
    w.callees thing = [] := by
  rw [things, List.mem_append, List.mem_append, not_or, not_or] at h
  obtain ⟨⟨hsession, hdisplay⟩, hfree⟩ := h
  cases thing with
  | session s =>
      have hnone : w.session? s = none := List.getElem?_eq_none_iff.mpr (Nat.le_of_not_lt
        fun hlt => hsession (List.mem_map.mpr ⟨s.index, List.mem_range.mpr hlt, rfl⟩))
      rw [callees, hnone, Option.elim_none]
  | display d =>
      have hnone : w.display? d = none := List.getElem?_eq_none_iff.mpr (Nat.le_of_not_lt
        fun hlt => hdisplay (List.mem_map.mpr ⟨d.index, List.mem_range.mpr hlt, rfl⟩))
      rw [callees, hnone, Option.elim_none]
  | free name =>
      have hnone : w.buses.get? name = none := by
        by_contra hsome
        obtain ⟨bus, hbus⟩ := Option.ne_none_iff_exists'.mp hsome
        exact hfree (List.mem_map.mpr
          ⟨name, List.mem_map.mpr ⟨_, Table.mem_entries_of_get? hbus, rfl⟩, rfl⟩)
      rw [callees, bus, hnone]
      rfl
  | handler h => rfl

instance {w : World} : Decidable (w.Wired σ) :=
  decidable_of_iff (∀ thing ∈ w.things, σ thing = true → ∀ h ∈ w.callees thing,
      σ (.handler h) = true)
    ⟨fun hwired thing hσ h hmem => by
        by_cases hthing : thing ∈ w.things
        · exact hwired thing hthing hσ h hmem
        · rw [callees_of_notMem hthing] at hmem
          exact absurd hmem List.not_mem_nil,
      fun hwired thing _ => hwired thing⟩

end World

/-! ## Two sides -/

/-- A call leaves the handler as it is. -/
def Handler.Steady (handler : Handler) : Prop :=
  ∀ rounds, handler.behaviour = .scripted rounds → (nextRound rounds).2 = rounds

/-- A handler that may be called from both sides: the host has a name for it, and no call changes
it. -/
structure World.Shares (w : World) (h : HandlerId) : Prop where
  named : h ∈ w.handlerNames.values
  steady : ∀ handler, w.handler? h = some handler → handler.Steady

/-- Two sides that have all things between them and nothing to do with each other. -/
structure World.Parted (σ τ : Side) (w : World) : Prop where
  left : w.Closed σ
  right : w.Closed τ
  cover : ∀ thing, σ thing = true ∨ τ thing = true
  common : ∀ thing, σ thing = true → τ thing = true → ∃ h, thing = .handler h ∧ w.Shares h

namespace World.Parted

variable {τ : Side} {w : World}

theorem symm (h : w.Parted σ τ) : w.Parted τ σ where
  left := h.right
  right := h.left
  cover thing := (h.cover thing).symm
  common thing hτ hσ := h.common thing hσ hτ

theorem session (h : w.Parted σ τ) {s : SessionId} (hs : σ (.session s) = true) :
    τ (.session s) = false := by
  rw [← Bool.not_eq_true]
  intro hτ
  obtain ⟨_, heq, -⟩ := h.common _ hs hτ
  cases heq

theorem display (h : w.Parted σ τ) {d : DisplayId} (hd : σ (.display d) = true) :
    τ (.display d) = false := by
  rw [← Bool.not_eq_true]
  intro hτ
  obtain ⟨_, heq, -⟩ := h.common _ hd hτ
  cases heq

theorem bus (h : w.Parted σ τ) {b : BusId} (hb : σ b.thing = true) : τ b.thing = false := by
  rw [← Bool.not_eq_true]
  intro hτ
  obtain ⟨_, heq, -⟩ := h.common _ hb hτ
  cases b <;> cases heq

theorem handler (h : w.Parted σ τ) {i : HandlerId} (hσ : σ (.handler i) = true)
    (hτ : τ (.handler i) = true) : w.Shares i := by
  obtain ⟨_, heq, hshares⟩ := h.common _ hσ hτ
  cases heq
  exact hshares

end World.Parted

/-! ## Steps of a host -/

/-- A name leads to a thing of a side, if it leads anywhere. -/
def LeadsTo {ι : Type} (names : Table String ι) (thing : ι → Thing) (σ : Side) (name : String) :
    Prop :=
  ∀ i, names.get? name = some i → σ (thing i) = true

instance {ι : Type} {names : Table String ι} {thing : ι → Thing} {name : String} :
    Decidable (LeadsTo names thing σ name) :=
  inferInstanceAs (Decidable (∀ i, names.get? name = some i → σ (thing i) = true))

/-- A session step names only things of a side, and leaves the settings alone. -/
def SessionStep.On (σ : Side) (w : World) : SessionStep → Prop
  | .registerAction _ handler | .removeAction _ handler | .finish (some handler) =>
    LeadsTo w.handlerNames .handler σ handler
  | .config (some _) => False
  | _ => True

instance {w : World} : (step : SessionStep) → Decidable (step.On σ w)
  | .registerAction _ handler | .removeAction _ handler | .finish (some handler) =>
    inferInstanceAs (Decidable (LeadsTo w.handlerNames .handler σ handler))
  | .config (some _) => isFalse fun h => h
  | .load .. | .start _ | .proceed | .follow .. | .actionHandlers _ | .handleAction ..
  | .registerReplacement .. | .removeReplacement _ | .replacements | .tagValues _ | .summary
  | .titles | .display | .config none | .finish none | .fireActions _ | .node .. => isTrue trivial

def DisplayStep.On (σ : Side) (w : World) : DisplayStep → Prop
  | .actions session _ | .attach session => LeadsTo w.sessionNames .session σ session
  | .close (some handler) => LeadsTo w.handlerNames .handler σ handler
  | _ => True

instance {w : World} : (step : DisplayStep) → Decidable (step.On σ w)
  | .actions session _ | .attach session =>
    inferInstanceAs (Decidable (LeadsTo w.sessionNames .session σ session))
  | .close (some handler) =>
    inferInstanceAs (Decidable (LeadsTo w.handlerNames .handler σ handler))
  | .openUp | .proceed | .select .. | .action .. | .choose _ | .currentLine | .replace _
  | .replacements | .close none | .flushClose | .detach | .info => isTrue trivial

def BusStep.On (σ : Side) (w : World) : BusStep → Prop
  | .subscribe _ handler .. | .unsubscribe _ handler | .isSubscribed _ handler =>
    LeadsTo w.handlerNames .handler σ handler
  | _ => True

instance {w : World} : (step : BusStep) → Decidable (step.On σ w)
  | .subscribe _ handler .. | .unsubscribe _ handler | .isSubscribed _ handler =>
    inferInstanceAs (Decidable (LeadsTo w.handlerNames .handler σ handler))
  | .count _ | .publish .. | .publishEvent .. | .clear _ => isTrue trivial

def BusName.On (σ : Side) (w : World) : BusName → Prop
  | .session name => LeadsTo w.sessionNames .session σ name
  | .display name => LeadsTo w.displayNames .display σ name
  | .free name => σ (.free name) = true

instance {w : World} : (name : BusName) → Decidable (name.On σ w)
  | .session name => inferInstanceAs (Decidable (LeadsTo w.sessionNames .session σ name))
  | .display name => inferInstanceAs (Decidable (LeadsTo w.displayNames .display σ name))
  | .free name => inferInstanceAs (Decidable (σ (.free name) = true))

/-- A look at the manager is allowed; the display whose name is asked for has to be on the side. -/
def ManagerStep.On (σ : Side) (w : World) : ManagerStep → Prop
  | .get _ | .conversations => True
  | .displayOf title => ∀ id, w.manager = some id → ∀ manager, w.manager? id = some manager →
    LeadsTo manager.displays .display σ title
  | _ => False

instance {w : World} : (step : ManagerStep) → Decidable (step.On σ w)
  | .get _ | .conversations => isTrue trivial
  | .displayOf title => inferInstanceAs
      (Decidable (∀ id, w.manager = some id → ∀ manager, w.manager? id = some manager →
        LeadsTo manager.displays .display σ title))
  | .register _ | .add .. | .loadFolder .. | .start .. | .active | .endAll => isFalse fun h => h

/-- A step works on things of one side alone, makes no new ones, and changes nothing that belongs
to no side. -/
def Step.On (σ : Side) (w : World) : Step → Prop
  | .session name step => LeadsTo w.sessionNames .session σ name ∧ step.On σ w
  | .display name step => LeadsTo w.displayNames .display σ name ∧ step.On σ w
  | .bus name step => name.On σ w ∧ step.On σ w
  | .manager step => step.On σ w
  | .consume | .fail .. | .unknown _ => True
  | _ => False

instance {w : World} : (step : Step) → Decidable (step.On σ w)
  | .session name step =>
    inferInstanceAs (Decidable (LeadsTo w.sessionNames .session σ name ∧ step.On σ w))
  | .display name step =>
    inferInstanceAs (Decidable (LeadsTo w.displayNames .display σ name ∧ step.On σ w))
  | .bus name step => inferInstanceAs (Decidable (name.On σ w ∧ step.On σ w))
  | .manager step => inferInstanceAs (Decidable (step.On σ w))
  | .consume | .fail .. | .unknown _ => isTrue trivial
  | .define .. | .dropHandler _ | .newDisplay .. | .newSession .. | .dropSession _
  | .newManager _ => isFalse fun h => h

/-! ## Tasks -/

def Sink.thing : Sink → Thing
  | .session s => .session s
  | .display d => .display d

def Course.On (σ : Side) : Course → Prop
  | .live line _ => line.On σ
  | .frozen _ => True

/-- Everything that a task refers to by itself is on a side.  What its names lead to is not looked
at here. -/
def Task.On (σ : Side) : Task → Prop
  | .start s _ | .proceed s | .follow s _ _ | .load s _ _ | .handleAction s _ _ | .leave s
  | .hold s => σ (.session s) = true
  | .present s line | .fireShown s line => σ (.session s) = true ∧ line.On σ
  | .finish s onComplete =>
    σ (.session s) = true ∧ ∀ h, onComplete = some h → σ (.handler h) = true
  | .actions sink course => σ sink.thing = true ∧ course.On σ
  | .multicast _ waiting _ => ∀ h ∈ waiting, σ (.handler h) = true
  | .showNode d _ | .showOver d => σ (.display d) = true
  | .showLine d line => σ (.display d) = true ∧ line.On σ
  | .close d closing | .settle d closing => σ (.display d) = true ∧ ClosingOn σ closing
  | .flush d _ waiting => σ (.display d) = true ∧ ∀ closing ∈ waiting, ClosingOn σ closing
  | .hook .. | .answer _ | .perform _ => True
  | .callback c => c.On σ
  | .publish b event => σ b.thing = true ∧ event.On σ
  | .drain b event _ => σ b.thing = true ∧ event.On σ
  | .dispatch b => σ b.thing = true
  | .deliver b listener => σ b.thing = true ∧ listener.On σ
  | .call h _ | .returned h _ => σ (.handler h) = true
  | .callWith h b => σ (.handler h) = true ∧ σ b.thing = true
  | .script h source _ =>
    σ (.handler h) = true ∧ ∀ b, source = some b → σ b.thing = true
  | .launch .. | .forget _ | .adopt .. => False

/-- The names in a task lead to things of a side. -/
def Task.Named (σ : Side) (w : World) : Task → Prop
  | .perform step => step.On σ w
  | .hook (some name) _ => LeadsTo w.handlerNames .handler σ name
  | _ => True

instance {w : World} : (task : Task) → Decidable (task.Named σ w)
  | .perform step => inferInstanceAs (Decidable (step.On σ w))
  | .hook (some name) _ => inferInstanceAs (Decidable (LeadsTo w.handlerNames .handler σ name))
  | .hook none _ | .start .. | .proceed _ | .follow .. | .present .. | .fireShown .. | .load ..
  | .finish .. | .handleAction .. | .actions .. | .multicast .. | .leave _ | .showNode ..
  | .showLine .. | .showOver _ | .close .. | .settle .. | .flush .. | .callback _ | .publish ..
  | .dispatch _ | .drain .. | .deliver .. | .call .. | .callWith .. | .script .. | .returned ..
  | .launch .. | .forget _ | .adopt .. | .answer _ | .hold _ => isTrue trivial

end Parley
