import Parley.Proofs.Isolation.SameOn
import Parley.Proofs.Machine.Step
import Parley.Proofs.Session.Moves

/-!
# Machines that go on alike

Two machines work off the same agenda in worlds that are the same on a side, and everything on the
agenda is on that side (`Alike`).  Nothing on the other side has changed in either of the worlds
since the work began.

This is kept by every small change that is made in both machines at once, as long as it is made to
a thing of the side.  The tasks are made of such changes.
-/

namespace Parley

/-! ## Keeping to a side -/

theorem Subscription.resolves_congr {alive alive' : Listener → Bool} {sub : Subscription}
    (h : alive' sub.listener = alive sub.listener) :
    sub.resolves alive' = sub.resolves alive := by
  rw [resolves, h, resolves]

/-- A dispatch asks about nobody but those it has not reached yet. -/
theorem Dispatch.next_congr {d : Dispatch} {alive alive' : Listener → Bool}
    (h : ∀ sub ∈ d.waiting, alive' sub.listener = alive sub.listener) :
    d.next alive' = d.next alive := by
  have hcuts : ∀ subs : List Subscription,
      (∀ sub ∈ subs, alive' sub.listener = alive sub.listener) →
      subs.takeWhile (fun sub => !sub.resolves alive') =
          subs.takeWhile (fun sub => !sub.resolves alive) ∧
        subs.dropWhile (fun sub => !sub.resolves alive') =
          subs.dropWhile fun sub => !sub.resolves alive := by
    intro subs hsubs
    induction subs with
    | nil => exact ⟨rfl, rfl⟩
    | cons sub rest ih =>
        obtain ⟨hsub, hrest⟩ := List.forall_mem_cons.mp hsubs
        obtain ⟨htake, hdrop⟩ := ih hrest
        rw [List.takeWhile_cons, List.takeWhile_cons, List.dropWhile_cons, List.dropWhile_cons,
          Subscription.resolves_congr hsub, htake, hdrop]
        exact ⟨rfl, rfl⟩
  obtain ⟨htake, hdrop⟩ := hcuts d.waiting h
  rw [Dispatch.next, htake, hdrop, Dispatch.next]

theorem Bus.count_congr {bus : Bus} {alive alive' : Listener → Bool} {type : EventType}
    (h : ∀ sub ∈ bus.subscriptions type, alive' sub.listener = alive sub.listener) :
    bus.count alive' type = bus.count alive type := by
  rw [count, count]
  congr 1
  exact List.filter_congr fun sub hsub => Subscription.resolves_congr (h sub hsub)

variable {σ τ : Side}

/-- A session that is on a side stays there in a move. -/
theorem Session.On.outcome {session : Session} {move : Session.Move} (h : session.On σ)
    (hmove : Session.Move.Of session move) : (move.outcome session).On σ := by
  obtain ⟨graph, phase, heq⟩ := hmove.frame
  rw [heq]
  exact ⟨h.display, h.bus, h.actions⟩

theorem Session.On.of_eq {session session' : Session} (h : session.On σ)
    (hdisplay : session'.display = session.display) (hbus : session'.bus = session.bus)
    (hactions : session'.actions = session.actions) : session'.On σ :=
  ⟨hdisplay ▸ h.display, hbus ▸ h.bus, hactions ▸ h.actions⟩

theorem Session.On.handlersOf {session : Session} (h : session.On σ) (tag : String) :
    ∀ i ∈ session.handlersOf tag, σ (.handler i) = true := by
  intro i hi
  cases hget : session.actions.get? tag with
  | none => simp [Session.handlersOf, hget] at hi
  | some handlers =>
      rw [Session.handlersOf, hget, Option.getD_some] at hi
      exact h.actions handlers (Table.mem_values_of_get? hget) i hi

theorem Session.On.insertAction {session : Session} (h : session.On σ) (tag : String)
    {handlers : List HandlerId} (hhandlers : ∀ i ∈ handlers, σ (.handler i) = true) :
    ({ session with actions := session.actions.insert tag handlers } : Session).On σ := by
  refine ⟨h.display, h.bus, fun found hfound => ?_⟩
  obtain ⟨entry, hentry, rfl⟩ := List.mem_map.mp hfound
  rcases Table.eq_or_mem_of_mem_insert hentry with rfl | hold
  · exact hhandlers
  · exact h.actions entry.2 (List.mem_map_of_mem hold)

theorem Session.On.registerAction {session : Session} (h : session.On σ) (tag : String)
    {i : HandlerId} (hi : σ (.handler i) = true) : (session.registerAction tag i).value.On σ := by
  unfold Session.registerAction
  split
  · exact h
  · refine h.insertAction tag (List.forall_mem_append.mpr ⟨h.handlersOf tag, ?_⟩)
    exact List.forall_mem_singleton.mpr hi

theorem Session.On.removeAction {session : Session} (h : session.On σ) (tag : String)
    (i : HandlerId) : (session.removeAction tag i).On σ := by
  have hrest : ∀ j ∈ (session.handlersOf tag).erase i, σ (.handler j) = true :=
    fun j hj => h.handlersOf tag j (List.mem_of_mem_erase hj)
  unfold Session.removeAction
  dsimp only
  split
  · refine ⟨h.display, h.bus, fun found hfound => ?_⟩
    obtain ⟨entry, hentry, rfl⟩ := List.mem_map.mp hfound
    exact h.actions entry.2 (List.mem_map_of_mem (List.mem_filter.mp hentry).1)
  · exact h.insertAction tag hrest

theorem Task.on_cutOff {task : Task} (h : task.On σ) (line : LineRef) (had : List Action) :
    (Machine.cutOff line had task).On σ := by
  unfold Machine.cutOff
  split
  · split
    · exact ⟨h.1, trivial⟩
    · exact h
  · exact h

namespace Machine

variable {w w' : World} {m m' : Machine} {now : List Task}

theorem unwind_eq_some {agenda rest : List Task} {b : BusId}
    (h : unwind agenda = some (b, rest)) :
    ∃ below, rest = .dispatch b :: below ∧ rest <:+ agenda := by
  induction agenda with
  | nil => exact absurd h (by simp [unwind])
  | cons task agenda ih =>
      by_cases hdispatch : ∃ c, task = .dispatch c
      · obtain ⟨c, rfl⟩ := hdispatch
        obtain ⟨rfl, rfl⟩ := Prod.mk.inj (Option.some.inj h)
        exact ⟨agenda, rfl, List.suffix_refl _⟩
      · rw [unwind_cons_of_ne (not_exists.mp hdispatch)] at h
        obtain ⟨below, heq, hsuffix⟩ := ih h
        exact ⟨below, heq, hsuffix.trans (List.suffix_cons task agenda)⟩

/-- Two machines at the same work on one side, in worlds that are the same on this side. -/
structure Alike (σ τ : Side) (w w' : World) (m m' : Machine) : Prop where
  same : World.SameOn σ m.world m'.world
  parted : m.world.Parted σ τ
  closed : m'.world.Closed τ
  aside : World.SameOn τ w m.world
  aside' : World.SameOn τ w' m'.world
  agenda : m'.agenda = m.agenda
  on : ∀ task ∈ m.agenda, task.On σ
  trace : m'.trace = m.trace
  result : m'.result = m.result

namespace Alike

variable (h : Alike σ τ w w' m m')
include h

/-! ## Looking things up -/

theorem session? {s : SessionId} (hs : σ (.session s) = true) :
    m'.world.session? s = m.world.session? s :=
  h.same.session s hs

theorem display? {d : DisplayId} (hd : σ (.display d) = true) :
    m'.world.display? d = m.world.display? d :=
  h.same.display d hd

theorem session_on {s : SessionId} {session : Session} (hs : σ (.session s) = true)
    (hsession : m.world.session? s = some session) : session.On σ :=
  h.parted.left.session s session hs hsession

theorem display_on {d : DisplayId} {display : Display} (hd : σ (.display d) = true)
    (hdisplay : m.world.display? d = some display) : display.On σ :=
  h.parted.left.display d display hd hdisplay

theorem bus_on {b : BusId} (hb : σ b.thing = true) : (m.world.bus b).On σ :=
  h.parted.left.bus hb

/-! ## Who is alive -/

/-- The work in progress holds on to the same things. -/
theorem heldBy (hnow : ∀ task ∈ now, task.On σ) :
    Task.heldBy m'.world now = Task.heldBy m.world now := by
  have hholds : ∀ task ∈ now, task.dispatchHolds m'.world = task.dispatchHolds m.world := by
    intro task htask
    cases task with
    | dispatch b => rw [Task.dispatchHolds, h.same.bus (hnow _ htask), Task.dispatchHolds]
    | _ => rfl
  have hsessions : now.flatMap (fun task =>
        task.sessions ++ Task.listenerSessions (task.dispatchHolds m'.world)) =
      now.flatMap fun task =>
        task.sessions ++ Task.listenerSessions (task.dispatchHolds m.world) :=
    List.flatMap_congr fun task htask => by rw [hholds task htask]
  have hhandlers : now.flatMap (fun task =>
        task.handlers ++ World.listenerHandlers (task.dispatchHolds m'.world)) =
      now.flatMap fun task =>
        task.handlers ++ World.listenerHandlers (task.dispatchHolds m.world) :=
    List.flatMap_congr fun task htask => by rw [hholds task htask]
  rw [Task.heldBy, hsessions, hhandlers, Task.heldBy]

theorem alive (hnow : ∀ task ∈ now, task.On σ) {listener : Listener} (hlistener : listener.On σ) :
    m'.world.alive (Task.heldBy m'.world now) listener =
      m.world.alive (Task.heldBy m.world now) listener := by
  rw [h.heldBy hnow]
  exact h.same.alive h.parted h.closed hlistener

theorem replacementsOf (hnow : ∀ task ∈ now, task.On σ) {display : Display}
    (hdisplay : display.On σ) :
    m'.world.replacementsOf (Task.heldBy m'.world now) display =
      m.world.replacementsOf (Task.heldBy m.world now) display := by
  rw [h.heldBy hnow]
  exact h.same.replacementsOf h.parted h.closed hdisplay

theorem attachedTo (hnow : ∀ task ∈ now, task.On σ) {display : Display}
    (hdisplay : display.On σ) :
    m'.world.attachedTo (Task.heldBy m'.world now) display =
      m.world.attachedTo (Task.heldBy m.world now) display := by
  rw [h.heldBy hnow]
  exact h.same.attachedTo h.parted h.closed hdisplay

/-! ## What is seen, answered and left to do -/

theorem emit (entries : List TraceEntry) : Alike σ τ w w' (m.emit entries) (m'.emit entries) :=
  { h with trace := by rw [Machine.emit, Machine.emit, h.trace] }

theorem logAll (log : List LogEntry) : Alike σ τ w w' (m.logAll log) (m'.logAll log) :=
  h.emit _

theorem report (level : Level) (text : String) :
    Alike σ τ w w' (m.report level text) (m'.report level text) :=
  h.logAll _

theorem give (answer : Answer) : Alike σ τ w w' (m.give answer) (m'.give answer) :=
  { h with result := rfl }

theorem push {tasks : List Task} (htasks : ∀ task ∈ tasks, task.On σ) :
    Alike σ τ w w' (m.push tasks) (m'.push tasks) :=
  { h with
    agenda := by rw [Machine.push, Machine.push, h.agenda]
    on := List.forall_mem_append.mpr ⟨htasks, h.on⟩ }

theorem cutOff (line : LineRef) (had : List Action) :
    Alike σ τ w w' { m with agenda := m.agenda.map (Machine.cutOff line had) }
      { m' with agenda := m'.agenda.map (Machine.cutOff line had) } :=
  { h with
    agenda := by rw [h.agenda]
    on := List.forall_mem_map.mpr fun task htask => Task.on_cutOff (h.on task htask) line had }

/-- A failure goes back to the same dispatch, which is on the side. -/
theorem fail (failure : Failure) : Alike σ τ w w' (m.fail failure) (m'.fail failure) := by
  unfold Machine.fail
  rw [h.agenda]
  split
  · exact { h with agenda := rfl, on := by simp, result := rfl }
  · rename_i b rest hunwind
    obtain ⟨below, rfl, hsuffix⟩ := unwind_eq_some hunwind
    have hrest : ∀ task ∈ .dispatch b :: below, task.On σ :=
      fun task htask => h.on task (hsuffix.subset htask)
    have hb : σ b.thing = true := hrest (.dispatch b) List.mem_cons_self
    refine { h with agenda := rfl, on := hrest, trace := ?_ }
    rw [h.trace, listenerFailure, h.same.bus hb, listenerFailure]

/-! ## Changing things of the side -/

theorem withWorld {f g : World → World}
    (hsame : World.SameOn σ (f m.world) (g m'.world)) (hclosed : (f m.world).Closed σ)
    (haside : World.SameOn τ m.world (f m.world))
    (haside' : World.SameOn τ m'.world (g m'.world)) :
    Alike σ τ w w' (m.withWorld f) (m'.withWorld g) :=
  { h with
    same := hsame
    parted := (h.parted.symm.of_sameOn haside hclosed).symm
    closed := haside'.closed h.closed
    aside := h.aside.trans haside
    aside' := h.aside'.trans haside' }

theorem modifySession {s : SessionId} (hs : σ (.session s) = true) {f : Session → Session}
    (hf : ∀ session, m.world.session? s = some session → (f session).On σ) :
    Alike σ τ w w' (m.withWorld fun w => w.modifySession s f)
      (m'.withWorld fun w => w.modifySession s f) :=
  h.withWorld (h.same.modifySession s f)
    (h.parted.left.modifySession fun session _ hsession => hf session hsession)
    (World.sameOn_modifySession (h.parted.session hs) _ f)
    (World.sameOn_modifySession (h.parted.session hs) _ f)

theorem setSession {s : SessionId} (hs : σ (.session s) = true) {session : Session}
    (hsession : session.On σ) :
    Alike σ τ w w' (m.setSession s session) (m'.setSession s session) :=
  h.modifySession hs fun _ _ => hsession

theorem modifyDisplay {d : DisplayId} (hd : σ (.display d) = true) {f g : Display → Display}
    (hf : ∀ display : Display, display.On σ → (f display).On σ)
    (hfg : ∀ display : Display, display.On σ → g display = f display) :
    Alike σ τ w w' (m.withWorld fun w => w.modifyDisplay d f)
      (m'.withWorld fun w => w.modifyDisplay d g) :=
  h.withWorld
    (h.same.modifyDisplay d fun hd display hdisplay => hfg display (h.display_on hd hdisplay))
    (h.parted.left.modifyDisplay fun display _ hon => hf display hon)
    (World.sameOn_modifyDisplay (h.parted.display hd) _ f)
    (World.sameOn_modifyDisplay (h.parted.display hd) _ g)

theorem modifyBus {b : BusId} (hb : σ b.thing = true) {f : Bus → Bus}
    (hf : ∀ bus : Bus, bus.On σ → (f bus).On σ) :
    Alike σ τ w w' (m.withWorld fun w => w.modifyBus b f) (m'.withWorld fun w => w.modifyBus b f) :=
  h.withWorld (h.same.modifyBus hb f) (h.parted.left.modifyBus hf)
    (World.sameOn_modifyBus (h.parted.bus hb) _ f)
    (World.sameOn_modifyBus (h.parted.bus hb) _ f)

/-! ## What names stand for -/

theorem withSession {name : String}
    (hname : LeadsTo m.world.sessionNames .session σ name)
    {f g : SessionId → Session → Machine}
    (hfg : ∀ s session, σ (.session s) = true → m.world.session? s = some session →
      Alike σ τ w w' (f s session) (g s session)) :
    Alike σ τ w w' (m.withSession name f) (m'.withSession name g) := by
  unfold Machine.withSession
  rw [h.same.sessionNames]
  cases hget : m.world.sessionNames.get? name with
  | none => exact h.fail _
  | some s =>
      have hs := hname s hget
      rw [Option.bind_some, Option.bind_some, h.session? hs]
      cases hsession : m.world.session? s with
      | none => exact h.fail _
      | some session => exact hfg s session hs hsession

theorem withDisplay {name : String}
    (hname : LeadsTo m.world.displayNames .display σ name)
    {f g : DisplayId → Display → Machine}
    (hfg : ∀ d display, σ (.display d) = true → m.world.display? d = some display →
      Alike σ τ w w' (f d display) (g d display)) :
    Alike σ τ w w' (m.withDisplay name f) (m'.withDisplay name g) := by
  unfold Machine.withDisplay
  rw [h.same.displayNames]
  cases hget : m.world.displayNames.get? name with
  | none => exact h.fail _
  | some d =>
      have hd := hname d hget
      rw [Option.bind_some, Option.bind_some, h.display? hd]
      cases hdisplay : m.world.display? d with
      | none => exact h.fail _
      | some display => exact hfg d display hd hdisplay

theorem withHandler {name : String}
    (hname : LeadsTo m.world.handlerNames .handler σ name) {f g : HandlerId → Machine}
    (hfg : ∀ i, σ (.handler i) = true → Alike σ τ w w' (f i) (g i)) :
    Alike σ τ w w' (m.withHandler name f) (m'.withHandler name g) := by
  unfold Machine.withHandler
  rw [h.same.handlerNames]
  cases hget : m.world.handlerNames.get? name with
  | none => exact h.fail _
  | some i => exact hfg i (hname i hget)

theorem withHandler? {name : Option String}
    (hname : ∀ given, name = some given → LeadsTo m.world.handlerNames .handler σ given)
    {f g : Option HandlerId → Machine}
    (hfg : ∀ i, (∀ given, i = some given → σ (.handler given) = true) →
      Alike σ τ w w' (f i) (g i)) :
    Alike σ τ w w' (m.withHandler? name f) (m'.withHandler? name g) := by
  cases name with
  | none => exact hfg none (by simp)
  | some given =>
      exact h.withHandler (hname given rfl) fun i hi => hfg (some i) (by simpa using hi)

theorem withBus {name : BusName} (hname : name.On σ m.world) {f g : BusId → Machine}
    (hfg : ∀ b, σ b.thing = true → Alike σ τ w w' (f b) (g b)) :
    Alike σ τ w w' (m.withBus name f) (m'.withBus name g) := by
  cases name with
  | session name => exact h.withSession hname fun s _ hs _ => hfg (.session s) hs
  | display name => exact h.withDisplay hname fun d _ hd _ => hfg (.display d) hd
  | free name => exact hfg (.free name) hname

theorem withNode (session : Session) (title : Option String) {f g : String → Node → Machine}
    (hfg : ∀ key node, Alike σ τ w w' (f key node) (g key node)) :
    Alike σ τ w w' (m.withNode session title f) (m'.withNode session title g) := by
  unfold Machine.withNode
  dsimp only
  split
  · exact hfg _ _
  · exact h.fail _

theorem withLine {s : SessionId} (hs : σ (.session s) = true) (session : Session)
    (place : LinePlace) {f g : LineRef → Machine}
    (hfg : ∀ line : LineRef, line.On σ → Alike σ τ w w' (f line) (g line)) :
    Alike σ τ w w' (m.withLine s session place f) (m'.withLine s session place g) := by
  refine h.withNode session place.title fun key node => ?_
  split
  · split
    · exact hfg _ hs
    · exact h.fail _
  · split
    · exact hfg _ hs
    · exact h.fail _

end Alike

end Machine

end Parley
