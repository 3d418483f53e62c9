import Parley.Proofs.Isolation.Side
import Parley.Proofs.Table
import Parley.Proofs.World.Buses

/-!
# Worlds that are the same on a side

Two worlds are the same on a side if they agree on all its things and on what belongs to no side
(`SameOn`).  Looking up a thing of the side then gives the same in both, the same change keeps them
the same, and a change of another thing does too.

Who is alive depends on all that is held anywhere.  In worlds that are parted, nothing of a side is
held from the other, so worlds that are the same on a side agree on who of it is alive
(`SameOn.alive`).
-/

namespace Parley

namespace World

variable {σ τ : Side} {w w' w₁ w₂ w₃ : World}

theorem handler?_setHandler (w : World) (h i : HandlerId) (handler : Handler) :
    (w.setHandler h handler).handler? i =
      if h = i then (w.handler? i).map fun _ => handler else w.handler? i := by
  obtain ⟨n⟩ := h
  obtain ⟨k⟩ := i
  by_cases heq : n = k <;> simp [setHandler, handler?, heq]

/-- What belongs to no side. -/
structure Shared where
  configs : List Config
  managers : List Manager
  cells : List ManagerCell
  manager : Option ManagerId
  displayNames : Table String DisplayId
  sessionNames : Table String SessionId
  handlerNames : Table String HandlerId

/-- What belongs to no side: the settings, the managers with what they refer to, and the names. -/
def shared (w : World) : Shared :=
  ⟨w.configs, w.managers, w.memory.managerCells, w.manager, w.displayNames, w.sessionNames,
    w.handlerNames⟩

theorem shared_modifySession (w : World) (s : SessionId) (f : Session → Session) :
    (w.modifySession s f).shared = w.shared := by
  rw [shared, managers_modifySession, modifySession, Memory.managerCells_modifySession]
  rfl

/-- The free buses of a side. -/
def freeBuses (w : World) (σ : Side) : Table String Bus :=
  w.buses.filterKeys fun name => σ (.free name)

theorem freeBuses_insert_of_pos {name : String} (h : σ (.free name) = true) (w : World)
    (bus : Bus) : ({ w with buses := w.buses.insert name bus } : World).freeBuses σ =
      (w.freeBuses σ).insert name bus :=
  Table.filterKeys_insert_of_pos (p := fun name => σ (.free name)) h w.buses bus

theorem freeBuses_insert_of_neg {name : String} (h : σ (.free name) = false) (w : World)
    (bus : Bus) : ({ w with buses := w.buses.insert name bus } : World).freeBuses σ =
      w.freeBuses σ :=
  Table.filterKeys_insert_of_neg (p := fun name => σ (.free name)) h w.buses bus

structure SameOn (σ : Side) (w w' : World) : Prop where
  session : ∀ s, σ (.session s) = true → w'.session? s = w.session? s
  display : ∀ d, σ (.display d) = true → w'.display? d = w.display? d
  handler : ∀ h, σ (.handler h) = true → w'.handler? h = w.handler? h
  free : w'.freeBuses σ = w.freeBuses σ
  shared : w'.shared = w.shared

namespace SameOn

theorem refl (σ : Side) (w : World) : SameOn σ w w :=
  ⟨fun _ _ => rfl, fun _ _ => rfl, fun _ _ => rfl, rfl, rfl⟩

theorem symm (h : SameOn σ w w') : SameOn σ w' w where
  session s hs := (h.session s hs).symm
  display d hd := (h.display d hd).symm
  handler i hi := (h.handler i hi).symm
  free := h.free.symm
  shared := h.shared.symm

theorem trans (h : SameOn σ w₁ w₂) (h' : SameOn σ w₂ w₃) : SameOn σ w₁ w₃ where
  session s hs := (h'.session s hs).trans (h.session s hs)
  display d hd := (h'.display d hd).trans (h.display d hd)
  handler i hi := (h'.handler i hi).trans (h.handler i hi)
  free := h'.free.trans h.free
  shared := h'.shared.trans h.shared

/-! ## What belongs to no side -/

theorem sessionNames (h : SameOn σ w w') : w'.sessionNames = w.sessionNames :=
  (congrArg Shared.sessionNames h.shared :)

theorem displayNames (h : SameOn σ w w') : w'.displayNames = w.displayNames :=
  (congrArg Shared.displayNames h.shared :)

theorem handlerNames (h : SameOn σ w w') : w'.handlerNames = w.handlerNames :=
  (congrArg Shared.handlerNames h.shared :)

theorem managers (h : SameOn σ w w') : w'.managers = w.managers :=
  (congrArg Shared.managers h.shared :)

theorem manager (h : SameOn σ w w') : w'.manager = w.manager :=
  (congrArg Shared.manager h.shared :)

theorem manager? (h : SameOn σ w w') (id : ManagerId) : w'.manager? id = w.manager? id := by
  rw [World.manager?, h.managers, World.manager?]

theorem configOf (h : SameOn σ w w') (session : Session) :
    w'.configOf session = w.configOf session := by
  have hconfigs : w'.configs = w.configs := (congrArg Shared.configs h.shared :)
  rw [World.configOf, World.config, hconfigs, World.configOf, World.config]

/-! ## Things of the side -/

theorem bus (h : SameOn σ w w') {b : BusId} (hb : σ b.thing = true) : w'.bus b = w.bus b := by
  cases b with
  | display d => rw [World.bus, h.display d hb, World.bus]
  | session s => rw [World.bus, h.session s hb, World.bus]
  | free name =>
      have hget : w'.buses.get? name = w.buses.get? name := by
        rw [← Table.get?_filterKeys (p := fun name => σ (.free name)) hb w'.buses,
          ← Table.get?_filterKeys (p := fun name => σ (.free name)) hb w.buses]
        exact congrArg (Table.get? · name) h.free
      rw [World.bus, hget, World.bus]

theorem line (h : SameOn σ w w') {line : LineRef} (hline : line.On σ) :
    w'.line line = w.line line := by
  rw [World.line, h.session _ hline, World.line]

theorem written (h : SameOn σ w w') {event : Event LineRef} (hevent : event.On σ) :
    w'.written event = w.written event := by
  have hdata : ∀ entry ∈ event.data,
      (entry.1, entry.2.map w'.line) = (entry.1, entry.2.map w.line) := by
    rintro ⟨key, datum⟩ hmem
    cases datum with
    | value v => rfl
    | node title => rfl
    | line line => rw [Datum.map, h.line (hevent _ hmem), Datum.map]
  rw [World.written, Event.map, List.map_congr_left hdata]
  rfl

theorem labelOf (h : SameOn σ w w') {s : SessionId} (hs : σ (.session s) = true) :
    w'.labelOf s = w.labelOf s := by
  rw [World.labelOf, h.session s hs, World.labelOf]

/-! ## The same change -/

theorem modifySession (h : SameOn σ w w') (s : SessionId) (f : Session → Session) :
    SameOn σ (w.modifySession s f) (w'.modifySession s f) where
  session t ht := by rw [session?_modifySession, session?_modifySession, h.session t ht]
  display := h.display
  handler := h.handler
  free := h.free
  shared := by rw [shared_modifySession, shared_modifySession, h.shared]

theorem modifyDisplay (h : SameOn σ w w') (d : DisplayId) {f g : Display → Display}
    (hfg : σ (.display d) = true → ∀ display, w.display? d = some display →
      g display = f display) :
    SameOn σ (w.modifyDisplay d f) (w'.modifyDisplay d g) where
  session := h.session
  display e he := by
    rw [display?_modifyDisplay, display?_modifyDisplay, h.display e he]
    split
    · rename_i heq
      subst heq
      cases hd : w.display? d with
      | none => rfl
      | some display => exact congrArg some (hfg he display hd)
    · rfl
  handler := h.handler
  free := h.free
  shared := h.shared

theorem setHandler (h : SameOn σ w w') (i : HandlerId) (handler : Handler) :
    SameOn σ (w.setHandler i handler) (w'.setHandler i handler) where
  session := h.session
  display := h.display
  handler j hj := by rw [handler?_setHandler, handler?_setHandler, h.handler j hj]
  free := h.free
  shared := h.shared

theorem modifyBus (h : SameOn σ w w') {b : BusId} (hb : σ b.thing = true) (f : Bus → Bus) :
    SameOn σ (w.modifyBus b f) (w'.modifyBus b f) := by
  cases b with
  | display d => exact h.modifyDisplay d fun _ _ _ => rfl
  | session s => exact h.modifySession s _
  | free name =>
      refine ⟨h.session, h.display, h.handler, ?_, h.shared⟩
      rw [World.modifyBus, World.modifyBus, freeBuses_insert_of_pos hb, freeBuses_insert_of_pos hb,
        h.bus hb, h.free]

end SameOn

/-! ## A change elsewhere -/

theorem sameOn_modifySession {s : SessionId} (h : σ (.session s) = false) (w : World)
    (f : Session → Session) : SameOn σ w (w.modifySession s f) := by
  refine ⟨fun t ht => ?_, fun _ _ => rfl, fun _ _ => rfl, rfl, w.shared_modifySession s f⟩
  rw [session?_modifySession, if_neg]
  rintro rfl
  exact absurd ht (by simp [h])

theorem sameOn_modifyDisplay {d : DisplayId} (h : σ (.display d) = false) (w : World)
    (f : Display → Display) : SameOn σ w (w.modifyDisplay d f) := by
  refine ⟨fun _ _ => rfl, fun e he => ?_, fun _ _ => rfl, rfl, rfl⟩
  rw [display?_modifyDisplay, if_neg]
  rintro rfl
  exact absurd he (by simp [h])

/-- A handler may be put back where it is. -/
theorem sameOn_setHandler {i : HandlerId} {handler : Handler}
    (h : σ (.handler i) = true → w.handler? i = some handler) :
    SameOn σ w (w.setHandler i handler) := by
  refine ⟨fun _ _ => rfl, fun _ _ => rfl, fun j hj => ?_, rfl, rfl⟩
  rw [handler?_setHandler]
  split
  · rename_i heq
    subst heq
    rw [h hj]
    rfl
  · rfl

theorem sameOn_modifyBus {b : BusId} (h : σ b.thing = false) (w : World) (f : Bus → Bus) :
    SameOn σ w (w.modifyBus b f) := by
  cases b with
  | display d => exact sameOn_modifyDisplay h w _
  | session s => exact sameOn_modifySession h w _
  | free name =>
      refine ⟨fun _ _ => rfl, fun _ _ => rfl, fun _ _ => rfl, ?_, rfl⟩
      exact freeBuses_insert_of_neg h w _

/-! ## Sides that stay closed -/

namespace Closed

theorem bus (h : w.Closed σ) {b : BusId} (hb : σ b.thing = true) : (w.bus b).On σ := by
  cases b with
  | display d =>
      rw [World.bus]
      cases hd : w.display? d with
      | none => exact Bus.on_unused
      | some display => exact (h.display d display hb hd).bus
  | session s =>
      rw [World.bus]
      cases hs : w.session? s with
      | none => exact Bus.on_unused
      | some session => exact (h.session s session hb hs).bus
  | free name =>
      rw [World.bus]
      cases hname : w.buses.get? name with
      | none => exact Bus.on_unused
      | some bus => exact h.free name bus hb (Table.mem_entries_of_get? hname)

theorem modifySession (h : w.Closed σ) {s : SessionId} {f : Session → Session}
    (hf : ∀ session, σ (.session s) = true → w.session? s = some session → (f session).On σ) :
    (w.modifySession s f).Closed σ := by
  refine ⟨fun t session ht hsession => ?_, h.display, h.free⟩
  rw [session?_modifySession] at hsession
  split at hsession
  · rename_i heq
    subst heq
    obtain ⟨before, hbefore, rfl⟩ := Option.map_eq_some_iff.mp hsession
    exact hf before ht hbefore
  · exact h.session t session ht hsession

theorem modifyDisplay (h : w.Closed σ) {d : DisplayId} {f : Display → Display}
    (hf : ∀ display : Display, σ (.display d) = true → display.On σ → (f display).On σ) :
    (w.modifyDisplay d f).Closed σ := by
  refine ⟨h.session, fun e display he hdisplay => ?_, h.free⟩
  rw [display?_modifyDisplay] at hdisplay
  split at hdisplay
  · rename_i heq
    subst heq
    obtain ⟨before, hbefore, rfl⟩ := Option.map_eq_some_iff.mp hdisplay
    exact hf before he (h.display d before he hbefore)
  · exact h.display e display he hdisplay

theorem modifyBus (h : w.Closed σ) {b : BusId} {f : Bus → Bus}
    (hf : ∀ bus : Bus, bus.On σ → (f bus).On σ) : (w.modifyBus b f).Closed σ := by
  cases b with
  | display d =>
      refine h.modifyDisplay fun display _ hon => ?_
      exact ⟨hf _ hon.bus, hon.attached, hon.onScreen, hon.pending⟩
  | session s =>
      refine h.modifySession fun session hs hsession => ?_
      have hon := h.session s session hs hsession
      exact ⟨hon.display, hf _ hon.bus, hon.actions⟩
  | free name =>
      refine ⟨h.session, h.display, fun other bus hother hmem => ?_⟩
      rcases Table.eq_or_mem_of_mem_insert hmem with heq | hmem
      · obtain ⟨rfl, rfl⟩ := Prod.mk.inj heq
        exact hf _ (h.bus (b := .free other) hother)
      · exact h.free other bus hother hmem

end Closed

/-! ## Worlds that are parted alike -/

theorem SameOn.closed (h : SameOn σ w w') (hclosed : w.Closed σ) : w'.Closed σ := by
  refine ⟨fun s session hs hsession => ?_, fun d display hd hdisplay => ?_,
    fun name bus hname hmem => ?_⟩
  · exact hclosed.session s session hs (h.session s hs ▸ hsession)
  · exact hclosed.display d display hd (h.display d hd ▸ hdisplay)
  · have hfiltered : (name, bus) ∈ (w'.freeBuses σ).entries :=
      List.mem_filter.mpr ⟨hmem, hname⟩
    rw [h.free] at hfiltered
    exact hclosed.free name bus hname (List.mem_filter.mp hfiltered).1

theorem SameOn.shares (h : SameOn σ w w') {i : HandlerId} (hi : σ (.handler i) = true)
    (hshares : w.Shares i) : w'.Shares i := by
  refine ⟨h.handlerNames ▸ hshares.named, fun handler hhandler => ?_⟩
  exact hshares.steady handler (h.handler i hi ▸ hhandler)

theorem Parted.of_sameOn (h : w.Parted σ τ) (hsame : SameOn σ w w') (hclosed : w'.Closed τ) :
    w'.Parted σ τ where
  left := hsame.closed h.left
  right := hclosed
  cover := h.cover
  common thing hl hr := by
    obtain ⟨i, rfl, hshares⟩ := h.common thing hl hr
    exact ⟨i, rfl, hsame.shares hl hshares⟩

/-! ## What things of a side hold -/

theorem callbackSessions_on {closing : Option Callback} (h : ClosingOn σ closing) :
    ∀ s ∈ callbackSessions closing, σ (.session s) = true := by
  intro s hs
  cases closing with
  | none => exact absurd hs List.not_mem_nil
  | some callback =>
      cases callback with
      | handler i => exact absurd hs List.not_mem_nil
      | session t onComplete =>
          rw [callbackSessions, List.mem_singleton] at hs
          exact hs ▸ (h _ rfl).1

theorem callbackHandlers_on {closing : Option Callback} (h : ClosingOn σ closing) :
    ∀ i ∈ callbackHandlers closing, σ (.handler i) = true := by
  intro i hi
  cases closing with
  | none => exact absurd hi List.not_mem_nil
  | some callback =>
      cases callback with
      | handler j =>
          rw [callbackHandlers, List.mem_singleton] at hi
          exact hi ▸ h _ rfl
      | session t onComplete => exact (h _ rfl).2 i (by simpa [callbackHandlers] using hi)

theorem listenerHandlers_on {listeners : List Listener} (h : ∀ l ∈ listeners, l.On σ) :
    ∀ i ∈ listenerHandlers listeners, σ (.handler i) = true := by
  intro i hi
  obtain ⟨listener, hmem, heq⟩ := List.mem_filterMap.mp hi
  cases listener with
  | handler j =>
      rw [Option.some.injEq] at heq
      exact heq ▸ h _ hmem
  | observer s => exact absurd heq (by simp)
  | input s kind => exact absurd heq (by simp)

theorem displayHandlers_on {display : Display} (h : display.On σ) :
    ∀ i ∈ display.pending.flatMap callbackHandlers ++ listenerHandlers display.bus.holds,
      σ (.handler i) = true := by
  intro i hi
  rcases List.mem_append.mp hi with hpending | hbus
  · obtain ⟨closing, hclosing, hmem⟩ := List.mem_flatMap.mp hpending
    exact callbackHandlers_on (h.pending closing hclosing) i hmem
  · exact listenerHandlers_on h.bus.holds i hbus

theorem sessionHandlers_on {session : Session} (h : session.On σ) :
    ∀ i ∈ listenerHandlers session.bus.holds ++ session.actions.values.flatten,
      σ (.handler i) = true := by
  intro i hi
  rcases List.mem_append.mp hi with hbus | hactions
  · exact listenerHandlers_on h.bus.holds i hbus
  · obtain ⟨hs, hhs, hmem⟩ := List.mem_flatten.mp hactions
    exact h.actions hs hhs i hmem

/-! ## Who is alive -/

theorem mem_displays_iff {display : Display} :
    display ∈ w.displays ↔ ∃ d, w.display? d = some display := by
  rw [List.mem_iff_getElem?]
  exact ⟨fun ⟨i, hi⟩ => ⟨⟨i⟩, hi⟩, fun ⟨d, hd⟩ => ⟨d.index, hd⟩⟩

namespace SameOn

variable {held : Held}

/-- What keeps a session of the side alive is on the side, or belongs to no side. -/
theorem mem_liveSessions (h : SameOn σ w w') (hparted : w.Parted σ τ) {s : SessionId}
    (hs : σ (.session s) = true) (hlive : s ∈ w.liveSessions held) :
    s ∈ w'.liveSessions held := by
  rw [liveSessions, List.mem_append] at hlive ⊢
  rcases hlive with hshared | hdisplays
  · refine .inl ?_
    simp only [h.sessionNames, h.manager, h.manager?]
    exact hshared
  · obtain ⟨display, hdisplay, hmem⟩ := List.mem_flatMap.mp hdisplays
    obtain ⟨d, hd⟩ := mem_displays_iff.mp hdisplay
    rcases hparted.cover (.display d) with hσ | hτ
    · refine .inr (List.mem_flatMap.mpr ⟨display, ?_, hmem⟩)
      exact mem_displays_iff.mpr ⟨d, (h.display d hσ).trans hd⟩
    · obtain ⟨closing, hclosing, hwaits⟩ := List.mem_flatMap.mp hmem
      have hother := (hparted.right.display d display hτ hd).pending closing hclosing
      exact absurd (callbackSessions_on hother s hwaits) (by simp [hparted.session hs])

theorem sessionAlive (h : SameOn σ w w') (hparted : w.Parted σ τ) (hclosed : w'.Closed τ)
    {s : SessionId} (hs : σ (.session s) = true) :
    w'.sessionAlive held s = w.sessionAlive held s := by
  rw [World.sessionAlive, World.sessionAlive, Bool.eq_iff_iff, List.contains_iff_mem,
    List.contains_iff_mem]
  exact ⟨h.symm.mem_liveSessions (hparted.of_sameOn h hclosed) hs,
    h.mem_liveSessions hparted hs⟩

/-- What keeps a handler of the side alive is on the side, or is the host that has a name for
it. -/
theorem mem_liveHandlers (h : SameOn σ w w') (hparted : w.Parted σ τ) {i : HandlerId}
    (hi : σ (.handler i) = true) (hlive : i ∈ w.liveHandlers held) :
    i ∈ w'.liveHandlers held := by
  by_cases hshared : τ (.handler i) = true
  · have hnamed := ((hparted.handler hi hshared).named)
    rw [← h.handlerNames] at hnamed
    simp [liveHandlers, hnamed]
  simp only [liveHandlers, List.mem_append, List.mem_flatMap] at hlive ⊢
  rcases hlive with (((hheld | hnamed) | ⟨display, hdisplay, hmem⟩) | ⟨bus, hbus, hmem⟩) |
    ⟨s, hs, hmem⟩
  · exact .inl (.inl (.inl (.inl hheld)))
  · exact .inl (.inl (.inl (.inr (h.handlerNames ▸ hnamed))))
  · obtain ⟨d, hd⟩ := mem_displays_iff.mp hdisplay
    rcases hparted.cover (.display d) with hσ | hτ
    · exact .inl (.inl (.inr ⟨display, mem_displays_iff.mpr ⟨d, (h.display d hσ).trans hd⟩, hmem⟩))
    · have hother := displayHandlers_on (hparted.right.display d display hτ hd)
      exact absurd (hother i (by simpa using hmem)) hshared
  · obtain ⟨entry, hentry, rfl⟩ := List.mem_map.mp hbus
    rcases hparted.cover (.free entry.1) with hσ | hτ
    · have hfiltered : entry ∈ (w.freeBuses σ).entries := List.mem_filter.mpr ⟨hentry, hσ⟩
      rw [← h.free] at hfiltered
      exact .inl (.inr ⟨entry.2, List.mem_map_of_mem (List.mem_filter.mp hfiltered).1, hmem⟩)
    · have hother := (hparted.right.free entry.1 entry.2 hτ hentry).holds
      exact absurd (listenerHandlers_on hother i hmem) hshared
  · cases hsession : w.session? s with
    | none =>
        rw [hsession] at hmem
        exact absurd hmem List.not_mem_nil
    | some session =>
        rw [hsession, Option.elim_some] at hmem
        rcases hparted.cover (.session s) with hσ | hτ
        · refine .inr ⟨s, h.mem_liveSessions hparted hσ hs, ?_⟩
          rw [h.session s hσ, hsession, Option.elim_some]
          exact hmem
        · have hother := sessionHandlers_on (hparted.right.session s session hτ hsession)
          exact absurd (hother i hmem) hshared

/-- Worlds that are the same on a side agree on who of it is alive. -/
theorem alive (h : SameOn σ w w') (hparted : w.Parted σ τ) (hclosed : w'.Closed τ)
    {listener : Listener} (hlistener : listener.On σ) :
    w'.alive held listener = w.alive held listener := by
  cases listener with
  | handler i =>
      rw [World.alive, World.alive, Bool.eq_iff_iff, List.contains_iff_mem, List.contains_iff_mem]
      exact ⟨h.symm.mem_liveHandlers (hparted.of_sameOn h hclosed) hlistener,
        h.mem_liveHandlers hparted hlistener⟩
  | observer s => rfl
  | input s kind => exact h.sessionAlive hparted hclosed hlistener

theorem attachedTo (h : SameOn σ w w') (hparted : w.Parted σ τ) (hclosed : w'.Closed τ)
    {display : Display} (hdisplay : display.On σ) :
    w'.attachedTo held display = w.attachedTo held display := by
  rw [World.attachedTo, World.attachedTo]
  cases hattached : display.attached with
  | none => rfl
  | some s =>
      rw [Option.filter_some, Option.filter_some,
        h.sessionAlive hparted hclosed (hdisplay.attached s hattached)]

theorem replacementsOf (h : SameOn σ w w') (hparted : w.Parted σ τ) (hclosed : w'.Closed τ)
    {display : Display} (hdisplay : display.On σ) :
    w'.replacementsOf held display = w.replacementsOf held display := by
  rw [World.replacementsOf, World.replacementsOf, h.attachedTo hparted hclosed hdisplay]
  cases hattached : w.attachedTo held display with
  | none => rfl
  | some s =>
      have hs : σ (.session s) = true :=
        hdisplay.attached s (Option.filter_eq_some_iff.mp hattached).1
      rw [Option.bind_some, Option.bind_some, h.session s hs]

end SameOn

end World

end Parley
