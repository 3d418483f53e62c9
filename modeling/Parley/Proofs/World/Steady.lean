import Parley.Proofs.World.Buses

/-!
# Steady worlds

Only the operations of a session change where it stands: on which display, in which graphs, at
which node and line, and whether it is finished.  Only managers change what they have
registered, and a display never changes its title.  A world is steady under a change that
leaves all of this as it is (`Steady`).

Apart from that, a session has a registry of its action handlers.  A change that leaves the
registries as they are is told of separately (`SameRegistries`), since a session may be moved
without touching its registry.
-/

namespace Parley

/-- Where a session stands: all of it that only its own operations change. -/
structure Standing where
  display : DisplayId
  config : ConfigId
  graph : Option Graph
  shelved : List Graph
  phase : Phase
  finished : Bool
  deriving DecidableEq

def Session.standing (session : Session) : Standing where
  display := session.display
  config := session.config
  graph := session.graph
  shelved := session.shelved
  phase := session.phase
  finished := session.finished

namespace World

def standings (w : World) : List Standing :=
  w.sessions.map Session.standing

/-- Sessions, managers and the titles of displays stay as they are. -/
structure Steady (w w' : World) : Prop where
  standings : w'.standings = w.standings
  managers : w'.managers = w.managers
  title : ∀ d display, w.display? d = some display →
    ∃ display', w'.display? d = some display' ∧ display'.title = display.title

variable {w w' w₁ w₂ w₃ : World}

theorem Steady.refl (w : World) : Steady w w :=
  ⟨rfl, rfl, fun _ display h => ⟨display, h, rfl⟩⟩

theorem Steady.trans (h : Steady w₁ w₂) (h' : Steady w₂ w₃) : Steady w₁ w₃ := by
  refine ⟨h'.standings.trans h.standings, h'.managers.trans h.managers, fun d display hd => ?_⟩
  obtain ⟨display', hd', htitle⟩ := h.title d display hd
  obtain ⟨display'', hd'', htitle'⟩ := h'.title d display' hd'
  exact ⟨display'', hd'', htitle'.trans htitle⟩

theorem steady_of_eq (hdisplays : w'.displays = w.displays) (hsessions : w'.sessions = w.sessions)
    (hmanagers : w'.managers = w.managers) : Steady w w' := by
  refine ⟨by rw [standings, hsessions, standings], hmanagers, fun d display hd => ?_⟩
  exact ⟨display, by rw [display?, hdisplays]; exact hd, rfl⟩

theorem steady_modifyDisplay {d : DisplayId} {f : Display → Display}
    (h : ∀ display, (f display).title = display.title) : Steady w (w.modifyDisplay d f) := by
  refine ⟨rfl, rfl, fun e display he => ?_⟩
  rw [display?_modifyDisplay, he]
  split
  · exact ⟨f display, rfl, h display⟩
  · exact ⟨display, rfl, rfl⟩

theorem standings_modifySession {s : SessionId} {f : Session → Session}
    (h : ∀ session, w.session? s = some session → (f session).standing = session.standing) :
    (w.modifySession s f).standings = w.standings := by
  apply List.ext_getElem?
  intro i
  have hlook := session?_modifySession w s ⟨i⟩ f
  rw [standings, standings, List.getElem?_map, List.getElem?_map]
  rw [session?, session?] at hlook
  rw [hlook]
  split
  · rename_i hi
    subst hi
    cases hs : w.sessions[i]? with
    | none => rfl
    | some session => simp [h session hs]
  · rfl

theorem steady_modifySession {s : SessionId} {f : Session → Session}
    (h : ∀ session, w.session? s = some session → (f session).standing = session.standing) :
    Steady w (w.modifySession s f) :=
  ⟨standings_modifySession h, w.managers_modifySession s f, fun _ display hd => ⟨display, hd, rfl⟩⟩

/-- What happens on a bus does not matter here. -/
theorem steady_modifyBus (w : World) (b : BusId) (f : Bus → Bus) : Steady w (w.modifyBus b f) := by
  cases b with
  | display d => exact steady_modifyDisplay fun _ => rfl
  | session s => exact steady_modifySession fun _ _ => rfl
  | free name => exact steady_of_eq rfl rfl rfl

theorem steady_addDisplay (w : World) (display : Display) :
    Steady w (w.addDisplay display).1 := by
  refine ⟨rfl, rfl, fun d found hd => ⟨found, ?_, rfl⟩⟩
  rw [display?] at hd
  rw [display?, addDisplay, List.getElem?_append_left (List.getElem?_eq_some_iff.mp hd).1, hd]

/-- A session of a steady world still stands where it stood. -/
theorem Steady.session? (h : Steady w w') (s : SessionId) :
    (w'.session? s).map Session.standing = (w.session? s).map Session.standing := by
  have hlists : w'.standings[s.index]? = w.standings[s.index]? := by rw [h.standings]
  rw [World.standings, World.standings, List.getElem?_map, List.getElem?_map] at hlists
  exact hlists

/-! ## Registries -/

/-- The next session to be made is not there yet. -/
theorem session?_length (w : World) : w.session? ⟨w.sessions.length⟩ = none :=
  List.getElem?_eq_none (Nat.le_refl _)

/-- A new session takes the next number. -/
theorem session?_addSession (w : World) (session : Session) (s : SessionId) :
    (w.addSession session).1.session? s =
      if s.index = w.sessions.length then some session else w.session? s := by
  rw [addSession, session?_modifyDisplay, session?, session?, sessions_enrol]
  rcases Nat.lt_trichotomy s.index w.sessions.length with hlt | heq | hgt
  · rw [List.getElem?_append_left hlt, if_neg (by omega)]
  · simp [heq]
  · rw [if_neg (by omega), List.getElem?_eq_none (by simp; omega),
      List.getElem?_eq_none (by omega)]

/-- The action handlers of a session; those of one that is not there are none. -/
def registry (w : World) (s : SessionId) : Table String (List HandlerId) :=
  (w.session? s).elim Table.empty (·.actions)

/-- Every session keeps its action handlers. -/
def SameRegistries (w w' : World) : Prop :=
  ∀ s, w'.registry s = w.registry s

theorem registry_eq {s : SessionId} {session : Session} (hs : w.session? s = some session) :
    w.registry s = session.actions := by
  rw [registry, hs, Option.elim_some]

theorem SameRegistries.refl (w : World) : SameRegistries w w := fun _ => rfl

theorem SameRegistries.trans (h : SameRegistries w₁ w₂) (h' : SameRegistries w₂ w₃) :
    SameRegistries w₁ w₃ := fun s => (h' s).trans (h s)

theorem sameRegistries_of_eq (hsessions : w'.sessions = w.sessions) : SameRegistries w w' :=
  fun s => by rw [registry, session?, hsessions]; rfl

theorem sameRegistries_modifySession {s : SessionId} {f : Session → Session}
    (h : ∀ session, w.session? s = some session → (f session).actions = session.actions) :
    SameRegistries w (w.modifySession s f) := by
  intro t
  rw [registry, session?_modifySession, registry]
  split
  · rename_i hst
    subst hst
    cases hs : w.session? s with
    | none => rfl
    | some session => exact h session hs
  · rfl

theorem sameRegistries_modifyManager (w : World) (m : ManagerId) (f : Manager → Manager) :
    SameRegistries w (w.modifyManager m f) :=
  sameRegistries_of_eq (w.sessions_modifyManager m f)

/-- What happens on a bus does not matter here. -/
theorem sameRegistries_modifyBus (w : World) (b : BusId) (f : Bus → Bus) :
    SameRegistries w (w.modifyBus b f) := by
  cases b with
  | session s => exact sameRegistries_modifySession fun _ _ => rfl
  | _ => exact sameRegistries_of_eq rfl

/-- A new session comes with an empty registry. -/
theorem sameRegistries_addSession {session : Session} (h : session.actions = Table.empty) :
    SameRegistries w (w.addSession session).1 := by
  intro s
  rw [registry, session?_addSession, registry]
  split
  · rename_i hs
    obtain ⟨i⟩ := s
    rw [show i = w.sessions.length from hs, session?_length]
    exact h
  · rfl

/-! ## Worlds that are kept -/

/-- A steady change that leaves every bus and every registry as it is. -/
structure Kept (w w' : World) : Prop where
  buses : SameBuses w w'
  steady : Steady w w'
  registries : SameRegistries w w'

theorem Kept.trans (h : Kept w₁ w₂) (h' : Kept w₂ w₃) : Kept w₁ w₃ :=
  ⟨h.buses.trans h'.buses, h.steady.trans h'.steady, h.registries.trans h'.registries⟩

theorem Kept.refl (w : World) : Kept w w := ⟨.refl w, .refl w, .refl w⟩

theorem kept_of_eq (hdisplays : w'.displays = w.displays) (hmemory : w'.memory = w.memory)
    (hbuses : w'.buses = w.buses) : Kept w w' :=
  have hsessions : w'.sessions = w.sessions := congrArg Memory.sessions hmemory
  have hmanagers : w'.managers = w.managers := congrArg Memory.managers hmemory
  ⟨sameBuses_of_eq hdisplays hsessions hbuses (.of_eq hmemory),
    steady_of_eq hdisplays hsessions hmanagers, sameRegistries_of_eq hsessions⟩

theorem kept_modifyDisplay {d : DisplayId} {f : Display → Display}
    (hbus : ∀ display, (f display).bus = display.bus)
    (htitle : ∀ display, (f display).title = display.title) : Kept w (w.modifyDisplay d f) :=
  ⟨sameBuses_modifyDisplay hbus, steady_modifyDisplay htitle, sameRegistries_of_eq rfl⟩

/-- A new display comes with a bus that has never been used. -/
theorem kept_addDisplay {display : Display} (h : display.bus = {}) :
    Kept w (w.addDisplay display).1 :=
  ⟨sameBuses_addDisplay h, steady_addDisplay w display, sameRegistries_of_eq rfl⟩

end World

end Parley
