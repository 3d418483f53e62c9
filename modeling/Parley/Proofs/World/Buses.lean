import Parley.Proofs.Bus.Calm
import Parley.Proofs.Table
import Parley.Proofs.World.Spared

/-!
# The buses of a world

A bus belongs to a display or a session, or it is free and there as soon as it is asked for.
Nothing that has been made is ever taken away, so a bus that is there stays there.  Most
changes of a world leave every bus as it is (`SameBuses`); the others, apart from those of the
bus tasks, are calm for every bus (`Calm`).  All of them spare the graphs that no session holds,
and enter no name for a second bus.
-/

namespace Parley.World

/-- Whether a bus is there. -/
def HasBus (w : World) : BusId → Prop
  | .display d => d.index < w.displays.length
  | .session s => s.index < w.sessions.length
  | .free _ => True

theorem hasBus_display {w : World} {d : DisplayId} {display : Display}
    (h : w.display? d = some display) : w.HasBus (.display d) :=
  (List.getElem?_eq_some_iff.mp h).1

theorem hasBus_session {w : World} {s : SessionId} {session : Session}
    (h : w.session? s = some session) : w.HasBus (.session s) :=
  (List.getElem?_eq_some_iff.mp h).1

/-- An entry of a list may be changed in ways that do not matter. -/
theorem flatMap_modify {α β : Type} {l : List α} {i : ℕ} {f : α → α} {g : α → List β}
    (h : ∀ a, l[i]? = some a → g (f a) = g a) : (l.modify i f).flatMap g = l.flatMap g := by
  rw [List.flatMap_def, List.flatMap_def]
  congr 1
  apply List.ext_getElem?
  intro j
  rw [List.getElem?_map, List.getElem?_map, List.getElem?_modify]
  by_cases hj : i = j
  · subst hj
    cases hi : l[i]? with
    | none => simp
    | some a => simp [h a hi]
  · simp [hj]

/-! ## Changing one bus -/

theorem bus_modifyDisplay (w : World) (d : DisplayId) (f : Display → Display) (b : BusId) :
    (w.modifyDisplay d f).bus b =
      if b = .display d then ((w.display? d).map f).elim {} Display.bus else w.bus b := by
  cases b with
  | display e =>
      by_cases h : e = d
      · subst h
        simp [bus, display?_modifyDisplay]
      · simp [bus, display?_modifyDisplay, Ne.symm h, h]
  | session s => rfl
  | free name => rfl

theorem bus_modifySession (w : World) (s : SessionId) (f : Session → Session) (b : BusId) :
    (w.modifySession s f).bus b =
      if b = .session s then ((w.session? s).map f).elim {} (·.bus) else w.bus b := by
  cases b with
  | display d => rfl
  | session t =>
      by_cases h : t = s
      · subst h
        simp [bus, session?_modifySession]
      · simp [bus, session?_modifySession, Ne.symm h, h]
  | free name => rfl

theorem hasBus_modifyDisplay {w : World} {d : DisplayId} {f : Display → Display} {b : BusId} :
    (w.modifyDisplay d f).HasBus b ↔ w.HasBus b := by
  cases b with
  | display e => simp [HasBus, modifyDisplay]
  | session s => exact Iff.rfl
  | free name => exact Iff.rfl

theorem hasBus_modifySession {w : World} {s : SessionId} {f : Session → Session} {b : BusId} :
    (w.modifySession s f).HasBus b ↔ w.HasBus b := by
  cases b with
  | display d => exact Iff.rfl
  | session t => simp [HasBus]
  | free name => exact Iff.rfl

theorem hasBus_modifyBus {w : World} {b c : BusId} {f : Bus → Bus} :
    (w.modifyBus b f).HasBus c ↔ w.HasBus c := by
  cases b with
  | display d => exact hasBus_modifyDisplay
  | session s => exact hasBus_modifySession
  | free name => cases c <;> exact Iff.rfl

theorem bus_modifyBus_self {w : World} {b : BusId} (h : w.HasBus b) (f : Bus → Bus) :
    (w.modifyBus b f).bus b = f (w.bus b) := by
  cases b with
  | display d =>
      have hdisplay : w.display? d = some w.displays[d.index] := List.getElem?_eq_getElem h
      rw [modifyBus, bus_modifyDisplay, if_pos rfl, bus, hdisplay]
      rfl
  | session s =>
      have hsession : w.session? s = some w.sessions[s.index] := List.getElem?_eq_getElem h
      rw [modifyBus, bus_modifySession, if_pos rfl, bus, hsession]
      rfl
  | free name => simp [modifyBus, bus]

theorem bus_modifyBus_of_ne {w : World} {b c : BusId} (h : c ≠ b) (f : Bus → Bus) :
    (w.modifyBus b f).bus c = w.bus c := by
  cases b with
  | display d => rw [modifyBus, bus_modifyDisplay, if_neg h]
  | session s => rw [modifyBus, bus_modifySession, if_neg h]
  | free name =>
      cases c with
      | display d => rfl
      | session s => rfl
      | free other =>
          have hname : name ≠ other := fun heq => h (heq ▸ rfl)
          simp [modifyBus, bus, Table.get?_insert, hname]

/-! ## Changing one bus in a certain way -/

section Relation

variable {R : Bus → Bus → Prop} (hrefl : ∀ bus, R bus bus) {w : World}

include hrefl

theorem bus_modifyDisplay_rel {d : DisplayId} {f : Display → Display}
    (h : ∀ display : Display, R display.bus (f display).bus) (b : BusId) :
    R (w.bus b) ((w.modifyDisplay d f).bus b) := by
  rw [bus_modifyDisplay]
  split
  · rename_i hb
    subst hb
    cases hd : w.display? d with
    | none => simpa [World.bus, hd] using hrefl _
    | some display => simpa [World.bus, hd] using h display
  · exact hrefl _

theorem bus_modifySession_rel {s : SessionId} {f : Session → Session}
    (h : ∀ session : Session, R session.bus (f session).bus) (b : BusId) :
    R (w.bus b) ((w.modifySession s f).bus b) := by
  rw [bus_modifySession]
  split
  · rename_i hb
    subst hb
    cases hs : w.session? s with
    | none => simpa [World.bus, hs] using hrefl _
    | some session => simpa [World.bus, hs] using h session
  · exact hrefl _

theorem bus_modifyBus_rel {b : BusId} {f : Bus → Bus} (h : ∀ bus : Bus, R bus (f bus))
    (c : BusId) : R (w.bus c) ((w.modifyBus b f).bus c) := by
  cases b with
  | display d => exact bus_modifyDisplay_rel hrefl (fun display => h display.bus) c
  | session s => exact bus_modifySession_rel hrefl (fun session => h session.bus) c
  | free name =>
      by_cases hc : c = .free name
      · subst hc
        rw [bus_modifyBus_self (b := .free name) trivial]
        exact h _
      · rw [bus_modifyBus_of_ne hc]
        exact hrefl _

end Relation

section Admits

variable {P : BusId → Listener → Prop} {w : World}

theorem admits_modifyDisplay {d : DisplayId} {f : Display → Display}
    (h : ∀ display : Display, display.bus.Admits (P (.display d)) (f display).bus) (b : BusId) :
    (w.bus b).Admits (P b) ((w.modifyDisplay d f).bus b) := by
  by_cases hb : b = .display d
  · rw [hb]
    exact bus_modifyDisplay_rel .refl h _
  · rw [bus_modifyDisplay, if_neg hb]
    exact .refl _

theorem admits_modifySession {s : SessionId} {f : Session → Session}
    (h : ∀ session : Session, session.bus.Admits (P (.session s)) (f session).bus) (b : BusId) :
    (w.bus b).Admits (P b) ((w.modifySession s f).bus b) := by
  by_cases hb : b = .session s
  · rw [hb]
    exact bus_modifySession_rel .refl h _
  · rw [bus_modifySession, if_neg hb]
    exact .refl _

theorem admits_modifyBus {c : BusId} {f : Bus → Bus} (h : ∀ bus : Bus, bus.Admits (P c) (f bus))
    (b : BusId) : (w.bus b).Admits (P b) ((w.modifyBus c f).bus b) := by
  by_cases hb : b = c
  · rw [hb]
    exact bus_modifyBus_rel .refl h c
  · rw [bus_modifyBus_of_ne hb]
    exact .refl _

end Admits

/-! ## Worlds with the same buses -/

/-- Every bus stays as it is. -/
structure SameBuses (w w' : World) : Prop where
  grows : ∀ b, w.HasBus b → w'.HasBus b
  bus : ∀ b, w'.bus b = w.bus b
  spares : w.memory.Spares w'.memory
  keys : w.buses.keys.Nodup → w'.buses.keys.Nodup

/-- Every bus changes calmly. -/
structure Calm (w w' : World) : Prop where
  grows : ∀ b, w.HasBus b → w'.HasBus b
  bus : ∀ b, (w.bus b).Calm (w'.bus b)
  spares : w.memory.Spares w'.memory
  keys : w.buses.keys.Nodup → w'.buses.keys.Nodup

theorem SameBuses.refl (w : World) : SameBuses w w :=
  ⟨fun _ h => h, fun _ => rfl, .refl _, id⟩

theorem SameBuses.trans {w₁ w₂ w₃ : World} (h : SameBuses w₁ w₂) (h' : SameBuses w₂ w₃) :
    SameBuses w₁ w₃ :=
  ⟨fun b hb => h'.grows b (h.grows b hb), fun b => (h'.bus b).trans (h.bus b),
    h.spares.trans h'.spares, fun hkeys => h'.keys (h.keys hkeys)⟩

theorem SameBuses.calm {w w' : World} (h : SameBuses w w') : Calm w w' :=
  ⟨h.grows, fun b => h.bus b ▸ .refl _, h.spares, h.keys⟩

theorem SameBuses.trans_calm {w₁ w₂ w₃ : World} (h : SameBuses w₁ w₂) (h' : Calm w₂ w₃) :
    Calm w₁ w₃ :=
  ⟨fun b hb => h'.grows b (h.grows b hb), fun b => h.bus b ▸ h'.bus b, h.spares.trans h'.spares,
    fun hkeys => h'.keys (h.keys hkeys)⟩

theorem Calm.trans_same {w₁ w₂ w₃ : World} (h : Calm w₁ w₂) (h' : SameBuses w₂ w₃) :
    Calm w₁ w₃ :=
  ⟨fun b hb => h'.grows b (h.grows b hb), fun b => h'.bus b ▸ h.bus b, h.spares.trans h'.spares,
    fun hkeys => h'.keys (h.keys hkeys)⟩

/-- Displays and sessions are kept under other changes, and free buses are not touched. -/
theorem sameBuses_of_eq {w w' : World} (hdisplays : w'.displays = w.displays)
    (hsessions : w'.sessions = w.sessions) (hbuses : w'.buses = w.buses)
    (hspares : w.memory.Spares w'.memory) : SameBuses w w' := by
  refine ⟨fun b => ?_, fun b => ?_, hspares, fun hkeys => hbuses ▸ hkeys⟩
  · cases b <;> simp [HasBus, hdisplays, hsessions]
  · cases b <;> simp [World.bus, display?, session?, hdisplays, hsessions, hbuses]

theorem sameBuses_modifyDisplay {w : World} {d : DisplayId} {f : Display → Display}
    (h : ∀ display, (f display).bus = display.bus) : SameBuses w (w.modifyDisplay d f) := by
  refine ⟨fun b => hasBus_modifyDisplay.mpr, fun b => ?_, .refl _, id⟩
  rw [bus_modifyDisplay]
  split
  · rename_i hb
    subst hb
    cases hd : w.display? d <;> simp [World.bus, hd, h]
  · rfl

theorem sameBuses_modifySession {w : World} {s : SessionId} {f : Session → Session}
    (h : ∀ session, w.session? s = some session → (f session).bus = session.bus) :
    SameBuses w (w.modifySession s f) := by
  refine ⟨fun b => hasBus_modifySession.mpr, fun b => ?_, w.memory.spares_modifySession s f, id⟩
  rw [bus_modifySession]
  split
  · rename_i hb
    subst hb
    cases hs : w.session? s with
    | none => simp [World.bus, hs]
    | some session => simp [World.bus, hs, h session hs]
  · rfl

theorem sameBuses_foldl {α : Type} {f : World → α → World} (h : ∀ w a, SameBuses w (f w a))
    (w : World) (as : List α) : SameBuses w (as.foldl f w) := by
  induction as generalizing w with
  | nil => exact .refl w
  | cons a as ih => exact (h w a).trans (ih _)

theorem sameBuses_modifyManager (w : World) (m : ManagerId) (f : Manager → Manager) :
    SameBuses w (w.modifyManager m f) :=
  sameBuses_of_eq rfl (w.sessions_modifyManager m f) rfl (w.memory.spares_modifyManager m f)

/-- A new display comes with a bus that has never been used. -/
theorem sameBuses_addDisplay {w : World} {display : Display} (h : display.bus = {}) :
    SameBuses w (w.addDisplay display).1 := by
  refine ⟨fun b => ?_, fun b => ?_, .refl _, id⟩
  · cases b with
    | display d => simp only [HasBus, addDisplay, List.length_append]; omega
    | session s => exact id
    | free name => exact id
  · cases b with
    | display d =>
        simp only [World.bus, display?, addDisplay, List.getElem?_append]
        split
        · rfl
        -- Beyond the displays there is an unused bus, before and after.
        · rename_i hlength
          rw [List.getElem?_eq_none (Nat.le_of_not_lt hlength)]
          cases hd : d.index - w.displays.length <;> simp [h]
    | session s => rfl
    | free name => rfl

/-! ## Calm changes -/

theorem calm_modifyDisplay {w : World} {d : DisplayId} {f : Display → Display}
    (h : ∀ display : Display, display.bus.Calm (f display).bus) : Calm w (w.modifyDisplay d f) :=
  ⟨fun _ => hasBus_modifyDisplay.mpr, bus_modifyDisplay_rel .refl h, .refl _, id⟩

theorem calm_modifySession {w : World} {s : SessionId} {f : Session → Session}
    (h : ∀ session : Session, session.bus.Calm (f session).bus) : Calm w (w.modifySession s f) :=
  ⟨fun _ => hasBus_modifySession.mpr, bus_modifySession_rel .refl h,
    w.memory.spares_modifySession s f, id⟩

theorem spares_modifyBus (w : World) (b : BusId) (f : Bus → Bus) :
    w.memory.Spares (w.modifyBus b f).memory := by
  cases b with
  | session s =>
      exact w.memory.spares_modifySession s fun session => { session with bus := f session.bus }
  | display d => exact .refl _
  | free name => exact .refl _

theorem nodup_keys_modifyBus {w : World} (h : w.buses.keys.Nodup) (b : BusId) (f : Bus → Bus) :
    (w.modifyBus b f).buses.keys.Nodup := by
  cases b with
  | free name => exact Table.nodup_keys_insert h name _
  | session s => exact h
  | display d => exact h

theorem calm_modifyBus {w : World} {b : BusId} {f : Bus → Bus} (h : ∀ bus : Bus, bus.Calm (f bus)) :
    Calm w (w.modifyBus b f) :=
  ⟨fun _ => hasBus_modifyBus.mpr, bus_modifyBus_rel .refl h, w.spares_modifyBus b f,
    fun hkeys => nodup_keys_modifyBus hkeys b f⟩

/-- A new session comes with a bus that has never been used. -/
theorem sameBuses_enrol {w : World} {session : Session} (h : session.bus = {}) :
    SameBuses w (w.enrol session) := by
  refine ⟨fun b => ?_, fun b => ?_, w.memory.spares_addSession session, id⟩
  · cases b with
    | display d => exact id
    | session s => simp only [HasBus, sessions_enrol, List.length_append]; omega
    | free name => exact id
  · cases b with
    | display d => rfl
    | session s =>
        simp only [World.bus, session?, sessions_enrol, List.getElem?_append]
        split
        · rfl
        · rename_i hlength
          rw [List.getElem?_eq_none (Nat.le_of_not_lt hlength)]
          cases hs : s.index - w.sessions.length <;> simp [h]
    | free name => rfl

/-- A new session hears of all input. -/
theorem calm_addSession {w : World} (session : Session) (h : session.bus = {}) :
    Calm w (w.addSession session).1 :=
  (sameBuses_enrol h).trans_calm (calm_modifyDisplay fun display =>
    .resubscribed (Bus.resubscribed_listen _ display.bus))

/-- Nobody else listens because of it. -/
theorem admits_addSession {w : World} {P : BusId → Listener → Prop} (session : Session)
    (hbus : session.bus = {})
    (h : ∀ kind, P (.display session.display) (.input ⟨w.sessions.length⟩ kind)) (b : BusId) :
    (w.bus b).Admits (P b) ((w.addSession session).1.bus b) := by
  rw [← (sameBuses_enrol hbus).bus b]
  exact admits_modifyDisplay (fun display => Bus.admits_listen h display.bus) b

theorem retains_addSession {w : World} (session : Session) (h : session.bus = {}) (b : BusId) :
    (w.bus b).Retains ((w.addSession session).1.bus b) := by
  rw [← (sameBuses_enrol h).bus b]
  exact bus_modifyDisplay_rel .refl (fun display => Bus.retains_listen _ display.bus) b

end Parley.World
