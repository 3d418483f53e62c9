import Parley.Proofs.Session.Passage
import Parley.Proofs.Table

/-!
# What a manager has on record

A manager records the display it was given under each title, and the session it started there
last.  Apart from its own work on sessions, nothing takes a session that is still running off the
record, and every display stays on record under its own title (`Tends`).
-/

namespace Parley

namespace World

variable {w w' w₁ w₂ w₃ : World} {id other : ManagerId} {s : SessionId} {title : String}

/-! ## Records -/

def titleOf (w : World) (d : DisplayId) : Option String :=
  (w.display? d).map Display.title

/-- The title of the display that a session is on. -/
def titleOn (w : World) (s : SessionId) : Option String :=
  (w.session? s).bind fun session => w.titleOf session.display

/-- Whether a session is there and not finished. -/
def running (w : World) (s : SessionId) : Bool :=
  (w.session? s).any fun session => !session.finished

theorem running_eq (w : World) (s : SessionId) :
    w.running s = !(w.session? s).elim true (·.finished) := by
  rw [running]
  cases w.session? s <;> rfl

/-- The session that a manager has on record for a title. -/
def record (w : World) (id : ManagerId) (title : String) : Option SessionId :=
  (w.manager? id).bind fun manager => manager.sessions.get? title

/-- A manager has every display on record under its own title. -/
def Titled (id : ManagerId) (w : World) : Prop :=
  ∀ manager title d, w.manager? id = some manager → manager.displays.get? title = some d →
    w.titleOf d = some title

theorem manager?_modifyManager (w : World) (id other : ManagerId) (f : Manager → Manager) :
    (w.modifyManager other f).manager? id =
      if other = id then (w.manager? id).map f else w.manager? id := by
  obtain ⟨i⟩ := id
  obtain ⟨j⟩ := other
  by_cases h : j = i <;> simp [manager?, h]

theorem record_of_manager? {manager : Manager} (h : w.manager? id = some manager)
    (title : String) : w.record id title = manager.sessions.get? title := by
  rw [record, h]
  rfl

theorem record_modifyManager {manager : Manager} (h : w.manager? id = some manager)
    (f : Manager → Manager) (title : String) :
    (w.modifyManager id f).record id title = (f manager).sessions.get? title := by
  refine record_of_manager? ?_ title
  rw [manager?_modifyManager, if_pos rfl, h]
  rfl

/-- Every display stays on record as long as a manager changes only the sessions. -/
theorem Titled.modifyManager (h : w.Titled id) {f : Manager → Manager}
    (hf : ∀ manager, (f manager).displays = manager.displays) :
    (w.modifyManager id f).Titled id := by
  intro manager title d hid hd
  rw [manager?_modifyManager, if_pos rfl] at hid
  obtain ⟨found, hfound, rfl⟩ := Option.map_eq_some_iff.mp hid
  exact h found title d hfound (hf found ▸ hd)

/-! ## Keeping records -/

/-- Displays keep their titles, and the manager its records of sessions that run. -/
structure Tends (id : ManagerId) (w w' : World) : Prop where
  title : ∀ d title, w.titleOf d = some title → w'.titleOf d = some title
  titled : w.Titled id → w'.Titled id
  record : ∀ title s, w.record id title = some s → w.running s = true →
    w'.record id title = some s

/-- Nothing of this depends on more than the titles and the manager. -/
theorem tends_of_eq (htitle : ∀ d title, w.titleOf d = some title → w'.titleOf d = some title)
    (hmanager : w'.manager? id = w.manager? id) : Tends id w w' := by
  refine ⟨htitle, fun htitled manager title d hid hd => ?_, fun title s hrecord _ => ?_⟩
  · exact htitle d title (htitled manager title d (hmanager ▸ hid) hd)
  · rw [record, hmanager]
    exact hrecord

theorem Tends.refl (id : ManagerId) (w : World) : Tends id w w :=
  tends_of_eq (fun _ _ h => h) rfl

theorem Steady.tends (h : Steady w w') (id : ManagerId) : Tends id w w' := by
  refine tends_of_eq (fun d title hd => ?_) (by rw [manager?, h.managers, manager?])
  obtain ⟨display, hdisplay, rfl⟩ := Option.map_eq_some_iff.mp hd
  obtain ⟨display', hdisplay', htitle⟩ := h.title d display hdisplay
  exact Option.map_eq_some_iff.mpr ⟨display', hdisplay', htitle⟩

theorem tends_of_displays (hdisplays : w'.displays = w.displays)
    (hmanager : w'.manager? id = w.manager? id) : Tends id w w' :=
  tends_of_eq (fun d title hd => by rw [titleOf, display?, hdisplays]; exact hd) hmanager

theorem titleOf_modifyDisplay (w : World) (d e : DisplayId) {f : Display → Display}
    (h : ∀ display, (f display).title = display.title) :
    (w.modifyDisplay e f).titleOf d = w.titleOf d := by
  rw [titleOf, display?_modifyDisplay, titleOf]
  split
  · cases w.display? d with
    | none => rfl
    | some display => simp [h]
  · rfl

theorem titleOf_addSession (w : World) (session : Session) (d : DisplayId) :
    (w.addSession session).1.titleOf d = w.titleOf d :=
  titleOf_modifyDisplay (w.enrol session) d session.display
    (f := attachTo ⟨w.sessions.length⟩) fun _ => rfl

/-- A new manager has nothing on record. -/
theorem tends_addManager (manager : Manager) (hdisplays : w'.displays = w.displays)
    (hmanagers : w'.managers = w.managers ++ [manager])
    (hempty : manager.displays = Table.empty) : Tends id w w' := by
  refine ⟨fun d title hd => by rw [titleOf, display?, hdisplays]; exact hd,
    fun htitled found title d hfound hd => ?_, fun title s hrecord _ => ?_⟩
  · rw [titleOf, display?, hdisplays]
    rw [manager?, hmanagers] at hfound
    rcases Nat.lt_or_ge id.index w.managers.length with hlt | hge
    · rw [List.getElem?_append_left hlt] at hfound
      exact htitled found title d hfound hd
    · rw [List.getElem?_append_right hge, List.getElem?_singleton] at hfound
      split at hfound
      · rw [← Option.some.inj hfound, hempty] at hd
        exact absurd hd (by simp)
      · exact absurd hfound (by simp)
  · obtain ⟨found, hfound, hsession⟩ := Option.bind_eq_some_iff.mp hrecord
    refine Option.bind_eq_some_iff.mpr ⟨found, ?_, hsession⟩
    rw [manager?, hmanagers, List.getElem?_append_left (List.getElem?_eq_some_iff.mp hfound).1]
    exact hfound

theorem tends_modifyManager_of_ne (w : World) (h : other ≠ id) (f : Manager → Manager) :
    Tends id w (w.modifyManager other f) :=
  tends_of_displays rfl (by rw [manager?_modifyManager, if_neg h])

/-- A manager puts its records in order. -/
theorem tends_setManager {manager : Manager} (manager' : Manager)
    (hother : w.manager? other = some manager)
    (hdisplays : ∀ title d, manager'.displays.get? title = some d →
      manager.displays.get? title = some d ∨ w.titleOf d = some title)
    (hsessions : ∀ title s, manager.sessions.get? title = some s → w.running s = true →
      manager'.sessions.get? title = some s) (id : ManagerId) :
    Tends id w (w.modifyManager other fun _ => manager') := by
  by_cases hid : other = id
  swap
  · exact tends_modifyManager_of_ne w hid _
  rw [hid] at hother ⊢
  have hafter : (w.modifyManager id fun _ => manager').manager? id = some manager' := by
    rw [manager?_modifyManager, if_pos rfl, hother]
    rfl
  refine ⟨fun d title hd => hd, fun htitled found title d hfound hd => ?_,
    fun title s hrecord hrunning => ?_⟩
  · obtain rfl : manager' = found := Option.some.inj (hafter.symm.trans hfound)
    rcases hdisplays title d hd with hold | hnew
    · exact htitled manager title d hother hold
    · exact hnew
  · rw [record_of_manager? hafter]
    exact hsessions title s (record_of_manager? hother title ▸ hrecord) hrunning

end World

/-! ## Caching conversations -/

namespace Manager

variable {manager : Manager} {config : Config}

/-- Adding a conversation loads its graph, and only caches it. -/
theorem add_eq_ok {conversation : String} {data : Json.Value} {logged : Logged Manager}
    (h : manager.add config conversation data = .ok logged) :
    ∃ loaded, Graph.load config.caseSensitiveTitles data = .ok loaded ∧
      logged.value = { manager with
        conversations := manager.conversations.insert conversation loaded.value } := by
  unfold add at h
  cases hload : Graph.load config.caseSensitiveTitles data with
  | error failure =>
      rw [hload] at h
      exact absurd h (by simp [Except.map])
  | ok loaded =>
      rw [hload] at h
      exact ⟨loaded, rfl, congrArg Logged.value (Except.ok.inj h).symm⟩

/-! Loading files keeps of a manager what adding a conversation keeps. -/

section Loading

variable {P : Manager → Prop}
  (hadd : ∀ manager conversation data logged, P manager →
    manager.add config conversation data = .ok logged → P logged.value)
include hadd

theorem loadFile_keeps (h : P manager) (path : String) (file : String × FileContent) :
    P (loadFile config path manager file).value.1 := by
  unfold loadFile
  split
  · rename_i loaded hloaded
    cases hread : file.2.readJson with
    | error failure =>
        rw [hread] at hloaded
        exact absurd hloaded (by simp [Except.bind])
    | ok data =>
        rw [hread] at hloaded
        exact hadd manager _ data loaded h hloaded
  · exact h

theorem loadFiles_keeps (h : P manager) (path : String) (files : List (String × FileContent)) :
    P (loadFiles config path manager files).value.1 := by
  induction files generalizing manager with
  | nil => exact h
  | cons file rest ih => exact ih (loadFile_keeps hadd h path file)

theorem loadFolder_keeps (h : P manager) (folder : Folder) (place : List String) :
    P (manager.loadFolder config folder place).value.1 := by
  unfold loadFolder
  dsimp only
  split
  · exact h
  · exact loadFiles_keeps hadd h _ _

end Loading

/-- A manager that differs at most in the conversations that it has cached. -/
structure SameRecords (manager manager' : Manager) : Prop where
  displays : manager'.displays = manager.displays
  sessions : manager'.sessions = manager.sessions

theorem SameRecords.add {start : Manager} {conversation : String} {data : Json.Value}
    {logged : Logged Manager} (h : SameRecords start manager)
    (hadd : manager.add config conversation data = .ok logged) :
    SameRecords start logged.value := by
  obtain ⟨loaded, -, hvalue⟩ := add_eq_ok hadd
  rw [hvalue]
  exact ⟨h.displays, h.sessions⟩

theorem sameRecords_add {conversation : String} {data : Json.Value} {logged : Logged Manager}
    (h : manager.add config conversation data = .ok logged) : SameRecords manager logged.value :=
  SameRecords.add ⟨rfl, rfl⟩ h

theorem sameRecords_loadFolder (manager : Manager) (config : Config) (folder : Folder)
    (place : List String) :
    SameRecords manager (manager.loadFolder config folder place).value.1 :=
  loadFolder_keeps (fun _ _ _ _ h hadd => h.add hadd) ⟨rfl, rfl⟩ folder place

end Manager

end Parley
