import Parley.Proofs.Display.Faces
import Parley.Proofs.Session.Passage

/-!
# What a step does to a display

A display is opened, shut, written on, attached to a session or let go of by a handful of tasks.
`handles_step` says so once for every step, with the task that does it and the face that the
display has after it (`Handling`), so that what follows need not look at tasks again.

Making a session attaches it: a session that was not there before takes the next number, and the
display that it is on refers to it from then on (`Handles.fresh`).
-/

namespace Parley

/-- A session that was made on a display. -/
def World.MadeOn (w : World) (d : DisplayId) (s : SessionId) : Prop :=
  ∃ session, w.session? s = some session ∧ session.display = d

/-- Sessions on two displays are two sessions. -/
theorem World.MadeOn.session_ne {w : World} {d e : DisplayId} {s t : SessionId}
    (hs : w.MadeOn d s) (ht : w.MadeOn e t) (hne : d ≠ e) : s ≠ t := by
  rintro rfl
  obtain ⟨session, hs, hd⟩ := hs
  obtain ⟨other, ht, he⟩ := ht
  obtain rfl : session = other := Option.some.inj (hs.symm.trans ht)
  exact hne (hd.symm.trans he)

namespace Machine

open World

/-- A step of a host is about a display, by the name that the host knows it by. -/
def concerns (d : DisplayId) (m : Machine) (step : DisplayStep) : Prop :=
  ∃ name, m.agenda.head? = some (.perform (.display name step)) ∧
    m.world.displayNames.get? name = some d

/-- What the next step does to the face of a display. -/
inductive Handling (d : DisplayId) (m m' : Machine) (face : Display) : Display → Prop
  | aside : Handling d m m' face face
  /-- The host makes a session on the display. -/
  | joined {name display : String} {settings : Option Json.Value} {source : SessionSource}
      (hhead : m.agenda.head? = some (.perform (.newSession name display settings source)))
      (hmade : m'.world.MadeOn d ⟨m.world.sessions.length⟩) :
      Handling d m m' face { face with attached := some ⟨m.world.sessions.length⟩ }
  /-- A manager opens the display and makes a session on it. -/
  | launched {id : ManagerId} {graph : Ref Graph} {title : String} {node : Option String}
      {name : String} (hhead : m.agenda.head? = some (.launch id graph d title node name))
      (hmade : m'.world.MadeOn d ⟨m.world.sessions.length⟩) :
      Handling d m m' face
        { face with isOpen := true, attached := some ⟨m.world.sessions.length⟩ }
  /-- A session on the display takes note that it has closed. -/
  | left {s : SessionId} {onComplete : Option HandlerId}
      (hhead : m.agenda.head? = some (.callback (.session s onComplete)))
      (hs : m.world.MadeOn d s) :
      Handling d m m' face
        (if m.world.attachedTo (Task.heldBy m.world m.agenda) face = some s then
          { face with attached := none } else face)
  | attached {name : String} {s : SessionId} (h : concerns d m (.attach name))
      (hs : m.world.sessionNames.get? name = some s) :
      Handling d m m' face { face with attached := some s }
  | detached (h : concerns d m .detach) : Handling d m m' face { face with attached := none }
  | opened (h : concerns d m .openUp) : Handling d m m' face { face with isOpen := true }
  /-- The display has been asked to close and does so. -/
  | shut {callback : Option Callback} (hhead : m.agenda.head? = some (.settle d callback))
      (hnow : isDeferred face = false) : Handling d m m' face { face with isOpen := false }
  /-- The display has been asked to close and puts it off. -/
  | noted {callback : Option Callback} (hhead : m.agenda.head? = some (.settle d callback))
      (hlater : isDeferred face = true) :
      Handling d m m' face { face with pending := face.pending ++ [callback] }
  /-- A closing that was put off happens. -/
  | flushed {settled waiting : List (Option Callback)} {callback : Option Callback}
      (hhead : m.agenda.head? = some (.flush d settled (callback :: waiting))) :
      Handling d m m' face { face with isOpen := false }
  | emptied (h : concerns d m .flushClose) : Handling d m m' face { face with pending := [] }
  | shown {line : LineRef} (hhead : m.agenda.head? = some (.showLine d line))
      (hkind : face.kind = .console) : Handling d m m' face { face with onScreen := some line }
  | cleared (hhead : m.agenda.head? = some (.showOver d) ∨
      ∃ callback, m.agenda.head? = some (.close d callback)) (hkind : face.kind = .console) :
      Handling d m m' face { face with onScreen := none }

/-- What a step that ends in a machine does to a display, and to the sessions made on it. -/
structure Handles (d : DisplayId) (m m' : Machine) : Prop where
  handling : ∀ face, m.world.face? d = some face →
    ∃ face', m'.world.face? d = some face' ∧ Handling d m m' face face'
  newDisplay : m.world.face? d = none → ∀ face, m'.world.face? d = some face → face.Untouched
  fresh : ∀ s, m.world.session? s = none → m'.world.MadeOn d s →
    s.index = m.world.sessions.length ∧
      ∀ face, m'.world.face? d = some face → face.attached = some s

variable {d e : DisplayId} {m m' : Machine} {task : Task} {rest : List Task}

/-- A session stays where it was made. -/
theorem MadeOn.next (hpasses : ∀ s, Passes s m m') {s : SessionId}
    (hs : m.world.MadeOn d s) : m'.world.MadeOn d s := by
  obtain ⟨session, hs, hdisplay⟩ := hs
  obtain ⟨session', hs', hpassage⟩ := (hpasses s).passage session hs
  exact ⟨session', hs', hpassage.display_eq.trans hdisplay⟩

/-! ## Single changes -/

/-- No session is new as long as there are no more of them. -/
theorem not_fresh (hlength : m'.world.sessions.length = m.world.sessions.length) {s : SessionId}
    {session : Session} (hnone : m.world.session? s = none) :
    m'.world.session? s ≠ some session := by
  intro hs
  have hlt := (List.getElem?_eq_some_iff.mp hs).1
  have hge := List.getElem?_eq_none_iff.mp hnone
  omega

theorem Handles.of_sameFaces (h : SameFaces m.world m'.world) : Handles d m m' :=
  ⟨fun face hface => ⟨face, h.face? d face hface, .aside⟩,
    fun hnone face hface => h.newDisplay d face hnone hface,
    fun _ hnone ⟨_, hs, _⟩ => absurd hs (not_fresh h.sessions hnone)⟩

theorem Handles.of_world (h : m'.world = m.world) : Handles d m m' :=
  .of_sameFaces (h ▸ .refl _)

/-- One display is changed. -/
theorem Handles.of_modify {f : Display → Display} (hworld : m'.world = m.world.modifyDisplay e f)
    (h : e = d → ∀ display, m.world.display? d = some display →
      Handling d m m' display.face (f display).face) : Handles d m m' := by
  constructor
  · intro face hface
    rw [hworld, face?_modifyDisplay]
    by_cases hd : e = d
    · obtain ⟨display, hdisplay, rfl⟩ := Option.map_eq_some_iff.mp hface
      rw [if_pos hd, hdisplay]
      exact ⟨(f display).face, rfl, h hd display hdisplay⟩
    · rw [if_neg hd]
      exact ⟨face, hface, .aside⟩
  · intro hnone face hface
    rw [hworld, face?_modifyDisplay] at hface
    rw [Option.map_eq_none_iff.mp hnone, hnone] at hface
    split at hface <;> exact absurd hface (by simp)
  · rintro s hnone ⟨session, hs, -⟩
    exact absurd hs (not_fresh (by rw [hworld]; rfl) hnone)

/-- One display is changed that was looked up before. -/
theorem Handles.of_modify_of_some {f : Display → Display} {display : Display}
    (he : m.world.display? e = some display) (hworld : m'.world = m.world.modifyDisplay e f)
    (h : e = d → Handling d m m' display.face (f display).face) : Handles d m m' := by
  refine .of_modify hworld fun hd found hfound => ?_
  rw [← hd, he, Option.some.injEq] at hfound
  exact hfound ▸ h hd

theorem face?_addSession (w : World) (session : Session) (d : DisplayId) :
    (w.addSession session).1.face? d =
      if session.display = d then
        (w.face? d).map fun face => { face with attached := some ⟨w.sessions.length⟩ }
      else w.face? d := by
  rw [addSession, face?_modifyDisplay]
  split
  · rw [face?, Option.map_map]
    rfl
  · rfl

/-- A session is added; its display may have been changed just before. -/
theorem Handles.of_addSession {w : World} {session : Session}
    (hfaces : ∀ e, m'.world.face? e = (w.addSession session).1.face? e)
    (hsessions : m'.world.sessions = (w.addSession session).1.sessions)
    (hw : w.sessions = m.world.sessions)
    (hnone : m.world.face? d = none → w.face? d = none)
    (hother : session.display ≠ d → w.face? d = m.world.face? d)
    (hself : session.display = d → ∀ face, m.world.face? d = some face →
      ∃ before, w.face? d = some before ∧
        (m'.world.MadeOn d ⟨m.world.sessions.length⟩ →
          Handling d m m' face { before with attached := some ⟨m.world.sessions.length⟩ })) :
    Handles d m m' := by
  have hlook : ∀ s, m'.world.session? s =
      if s.index = m.world.sessions.length then some session else m.world.session? s := by
    intro s
    have hadded := session?_addSession w session s
    rw [hw, World.session?, World.session?, hw] at hadded
    rw [World.session?, hsessions]
    exact hadded
  constructor
  · intro face hface
    rw [hfaces d, face?_addSession]
    by_cases hd : session.display = d
    · obtain ⟨before, hbefore, hhandling⟩ := hself hd face hface
      rw [if_pos hd, hbefore, hw]
      exact ⟨_, rfl, hhandling ⟨session, by rw [hlook, if_pos rfl], hd⟩⟩
    · rw [if_neg hd, hother hd]
      exact ⟨face, hface, .aside⟩
  · intro hmissing face hface
    rw [hfaces d, face?_addSession, hnone hmissing] at hface
    split at hface <;> exact absurd hface (by simp)
  · rintro s hmissing ⟨found, hs, hd⟩
    rw [hlook] at hs
    split at hs
    · rename_i hindex
      obtain rfl : session = found := Option.some.inj hs
      refine ⟨hindex, fun face hface => ?_⟩
      rw [hfaces d, face?_addSession, if_pos hd, hw] at hface
      obtain ⟨before, -, rfl⟩ := Option.map_eq_some_iff.mp hface
      rw [← hindex]
    · exact absurd (hmissing.symm.trans hs) (by simp)

/-! ## The tasks of displays -/

theorem handles_showLine {line : LineRef} (hagenda : m.agenda = .showLine e line :: rest) :
    Handles d m m.step := by
  rw [step_eq hagenda]
  dsimp only [exec, showLine]
  split
  · exact .of_world rfl
  · rename_i display hdisplay
    split
    · exact .of_world rfl
    · rename_i hkind
      refine .of_modify_of_some hdisplay rfl fun he => ?_
      exact .shown (by rw [hagenda, he]; rfl) hkind

theorem handles_showOver (hagenda : m.agenda = .showOver e :: rest) : Handles d m m.step := by
  rw [step_eq hagenda]
  dsimp only [exec, showOver]
  split
  · exact .of_world rfl
  · rename_i display hdisplay
    split
    · exact .of_world rfl
    · rename_i hkind
      refine .of_modify_of_some hdisplay rfl fun he => ?_
      exact .cleared (.inl (by rw [hagenda, he]; rfl)) hkind

theorem handles_close {callback : Option Callback}
    (hagenda : m.agenda = .close e callback :: rest) : Handles d m m.step := by
  rw [step_eq hagenda]
  dsimp only [exec, close]
  split
  · exact .of_world rfl
  · rename_i display hdisplay
    split
    · exact .of_world rfl
    · rename_i hkind
      refine .of_modify_of_some hdisplay rfl fun he => ?_
      exact .cleared (.inr ⟨callback, by rw [hagenda, he]; rfl⟩) hkind

theorem handles_settle {callback : Option Callback}
    (hagenda : m.agenda = .settle e callback :: rest) : Handles d m m.step := by
  rw [step_eq hagenda]
  dsimp only [exec, settle]
  split
  · exact .of_world rfl
  · rename_i display hdisplay
    have hhead : e = d → m.agenda.head? = some (.settle d callback) := by
      rintro rfl
      rw [hagenda]
      rfl
    split
    · rename_i hlater
      exact .of_modify_of_some hdisplay rfl fun he => .noted (hhead he) hlater
    · rename_i hnow
      exact .of_modify_of_some hdisplay rfl fun he =>
        .shut (hhead he) (Bool.eq_false_iff.mpr hnow)

theorem handles_flush {settled waiting : List (Option Callback)}
    (hagenda : m.agenda = .flush e settled waiting :: rest) : Handles d m m.step := by
  rw [step_eq hagenda]
  cases waiting with
  | nil => exact .of_world rfl
  | cons callback waiting =>
      refine .of_modify rfl fun he display _ => ?_
      exact .flushed (by rw [hagenda, he]; rfl)

/-- A session that takes note of its closing lets go of its display, if that refers to it. -/
theorem world_callback {s : SessionId} {onComplete : Option HandlerId} {session : Session}
    (hagenda : m.agenda = .callback (.session s onComplete) :: rest)
    (hs : m.world.session? s = some session) :
    m.step.world = m.world.modifyDisplay session.display fun display =>
      if m.world.attachedTo (Task.heldBy m.world m.agenda) display = some s then
        { display with attached := none } else display := by
  rw [step_eq hagenda, hagenda]
  simp only [exec, callback, sessionClosed, hs]
  rfl

/-- The closing of a session is reported first; then comes whoever is to be called after it. -/
theorem agenda_callback {s : SessionId} {onComplete : Option HandlerId} {session : Session}
    (hagenda : m.agenda = .callback (.session s onComplete) :: rest)
    (hs : m.world.session? s = some session) :
    m.step.agenda = .publish (.session s) { type := .dialogue .contextClosed } ::
      (onComplete.toList.map (fun h => .call h "") ++ [.hold s]) ++ rest := by
  rw [step_eq hagenda]
  simp only [exec, callback, sessionClosed, hs]
  rfl

theorem step_callback_of_missing {s : SessionId} {onComplete : Option HandlerId}
    (hagenda : m.agenda = .callback (.session s onComplete) :: rest)
    (hs : m.world.session? s = none) : m.step = fail { m with agenda := rest } .unknownName := by
  rw [step_eq hagenda]
  simp only [exec, callback, sessionClosed, hs]

theorem face?_callback {s : SessionId} {onComplete : Option HandlerId}
    (hagenda : m.agenda = .callback (.session s onComplete) :: rest) (hs : m.world.MadeOn d s) :
    m.step.world.face? d = (m.world.face? d).map fun face =>
      if m.world.attachedTo (Task.heldBy m.world m.agenda) face = some s then
        { face with attached := none } else face := by
  obtain ⟨session, hs, rfl⟩ := hs
  rw [world_callback hagenda hs, face?_modifyDisplay, if_pos rfl, face?, Option.map_map]
  congr 1
  funext display
  exact apply_ite Display.face _ _ _

theorem handles_callback {callback : Callback} (hagenda : m.agenda = .callback callback :: rest) :
    Handles d m m.step := by
  have hhead : m.agenda.head? = some (.callback callback) := by rw [hagenda]; rfl
  cases callback with
  | handler h =>
      rw [step_eq hagenda]
      exact .of_world rfl
  | session s onComplete =>
      cases hs : m.world.session? s with
      | none =>
          rw [step_callback_of_missing hagenda hs]
          exact .of_world (world_fail ..)
      | some session =>
          refine .of_modify (world_callback hagenda hs) fun he display _ => ?_
          rw [apply_ite Display.face]
          exact .left hhead ⟨session, hs, he⟩

theorem handles_launch {id : ManagerId} {graph : Ref Graph} {title : String} {node : Option String}
    {name : String} (hagenda : m.agenda = .launch id graph e title node name :: rest) :
    Handles d m m.step := by
  rw [step_eq hagenda]
  dsimp only [exec]
  rw [launch_eq]
  dsimp only
  split
  · exact .of_world (world_fail ..)
  · rename_i settings hsettings
    refine .of_addSession (w := m.world.modifyDisplay e fun display =>
      { display with isOpen := true }) (fun _ => rfl)
      (World.sessions_modifyManager ..) rfl ?_ ?_ ?_
    · intro hnone
      rw [face?_modifyDisplay, Option.map_eq_none_iff.mp hnone, hnone]
      split <;> rfl
    · intro hne
      rw [face?_modifyDisplay, if_neg hne]
    · intro he face hface
      obtain rfl : e = d := he
      obtain ⟨display, hdisplay, rfl⟩ := Option.map_eq_some_iff.mp hface
      rw [face?_modifyDisplay, if_pos rfl, hdisplay]
      exact ⟨_, rfl, .launched (by rw [hagenda]; rfl)⟩

theorem handles_newSession {m' : Machine} (hworld : m'.world = m.world)
    {name display : String} {settings : Option Json.Value} {source : SessionSource}
    (hhead : m.agenda.head? = some (.perform (.newSession name display settings source)))
    (config : Config) : Handles d m (m'.newSession name e config source) := by
  have hmake : ∀ (m'' : Machine) (graph : Option Graph)
      (data : List (Json.Value × Option String)), m''.world = m.world →
      Handles d m (newSession.make name e config m'' graph data) := by
    intro m'' graph data hw
    refine .of_addSession (w := (m''.world.addConfig config).1) (fun _ => rfl) rfl (by rw [hw]; rfl)
      ?_ ?_ ?_
    · intro hnone
      rw [hw]
      exact hnone
    · intro _
      rw [hw]
      rfl
    · intro _ face hface
      rw [← hw] at hface
      exact ⟨face, hface, .joined hhead⟩
  unfold newSession
  split
  · exact hmake m' none [] hworld
  · split
    · exact .of_world (by rw [world_fail, hworld])
    · exact hmake _ _ [] hworld
  · exact hmake m' none _ hworld

theorem handles_performDisplay {m' : Machine} {now : List Task} {name : String} {display : Display}
    {step : DisplayStep} (hworld : m'.world = m.world)
    (hhead : m.agenda.head? = some (.perform (.display name step)))
    (hname : m.world.displayNames.get? name = some e) :
    Handles d m (m'.performDisplay now e display step) := by
  have hconcerns : e = d → concerns d m step := by
    rintro rfl
    exact ⟨name, hhead, hname⟩
  cases step with
  | openUp => exact .of_modify (by rw [← hworld]; rfl) fun he _ _ => .opened (hconcerns he)
  | flushClose => exact .of_modify (by rw [← hworld]; rfl) fun he _ _ => .emptied (hconcerns he)
  | attach session =>
      dsimp only [performDisplay]
      rcases m'.withSession_cases session _ with ⟨s, found, hs, -, heq⟩ | heq <;> rw [heq]
      · exact .of_modify (by rw [← hworld]; rfl) fun he _ _ =>
          .attached (hconcerns he) (hworld ▸ hs)
      · exact .of_world (by rw [world_fail, hworld])
  | detach => exact .of_modify (by rw [← hworld]; rfl) fun he _ _ => .detached (hconcerns he)
  | _ =>
      refine .of_sameFaces (hworld ▸ sameFaces_performDisplay now name e display ?_)
      rfl

theorem handles_perform {step : Step} (hagenda : m.agenda = .perform step :: rest)
    (hfaces : step.faces = true) : Handles d m m.step := by
  rw [step_eq hagenda]
  generalize hbelow : { m with agenda := rest } = m'
  have hworld : m'.world = m.world := by rw [← hbelow]
  have hhead : m.agenda.head? = some (.perform step) := by rw [hagenda]; rfl
  dsimp only [exec]
  cases step with
  | newSession name display settings source =>
      dsimp only [perform]
      rcases m'.withDisplay_cases display _ with ⟨d, found, -, -, heq⟩ | heq <;> rw [heq]
      · rcases m'.withSettings_cases settings _ with ⟨config, heq⟩ | ⟨failure, heq⟩ <;> rw [heq]
        · exact handles_newSession hworld hhead config
        · exact .of_world (by rw [world_fail, hworld])
      · exact .of_world (by rw [world_fail, hworld])
  | display name step =>
      dsimp only [perform]
      rcases m'.withDisplay_cases name _ with ⟨d, found, hname, -, heq⟩ | heq <;> rw [heq]
      · exact handles_performDisplay hworld hhead (hworld ▸ hname)
      · exact .of_world (by rw [world_fail, hworld])
  | _ => exact absurd hfaces (by simp [Step.faces])

/-! ## Every step -/

theorem handles_step (d : DisplayId) (m : Machine) : Handles d m m.step := by
  cases hagenda : m.agenda with
  | nil =>
      rw [step_of_agenda_eq_nil hagenda]
      exact .of_world rfl
  | cons task rest =>
      cases hfaces : task.faces with
      | false =>
          rw [step_eq hagenda]
          exact .of_sameFaces (sameFaces_exec (m := { m with agenda := rest }) _ hfaces)
      | true =>
          cases task with
          | showLine e line => exact handles_showLine hagenda
          | showOver e => exact handles_showOver hagenda
          | close e callback => exact handles_close hagenda
          | settle e callback => exact handles_settle hagenda
          | flush e settled waiting => exact handles_flush hagenda
          | callback c => exact handles_callback hagenda
          | launch id graph e title node name => exact handles_launch hagenda
          | perform step => exact handles_perform hagenda hfaces
          | _ => exact absurd hfaces (by simp [Task.faces])

/-- Between two steps of the host nothing happens to a display. -/
theorem handles_next (d : DisplayId) {m m' : Machine} (hnext : Next m m') : Handles d m m' := by
  cases hnext with
  | step => exact handles_step d m
  | host hagenda step => exact .of_world rfl

end Machine

end Parley
