import Parley.Proofs.Machine.Move
import Parley.Proofs.Machine.Names
import Parley.Proofs.Machine.Step

/-!
# The faces of displays

The face of a display is all of it but its bus: whether it is open, which session is attached,
what is on the screen and which closings are noted.  Most work leaves all faces as they are and
makes no session (`SameFaces`); the tasks that do not are few (`Task.faces`).  This module deals
with the others, the next one with those few.
-/

namespace Parley

/-- A display without its bus. -/
def Display.face (display : Display) : Display :=
  { display with bus := {} }

/-- Nothing has been done with a display: no session is attached, nothing is on the screen, and no
closing is noted. -/
structure Display.Untouched (display : Display) : Prop where
  attached : display.attached = none
  onScreen : display.onScreen = none
  pending : display.pending = []

namespace World

def face? (w : World) (d : DisplayId) : Option Display :=
  (w.display? d).map Display.face

/-- Displays keep their faces, and no session is made.  A display that is new is untouched. -/
structure SameFaces (w w' : World) : Prop where
  face? : ∀ d face, w.face? d = some face → w'.face? d = some face
  newDisplay : ∀ d face, w.face? d = none → w'.face? d = some face → face.Untouched
  sessions : w'.sessions.length = w.sessions.length

variable {w w' w₁ w₂ w₃ : World}

/-- All displays keep their faces. -/
theorem sameFaces_of_face? (h : ∀ d, w'.face? d = w.face? d)
    (hsessions : w'.sessions.length = w.sessions.length) : SameFaces w w' :=
  ⟨fun d face hface => (h d).trans hface,
    fun d face hnone hface => absurd (hface.symm.trans ((h d).trans hnone)) (by simp), hsessions⟩

theorem SameFaces.refl (w : World) : SameFaces w w := sameFaces_of_face? (fun _ => rfl) rfl

theorem SameFaces.trans (h : SameFaces w₁ w₂) (h' : SameFaces w₂ w₃) : SameFaces w₁ w₃ := by
  refine ⟨fun d face hface => h'.face? d face (h.face? d face hface), fun d face hnone hface => ?_,
    h'.sessions.trans h.sessions⟩
  cases hbetween : w₂.face? d with
  | none => exact h'.newDisplay d face hbetween hface
  | some found =>
      obtain rfl : found = face :=
        Option.some.inj ((h'.face? d found hbetween).symm.trans hface)
      exact h.newDisplay d found hnone hbetween

theorem sameFaces_of_eq (hdisplays : w'.displays = w.displays)
    (hsessions : w'.sessions.length = w.sessions.length) : SameFaces w w' := by
  refine sameFaces_of_face? (fun d => ?_) hsessions
  rw [World.face?, World.face?, display?, display?, hdisplays]

theorem face?_modifyDisplay (w : World) (d e : DisplayId) (f : Display → Display) :
    (w.modifyDisplay d f).face? e =
      if d = e then (w.display? e).map fun display => (f display).face else w.face? e := by
  rw [face?, display?_modifyDisplay]
  split
  · rw [Option.map_map]
    rfl
  · rfl

/-- What happens on the bus of a display does not show. -/
theorem sameFaces_modifyDisplay {d : DisplayId} {f : Display → Display}
    (h : ∀ display, (f display).face = display.face) : SameFaces w (w.modifyDisplay d f) := by
  refine sameFaces_of_face? (fun e => ?_) rfl
  rw [face?_modifyDisplay]
  split
  · rw [funext h]
    rfl
  · rfl

theorem sameFaces_modifySession (w : World) (s : SessionId) (f : Session → Session) :
    SameFaces w (w.modifySession s f) :=
  sameFaces_of_eq rfl (by rw [sessions_modifySession, List.length_modify])

theorem sameFaces_modifyManager (w : World) (m : ManagerId) (f : Manager → Manager) :
    SameFaces w (w.modifyManager m f) :=
  sameFaces_of_eq rfl (by rw [sessions_modifyManager])

theorem sameFaces_modifyBus (w : World) (b : BusId) (f : Bus → Bus) :
    SameFaces w (w.modifyBus b f) := by
  cases b with
  | display d => exact sameFaces_modifyDisplay fun _ => rfl
  | session s => exact sameFaces_modifySession ..
  | free name => exact sameFaces_of_eq rfl rfl

theorem sameFaces_addDisplay (w : World) {display : Display} (hnew : display.face.Untouched) :
    SameFaces w (w.addDisplay display).1 := by
  refine ⟨fun d face hface => ?_, fun d face hnone hface => ?_, rfl⟩
  · obtain ⟨found, hfound, rfl⟩ := Option.map_eq_some_iff.mp hface
    have hindex := (List.getElem?_eq_some_iff.mp hfound).1
    rw [face?, display?, addDisplay, List.getElem?_append_left hindex]
    exact hface
  · obtain ⟨found, hfound, rfl⟩ := Option.map_eq_some_iff.mp hface
    rw [face?, display?, Option.map_eq_none_iff, List.getElem?_eq_none_iff] at hnone
    rw [display?, addDisplay, List.getElem?_append_right hnone,
      List.getElem?_singleton] at hfound
    split at hfound
    · obtain rfl := Option.some.inj hfound
      exact hnew
    · exact absurd hfound (by simp)

end World

/-! ## The tasks that change faces -/

/-- Whether a step of a host makes a session, or changes the face of a display. -/
def Step.faces : Step → Bool
  | .newSession .. => true
  | .display _ .openUp | .display _ .flushClose | .display _ (.attach _) | .display _ .detach =>
    true
  | _ => false

/-- Whether a task makes a session, or changes the face of a display. -/
def Task.faces : Task → Bool
  | .showLine .. | .showOver _ | .close .. | .settle .. | .flush .. | .callback _ | .launch .. =>
    true
  | .perform step => step.faces
  | _ => false

namespace Machine

open World

variable {m : Machine}

theorem SameFaces.fail {w : World} (h : SameFaces w m.world) (failure : Failure) :
    SameFaces w (m.fail failure).world := by
  rw [world_fail]
  exact h

/-! ## What names lead to -/

theorem sameFaces_withSession (name : String) {f : SessionId → Session → Machine}
    (h : ∀ s session, SameFaces m.world (f s session).world) :
    SameFaces m.world (m.withSession name f).world := by
  rcases m.withSession_cases name f with ⟨s, session, -, -, heq⟩ | heq <;> rw [heq]
  · exact h s session
  · exact SameFaces.fail (.refl _) _

theorem sameFaces_withDisplay (name : String) {f : DisplayId → Display → Machine}
    (h : ∀ d display, SameFaces m.world (f d display).world) :
    SameFaces m.world (m.withDisplay name f).world := by
  rcases m.withDisplay_cases name f with ⟨d, display, -, -, heq⟩ | heq <;> rw [heq]
  · exact h d display
  · exact SameFaces.fail (.refl _) _

theorem sameFaces_withHandler (name : String) {f : HandlerId → Machine}
    (h : ∀ handler, SameFaces m.world (f handler).world) :
    SameFaces m.world (m.withHandler name f).world := by
  rcases m.withHandler_cases name f with ⟨handler, -, heq⟩ | heq <;> rw [heq]
  · exact h handler
  · exact SameFaces.fail (.refl _) _

theorem sameFaces_withHandler? (name : Option String) {f : Option HandlerId → Machine}
    (h : ∀ handler, SameFaces m.world (f handler).world) :
    SameFaces m.world (m.withHandler? name f).world := by
  rcases m.withHandler?_cases name f with ⟨handler, heq⟩ | heq <;> rw [heq]
  · exact h handler
  · exact SameFaces.fail (.refl _) _

theorem sameFaces_withLine (s : SessionId) (session : Session) (place : LinePlace)
    {f : LineRef → Machine} (h : ∀ line, SameFaces m.world (f line).world) :
    SameFaces m.world (m.withLine s session place f).world := by
  rcases m.withLine_cases s session place f with ⟨line, heq⟩ | ⟨failure, heq⟩ <;> rw [heq]
  · exact h line
  · exact SameFaces.fail (.refl _) _

/-! ## Tasks of sessions and managers -/

theorem sameFaces_setSession (s : SessionId) (session : Session) :
    SameFaces m.world (m.setSession s session).world :=
  sameFaces_modifySession ..

theorem sameFaces_exec_of_moves {s : SessionId} {task : Task} (htask : task.Moves s)
    (now : List Task) : SameFaces m.world (m.exec now task).world := by
  rcases world_exec_of_moves htask now with heq | ⟨moved, heq⟩ <;> rw [heq]
  · exact .refl _
  · exact sameFaces_setSession s moved

theorem sameFaces_load (s : SessionId) (data : Json.Value) (start : Option String) :
    SameFaces m.world (m.load s data start).world := by
  unfold load
  split
  · exact SameFaces.fail (.refl _) _
  · split
    · exact SameFaces.fail (.refl _) _
    · exact sameFaces_modifySession ..

theorem sameFaces_finish (s : SessionId) (onComplete : Option HandlerId) :
    SameFaces m.world (m.finish s onComplete).world := by
  unfold finish
  split
  · exact SameFaces.fail (.refl _) _
  · split
    · exact .refl _
    · exact (sameFaces_modifyDisplay (fun _ => by rfl)).trans (sameFaces_modifySession _ s _)

theorem sameFaces_performManager (id : ManagerId) (manager : Manager) (step : ManagerStep) :
    SameFaces m.world (m.performManager id manager step).world := by
  rcases world_performManager m id manager step with heq | ⟨f, heq⟩ <;> rw [heq]
  · exact .refl _
  · exact sameFaces_modifyManager ..

/-! ## Tasks of buses and handlers -/

theorem sameFaces_workBus (b : BusId) (f : Bus → Bus) :
    SameFaces m.world (m.withWorld fun w => w.modifyBus b f).world :=
  sameFaces_modifyBus ..

theorem sameFaces_publish (b : BusId) (event : Event LineRef) :
    SameFaces m.world (m.publish b event).world := by
  unfold publish
  split
  · rw [world_give]
    exact sameFaces_workBus ..
  · rw [world_push]
    exact sameFaces_workBus ..

theorem sameFaces_dispatch (now : List Task) (b : BusId) :
    SameFaces m.world (m.dispatch now b).world := by
  unfold dispatch
  split
  · exact .refl _
  · dsimp only
    split <;> (rw [world_push]; exact sameFaces_workBus ..)

theorem sameFaces_drain (b : BusId) (event : Event LineRef) (holds : List Listener) :
    SameFaces m.world (m.drain b event holds).world := by
  unfold drain
  split
  · exact .refl _
  · rw [world_push]
    exact sameFaces_workBus ..

theorem sameFaces_deliver (b : BusId) (listener : Listener) :
    SameFaces m.world (m.deliver b listener).world := by
  unfold deliver
  split
  · exact .refl _
  · cases listener <;> exact .refl _

theorem sameFaces_runHandler (h : HandlerId) (source : Option BusId) (argument : Argument) :
    SameFaces m.world (m.runHandler h source argument).world := by
  unfold runHandler
  split
  · exact SameFaces.fail (.refl _) _
  · split
    · exact .refl _
    · exact sameFaces_of_eq rfl rfl

theorem sameFaces_callWith (h : HandlerId) (b : BusId) :
    SameFaces m.world (m.callWith h b).world := by
  unfold callWith
  split
  · exact .refl _
  · exact sameFaces_runHandler ..

theorem sameFaces_script (h : HandlerId) (source : Option BusId) (steps : List Step) :
    SameFaces m.world (m.script h source steps).world := by
  unfold script
  split
  · exact .refl _
  · cases source with
    | none => exact .refl _
    | some b =>
        rw [world_push]
        exact sameFaces_workBus ..
  · exact SameFaces.fail (.refl _) _
  · exact .refl _

theorem sameFaces_performBus (now : List Task) (b : BusId) (step : BusStep) :
    SameFaces m.world (m.performBus now b step).world := by
  have hwork : ∀ f,
      SameFaces m.world ((m.withWorld fun w => w.modifyBus b f).give .nothing).world :=
    fun f => by
      rw [world_give]
      exact sameFaces_workBus ..
  cases step with
  | subscribe type handler priority oneShot weak =>
      exact sameFaces_withHandler handler fun _ => hwork _
  | unsubscribe type handler => exact sameFaces_withHandler handler fun _ => hwork _
  | isSubscribed type handler => exact sameFaces_withHandler handler fun _ => .refl _
  | clear type => exact hwork _
  | _ => exact .refl _

/-! ## Steps of the host -/

theorem sameFaces_performNodeStep (s : SessionId) (session : Session) (key : String) (node : Node)
    (step : NodeStep) : SameFaces m.world (m.performNodeStep s session key node step).world := by
  unfold performNodeStep
  dsimp only
  split
  · rw [world_fail]
    exact .refl _
  · split <;> exact sameFaces_modifySession ..

theorem sameFaces_performSession (s : SessionId) (session : Session) (step : SessionStep) :
    SameFaces m.world (m.performSession s session step).world := by
  cases step with
  | registerAction tag handler =>
      exact sameFaces_withHandler handler fun _ => sameFaces_modifySession ..
  | removeAction tag handler =>
      exact sameFaces_withHandler handler fun _ => sameFaces_modifySession ..
  | registerReplacement key text => exact sameFaces_modifySession ..
  | removeReplacement key => exact sameFaces_modifySession ..
  | tagValues key =>
      dsimp only [performSession]
      split <;> exact .refl _
  | config setting =>
      cases setting with
      | none => exact .refl _
      | some setting =>
          dsimp only [performSession]
          split
          · exact SameFaces.fail (.refl _) _
          · exact sameFaces_of_eq rfl rfl
  | finish onComplete => exact sameFaces_withHandler? onComplete fun _ => .refl _
  | fireActions place => exact sameFaces_withLine s session place fun _ => .refl _
  | node title step =>
      dsimp only [performSession]
      rcases m.withNode_cases session title _ with ⟨key, node, -, heq⟩ | heq <;> rw [heq]
      · exact sameFaces_performNodeStep ..
      · exact SameFaces.fail (.refl _) _
  | _ => exact .refl _

theorem sameFaces_performDisplay (now : List Task) (name : String) (d : DisplayId)
    (display : Display) {step : DisplayStep} (h : Step.faces (.display name step) = false) :
    SameFaces m.world (m.performDisplay now d display step).world := by
  cases step with
  | openUp => exact absurd h (by simp [Step.faces])
  | flushClose => exact absurd h (by simp [Step.faces])
  | attach session => exact absurd h (by simp [Step.faces])
  | detach => exact absurd h (by simp [Step.faces])
  | actions session place =>
      exact sameFaces_withSession session fun s session =>
        sameFaces_withLine s session place fun _ => .refl _
  | choose number =>
      dsimp only [performDisplay]
      split <;> exact .refl _
  | close handler => exact sameFaces_withHandler? handler fun _ => .refl _
  | _ => exact .refl _

theorem sameFaces_perform (now : List Task) {step : Step} (h : step.faces = false) :
    SameFaces m.world (m.perform now step).world := by
  cases step with
  | define name rounds => exact sameFaces_of_eq rfl rfl
  | dropHandler name => exact sameFaces_withHandler name fun _ => sameFaces_of_eq rfl rfl
  | newDisplay name title kind =>
      exact (sameFaces_addDisplay m.world ⟨rfl, rfl, rfl⟩).trans (sameFaces_of_eq rfl rfl)
  | newSession name display settings source => exact absurd h (by simp [Step.faces])
  | dropSession name => exact sameFaces_withSession name fun _ _ => sameFaces_of_eq rfl rfl
  | newManager settings =>
      dsimp only [perform]
      rcases m.withSettings_cases settings _ with ⟨config, heq⟩ | ⟨failure, heq⟩ <;> rw [heq]
      · exact sameFaces_of_eq rfl rfl
      · exact SameFaces.fail (.refl _) _
  | session name step => exact sameFaces_withSession name fun _ _ => sameFaces_performSession ..
  | display name step =>
      exact sameFaces_withDisplay name fun _ _ => sameFaces_performDisplay now name _ _ h
  | bus name step =>
      dsimp only [perform]
      rcases m.withBus_cases name _ with ⟨b, heq, -⟩ | heq <;> rw [heq]
      · exact sameFaces_performBus ..
      · exact SameFaces.fail (.refl _) _
  | manager step =>
      dsimp only [perform]
      split
      · exact SameFaces.fail (.refl _) _
      · exact sameFaces_performManager ..
  | consume => exact SameFaces.fail (.refl _) _
  | fail kind message => exact SameFaces.fail (.refl _) _
  | unknown name => exact SameFaces.fail (.refl _) _

/-! ## All tasks but a few -/

theorem sameFaces_exec (now : List Task) {task : Task} (h : task.faces = false) :
    SameFaces m.world (m.exec now task).world := by
  cases task with
  | start s title => exact sameFaces_exec_of_moves (.start title) now
  | proceed s => exact sameFaces_exec_of_moves .proceed now
  | follow s key destination => exact sameFaces_exec_of_moves (.follow key destination) now
  | present s line =>
      dsimp only [exec, present]
      split
      · exact SameFaces.fail (.refl _) _
      · exact .refl _
  | fireShown s line =>
      dsimp only [exec, fireShown]
      split
      · exact SameFaces.fail (.refl _) _
      · split <;> exact .refl _
  | load s data start => exact sameFaces_load ..
  | finish s onComplete => exact sameFaces_finish ..
  | handleAction s tag param =>
      dsimp only [exec, handleAction]
      split
      · exact SameFaces.fail (.refl _) _
      · exact .refl _
  | actions sink course =>
      dsimp only [exec, actions]
      split <;> exact .refl _
  | multicast called waiting param => cases waiting <;> exact .refl _
  | leave s => exact .refl _
  | showNode d title =>
      dsimp only [exec, showNode]
      split
      · exact .refl _
      · split <;> exact .refl _
  | hook name text =>
      dsimp only [exec, hook]
      split
      · exact .refl _
      · split
        · exact SameFaces.fail (.refl _) _
        · exact .refl _
  | publish b event => exact sameFaces_publish ..
  | dispatch b => exact sameFaces_dispatch ..
  | drain b event holds => exact sameFaces_drain ..
  | deliver b listener => exact sameFaces_deliver ..
  | call h param => exact sameFaces_runHandler ..
  | callWith h b => exact sameFaces_callWith ..
  | script h source steps => exact sameFaces_script ..
  | returned h step =>
      dsimp only [exec, returned]
      split <;> exact .refl _
  | forget id => exact sameFaces_modifyManager ..
  | perform step => exact sameFaces_perform now h
  | adopt s name answer =>
      exact (sameFaces_modifySession m.world s _).trans (sameFaces_of_eq rfl rfl)
  | answer a => exact .refl _
  | hold s => exact .refl _
  | _ => exact absurd h (by simp [Task.faces])

end Machine

end Parley
