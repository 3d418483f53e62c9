import Parley.Proofs.Bus.Queue
import Parley.Proofs.Display.Callers
import Parley.Proofs.Isolation.Side

/-!
# Where things refer to

A session is made on a display and stays there.  It hears of the input of this display and of no
other, its lines are shown there, and there it is closed.  What happens to it is observed on its
own bus.  So as long as the host attaches no session to another display, whatever a display or a
session refers to is on the same display, but for the handlers of the host (`Execution.atHome`).

Two displays with the sessions on them are therefore parted as soon as their handlers are
(`Execution.parted`).
-/

namespace Parley

/-! ## Whatever is at home -/

/-- A listener is at home on a bus: a session listens to the display that it was made on, and what
happens to a session is observed on its own bus. -/
def Listener.AtHome (w : World) (b : BusId) : Listener → Prop
  | .handler _ => True
  | .observer s => b = .session s
  | .input s _ => ∃ d, b = .display d ∧ w.MadeOn d s

/-- A session that is to be told of a closing was made on the display that closes. -/
def ClosesAt (w : World) (d : DisplayId) (callback : Option Callback) : Prop :=
  ∀ s onComplete, callback = some (.session s onComplete) → w.MadeOn d s

/-- The sessions that a display refers to were made on it. -/
structure Display.AtHome (w : World) (d : DisplayId) (display : Display) : Prop where
  attached : ∀ s, display.attached = some s → w.MadeOn d s
  onScreen : ∀ line, display.onScreen = some line → w.MadeOn d line.session
  pending : ∀ callback ∈ display.pending, ClosesAt w d callback

structure World.AtHome (w : World) : Prop where
  listeners : ∀ b type, ∀ sub ∈ (w.bus b).subscriptions type, sub.listener.AtHome w b
  displays : ∀ d face, w.face? d = some face → face.AtHome w d

/-- The sessions that a task tells of the closing of a display were made on it. -/
def Task.AtHome (w : World) : Task → Prop
  | .close d c | .settle d c => ClosesAt w d c
  | .flush d _ waiting => ∀ c ∈ waiting, ClosesAt w d c
  | _ => True

/-- Whether a task attaches a session to a display at the request of the host. -/
def Task.attaches : Task → Bool
  | .perform (.display _ (.attach _)) => true
  | _ => false

/-- A world in which the host has made nothing but handlers. -/
structure World.Bare (w : World) : Prop where
  displays : w.displays = []
  managers : w.managers = []
  buses : w.buses = Table.empty

section Mono

variable {w w' : World} {d : DisplayId}

theorem Listener.AtHome.mono {b : BusId} {listener : Listener} (h : listener.AtHome w b)
    (hmade : ∀ d s, w.MadeOn d s → w'.MadeOn d s) : listener.AtHome w' b := by
  cases listener with
  | handler i => trivial
  | observer s => exact h
  | input s kind =>
      obtain ⟨d, hb, hs⟩ := h
      exact ⟨d, hb, hmade d s hs⟩

theorem ClosesAt.mono {callback : Option Callback} (h : ClosesAt w d callback)
    (hmade : ∀ d s, w.MadeOn d s → w'.MadeOn d s) : ClosesAt w' d callback :=
  fun s onComplete heq => hmade d s (h s onComplete heq)

theorem Display.AtHome.mono {display : Display} (h : display.AtHome w d)
    (hmade : ∀ d s, w.MadeOn d s → w'.MadeOn d s) : display.AtHome w' d :=
  ⟨fun s hs => hmade d s (h.attached s hs), fun line hline => hmade d _ (h.onScreen line hline),
    fun callback hmem => (h.pending callback hmem).mono hmade⟩

theorem Task.AtHome.mono {task : Task} (h : task.AtHome w)
    (hmade : ∀ d s, w.MadeOn d s → w'.MadeOn d s) : task.AtHome w' := by
  cases task with
  | close e callback => exact ClosesAt.mono h hmade
  | settle e callback => exact ClosesAt.mono h hmade
  | flush e settled waiting => exact fun callback hmem => (h callback hmem).mono hmade
  | _ => trivial

theorem Display.Untouched.atHome {display : Display} (h : display.Untouched) :
    display.AtHome w d := by
  refine ⟨fun s hs => ?_, fun line hline => ?_, fun callback hmem => ?_⟩
  · exact absurd (h.attached.symm.trans hs) (by simp)
  · exact absurd (h.onScreen.symm.trans hline) (by simp)
  · exact absurd (h.pending ▸ hmem) List.not_mem_nil

end Mono

namespace Machine

variable {x : ℕ → Machine} {m m' : Machine} {task : Task} {rest : List Task} {d : DisplayId}
  {s : SessionId} {i : ℕ}

/-! ## One step -/

/-- The host attaches a session to no other display than the one that it was made on. -/
def AttachesOwn (m : Machine) : Prop :=
  ∀ name session, m.agenda.head? = some (.perform (.display name (.attach session))) →
    ∀ d s, m.world.displayNames.get? name = some d → m.world.sessionNames.get? session = some s →
      m.world.MadeOn d s

theorem madeOn_addSession (w : World) (session : Session) :
    (w.addSession session).1.MadeOn session.display ⟨w.sessions.length⟩ :=
  ⟨session, by rw [World.session?_addSession, if_pos rfl], rfl⟩

theorem madeOn_newSession (hworld : m'.world = m.world) (name : String) (config : Config)
    (source : SessionSource) : (m'.newSession name d config source).world = m.world ∨
      (m'.newSession name d config source).world.MadeOn d ⟨m.world.sessions.length⟩ := by
  have hmake : ∀ (m'' : Machine) (graph : Option Graph)
      (data : List (Json.Value × Option String)), m''.world = m.world →
      (newSession.make name d config m'' graph data).world.MadeOn d ⟨m.world.sessions.length⟩ := by
    intro m'' graph data hw
    rw [← hw]
    exact madeOn_addSession (m''.world.addConfig config).1 { display := d, config := _, graph }
  unfold newSession
  split
  · exact .inr (hmake m' none [] hworld)
  · split
    · exact .inl (by rw [world_fail, hworld])
    · exact .inr (hmake _ _ [] hworld)
  · exact .inr (hmake m' none _ hworld)

theorem attachesOwn_of_not (h : m.agenda.head?.any Task.attaches = false) : AttachesOwn m := by
  intro name session hhead
  rw [hhead] at h
  exact absurd h (by simp [Task.attaches])

/-- A session that is to be made on a display is there after the step, or nothing has happened. -/
theorem madeOn_of_makes (hagenda : m.agenda = task :: rest) (hmakes : task.Makes m.world d s) :
    m.step.world = m.world ∨ m.step.world.MadeOn d s := by
  rw [step_eq hagenda]
  generalize hbelow : { m with agenda := rest } = m'
  have hworld : m'.world = m.world := by rw [← hbelow]
  cases task with
  | launch id graph e title node name =>
      obtain ⟨rfl, rfl⟩ := hmakes
      dsimp only [exec]
      rw [launch_eq]
      split
      · exact .inl (by rw [world_fail, hworld])
      · rename_i settings hsettings
        rw [← hworld]
        obtain ⟨session, hs, hdisplay⟩ := madeOn_addSession
          (m'.world.modifyDisplay e fun display => { display with isOpen := true })
          { display := e, config := settings.config, graph := some (m'.world.graph graph).clone }
        exact .inr ⟨session, (World.session?_modifyManager ..).trans hs, hdisplay⟩
  | perform step =>
      cases step with
      | newSession name display settings source =>
          obtain ⟨hname, rfl⟩ := hmakes
          dsimp only [exec, perform]
          rcases m'.withDisplay_cases display _ with ⟨e, found, he, -, heq⟩ | heq <;> rw [heq]
          · obtain rfl : e = d := Option.some.inj ((hworld ▸ he).symm.trans hname)
            rcases m'.withSettings_cases settings _ with ⟨config, heq⟩ | ⟨failure, heq⟩ <;> rw [heq]
            · exact madeOn_newSession hworld name config source
            · exact .inl (by rw [world_fail, hworld])
          · exact .inl (by rw [world_fail, hworld])
      | _ => exact absurd hmakes id
  | _ => exact absurd hmakes id

/-- Whoever comes to listen to a bus is at home there. -/
theorem Sound.listeners_step (h : Sound m) (hhome : m.world.AtHome)
    (hmade : ∀ d s, m.world.MadeOn d s → m.step.world.MadeOn d s) (b : BusId) (type : EventType) :
    ∀ sub ∈ (m.step.world.bus b).subscriptions type, sub.listener.AtHome m.step.world b := by
  intro sub hsub
  cases hagenda : m.agenda with
  | nil =>
      rw [step_of_agenda_eq_nil hagenda] at hsub ⊢
      exact hhome.listeners b type sub hsub
  | cons task rest =>
      rcases h.admits_step hagenda b type sub hsub with hold | hseat
      · exact (hhome.listeners b type sub hold).mono hmade
      · cases hlistener : sub.listener with
        | handler i => trivial
        | observer s =>
            rw [hlistener] at hseat
            exact hseat
        | input s kind =>
            rw [hlistener] at hseat
            obtain ⟨d, hb, hmakes⟩ := hseat
            rcases madeOn_of_makes hagenda hmakes with hsame | hs
            · rw [hsame] at hsub ⊢
              exact hlistener ▸ hhome.listeners b type sub hsub
            · exact ⟨d, hb, hs⟩

/-- Whatever comes to be on the face of a display is at home there. -/
theorem Handling.atHome {face face' : Display} (h : Handling d m m' face face')
    (hface : face.AtHome m'.world d)
    (htask : ∀ task, m.agenda.head? = some task → task.AtHome m'.world)
    (hshown : ∀ line, m.agenda.head? = some (.showLine d line) → m'.world.MadeOn d line.session)
    (hattached : ∀ name s, concerns d m (.attach name) →
      m.world.sessionNames.get? name = some s → m'.world.MadeOn d s) :
    face'.AtHome m'.world d := by
  have hattach : ∀ {o}, (∀ s, o = some s → m'.world.MadeOn d s) →
      ({ face with attached := o } : Display).AtHome m'.world d :=
    fun ho => ⟨ho, hface.onScreen, hface.pending⟩
  cases h with
  | aside => exact hface
  | joined hhead hmade => exact hattach fun t ht => Option.some.inj ht ▸ hmade
  | launched hhead hmade =>
      exact ⟨fun t ht => Option.some.inj ht ▸ hmade, hface.onScreen, hface.pending⟩
  | left hhead hs =>
      split
      · exact hattach fun t ht => absurd ht (by simp)
      · exact hface
  | attached hconcerns hname =>
      exact hattach fun t ht => Option.some.inj ht ▸ hattached _ _ hconcerns hname
  | detached hconcerns => exact hattach fun t ht => absurd ht (by simp)
  | noted hhead hlater =>
      refine ⟨hface.attached, hface.onScreen, fun callback hmem => ?_⟩
      rcases List.mem_append.mp hmem with hold | hnew
      · exact hface.pending callback hold
      · exact List.mem_singleton.mp hnew ▸ htask _ hhead
  | emptied hconcerns =>
      exact ⟨hface.attached, hface.onScreen, fun _ hmem => absurd hmem List.not_mem_nil⟩
  | shown hhead hkind =>
      exact ⟨hface.attached, fun shown heq => Option.some.inj heq ▸ hshown _ hhead, hface.pending⟩
  | cleared hhead hkind =>
      exact ⟨hface.attached, fun _ heq => absurd heq (by simp), hface.pending⟩
  | opened hconcerns => exact ⟨hface.attached, hface.onScreen, hface.pending⟩
  | shut hhead hnow => exact ⟨hface.attached, hface.onScreen, hface.pending⟩
  | flushed hhead => exact ⟨hface.attached, hface.onScreen, hface.pending⟩

/-! ## Closings -/

/-- A display is asked to close for a session by the session itself. -/
theorem closesAt_of_finish {t : SessionId} {onComplete : Option HandlerId}
    {callback : Option Callback} (hagenda : m.agenda = .finish t onComplete :: rest)
    (hnew : .close d callback ∈ m.added) : ClosesAt m.world d callback := by
  rintro s told rfl
  cases ht : m.world.session? t with
  | none =>
      have hlost : m.step = fail { m with agenda := rest } .unknownName := by
        rw [step_eq hagenda]
        simp only [exec, finish, ht]
      rw [added_of_fail hagenda rfl hlost] at hnew
      exact absurd hnew List.not_mem_nil
  | some session =>
      cases hopen : session.finished with
      | true =>
          have hrest := (refuses_finish ht hopen hagenda).agenda
          rw [added_eq_nil hagenda (by rw [hrest, hagenda]; rfl)] at hnew
          exact absurd hnew List.not_mem_nil
      | false =>
          obtain ⟨-, hasks⟩ := step_of_finish hagenda ht hopen
          rw [← List.singleton_append] at hasks
          rw [added_eq hagenda hasks, List.mem_singleton] at hnew
          obtain ⟨rfl, heq⟩ := Task.close.inj hnew
          obtain ⟨rfl, -⟩ := Callback.session.inj (Option.some.inj heq)
          exact ⟨session, ht, rfl⟩

/-- The closings that a display lets happen are those that it has noted. -/
theorem waiting_of_flushClose {name : String} {settled waiting : List (Option Callback)}
    (hagenda : m.agenda = .perform (.display name .flushClose) :: rest)
    (hnew : .flush d settled waiting ∈ m.added) :
    ∃ face, m.world.face? d = some face ∧ waiting = face.pending := by
  rcases ({ m with agenda := rest } : Machine).withDisplay_cases name
      (fun d display => performDisplay _ (.perform (.display name .flushClose) :: rest) d display
        .flushClose) with ⟨e, display, -, hdisplay, heq⟩ | heq
  · have hstep : m.step.agenda = [.flush e [] display.pending, .answer .nothing] ++ rest := by
      rw [step_eq hagenda]
      exact congrArg Machine.agenda heq
    rw [added_eq hagenda hstep] at hnew
    simp only [List.mem_cons, List.not_mem_nil, or_false, reduceCtorEq] at hnew
    obtain ⟨rfl, -, rfl⟩ := Task.flush.inj hnew
    exact ⟨display.face, congrArg (Option.map Display.face) hdisplay, rfl⟩
  · rw [added_of_fail hagenda rfl ((step_eq hagenda).trans heq)] at hnew
    exact absurd hnew List.not_mem_nil

/-- A display that has let one closing happen goes on to the others. -/
theorem waiting_of_flush {before noted settled waiting : List (Option Callback)}
    (hagenda : m.agenda = .flush d before noted :: rest)
    (hnew : .flush d settled waiting ∈ m.added) : waiting ⊆ noted := by
  cases noted with
  | nil =>
      have hrest : m.step.agenda = rest := by rw [step_eq hagenda]; rfl
      rw [added_eq_nil hagenda (Nat.le_of_eq (congrArg List.length hrest))] at hnew
      exact absurd hnew List.not_mem_nil
  | cons callback later =>
      have hstep : m.step.agenda = (callback.toList.map Task.callback ++
          [.flush d (before ++ [callback]) later]) ++ rest := by
        rw [step_eq hagenda, List.append_assoc]
        rfl
      rw [added_eq hagenda hstep, List.mem_append, List.mem_singleton] at hnew
      rcases hnew with hcallback | hflush
      · obtain ⟨_, -, heq⟩ := List.mem_map.mp hcallback
        exact absurd heq (by simp)
      · obtain ⟨-, -, rfl⟩ := Task.flush.inj hflush
        exact List.subset_cons_self callback waiting

/-- Whatever comes onto the agenda is at home. -/
theorem Execution.task_atHome (h : Execution x) (hhome : (x i).world.AtHome)
    (htasks : ∀ task ∈ (x i).agenda, task.AtHome (x i).world)
    (hmade : ∀ d s, (x i).world.MadeOn d s → (x (i + 1)).world.MadeOn d s) :
    ∀ task ∈ (x (i + 1)).agenda, task.AtHome (x (i + 1)).world := by
  intro call hmem
  have hold : call ∈ (x i).agenda.tail → call.AtHome (x (i + 1)).world := fun htail =>
    (htasks call (List.mem_of_mem_tail htail)).mono hmade
  cases call with
  | close d callback =>
      rcases h.mem_agenda_cases hmem (by simp) (by simp) with
        htail | ⟨-, task, rest, hagenda, hnew, ⟨t, onComplete, rfl⟩ | hnone⟩
      · exact hold htail
      · exact (closesAt_of_finish hagenda hnew).mono hmade
      · exact fun s onComplete heq => absurd heq (hnone s onComplete)
  | settle d callback =>
      rcases h.mem_agenda_cases hmem (by simp) (by simp) with
        htail | ⟨-, task, rest, hagenda, hnew, rfl⟩
      · exact hold htail
      · have hclose := htasks (.close d callback) (by rw [hagenda]; exact List.mem_cons_self)
        exact ClosesAt.mono hclose hmade
  | flush d settled waiting =>
      rcases h.mem_agenda_cases hmem (by simp) (by simp) with
        htail | ⟨-, task, rest, hagenda, hnew, ⟨before, noted, rfl⟩ | ⟨name, rfl⟩⟩
      · exact hold htail
      · have hnoted := htasks (.flush d before noted) (by rw [hagenda]; exact List.mem_cons_self)
        exact fun callback hcallback =>
          ClosesAt.mono (hnoted callback (waiting_of_flush hagenda hnew hcallback)) hmade
      · obtain ⟨face, hface, rfl⟩ := waiting_of_flushClose hagenda hnew
        exact fun callback hcallback =>
          ((hhome.displays d face hface).pending callback hcallback).mono hmade
  | _ => trivial

/-! ## All steps -/

/-- As long as the host attaches no session to another display, all listeners, all displays and
all closings that are under way are at home. -/
theorem Execution.atHome (h : Execution x) (hbare : (x 0).world.Bare)
    (hattaches : ∀ j < i, AttachesOwn (x j)) :
    (x i).world.AtHome ∧ ∀ task ∈ (x i).agenda, task.AtHome (x i).world := by
  induction i with
  | zero =>
      refine ⟨⟨fun b type sub hsub => ?_, fun d face hface => ?_⟩, fun task hmem => ?_⟩
      · rw [h.initial.bus b] at hsub
        exact absurd hsub List.not_mem_nil
      · rw [World.face?, World.display?, hbare.displays] at hface
        exact absurd hface (by simp)
      · exact absurd hmem (by simp [h.initial.agenda])
  | succ i ih =>
      obtain ⟨hhome, htasks⟩ := ih fun j hj => hattaches j (Nat.lt_succ_of_lt hj)
      have hsound := (h.reachable i).sound
      have hmade : ∀ d s, (x i).world.MadeOn d s → (x (i + 1)).world.MadeOn d s :=
        fun d s => MadeOn.next (hsound.passes_next (h.next i))
      refine ⟨⟨?_, fun d face' hface' => ?_⟩, h.task_atHome hhome htasks hmade⟩
      · generalize hm : x (i + 1) = m at hmade ⊢
        cases (hm ▸ h.next i : Next (x i) m) with
        | step => exact hsound.listeners_step hhome hmade
        | host hagenda step => exact hhome.listeners
      · have hhandles := handles_next d (h.next i)
        cases hface : (x i).world.face? d with
        | none => exact (hhandles.newDisplay hface face' hface').atHome
        | some face =>
            obtain ⟨found, hfound, hhandling⟩ := hhandles.handling face hface
            obtain rfl : found = face' := Option.some.inj (hfound.symm.trans hface')
            refine hhandling.atHome ((hhome.displays d face hface).mono hmade) ?_ ?_ ?_
            · exact fun task hhead => (htasks task (List.mem_of_head? hhead)).mono hmade
            · exact fun line hhead => hmade _ _ (h.shown_on hhead)
            · rintro session s ⟨name, hhead, hname⟩ hs
              exact hmade _ _ (hattaches i (Nat.lt_succ_self i) name session hhead d s hname hs)

/-- The name of a free bus is never entered twice. -/
theorem Execution.nodup_keys (h : Execution x) (hbare : (x 0).world.Bare) (i : ℕ) :
    (x i).world.buses.keys.Nodup := by
  induction i with
  | zero =>
      rw [hbare.buses]
      exact List.nodup_nil
  | succ i ih =>
      generalize hm : x (i + 1) = m
      cases (hm ▸ h.next i : Next (x i) m) with
      | step => exact (h.reachable i).sound.nodup_keys_step ih
      | host hagenda step => exact ih

end Machine

/-! ## Sides of displays -/

namespace World

variable {σ : Side} {w : World} {d e : DisplayId} {s : SessionId}

section Closed

variable (hhome : w.AtHome) (hwired : w.Wired σ)
  (hmade : ∀ d s, w.MadeOn d s → σ (.session s) = σ (.display d))

include hhome hwired hmade

/-- Whoever listens to something of a side is on the side, if the handlers are. -/
theorem AtHome.bus_on {b : BusId} (hb : σ b.thing = true)
    (hcallees : ∀ h ∈ (w.bus b).callees, h ∈ w.callees b.thing) (hqueue : (w.bus b).queue = [])
    (hidle : (w.bus b).dispatching = none) : (w.bus b).On σ := by
  refine ⟨fun type sub hsub => ?_, fun event hevent => ?_, fun d hd => ?_⟩
  · have hlistener := hhome.listeners b type sub hsub
    cases heq : sub.listener with
    | handler h => exact hwired b.thing hb h (hcallees h (Bus.mem_callees hsub heq))
    | observer s =>
        rw [heq] at hlistener
        obtain rfl : b = .session s := hlistener
        exact hb
    | input s kind =>
        rw [heq] at hlistener
        obtain ⟨d, rfl, hs⟩ := hlistener
        exact (hmade d s hs).trans hb
  · exact absurd (hqueue ▸ hevent) List.not_mem_nil
  · exact absurd (hidle.symm.trans hd) (by simp)

/-- A side on which every session is where its display is is closed, if the handlers are on it and
no bus is at work. -/
theorem AtHome.closed (hqueue : ∀ b, (w.bus b).queue = [])
    (hidle : ∀ b, (w.bus b).dispatching = none) (hkeys : w.buses.keys.Nodup) : w.Closed σ := by
  have hbus : ∀ b : BusId, σ b.thing = true →
      (∀ h ∈ (w.bus b).callees, h ∈ w.callees b.thing) → (w.bus b).On σ :=
    fun b hb hcallees => hhome.bus_on hwired hmade hb hcallees (hqueue b) (hidle b)
  constructor
  case session =>
    intro s session hσ hs
    have heq : w.bus (.session s) = session.bus := by rw [World.bus, hs, Option.elim_some]
    have hall : w.callees (.session s) = session.bus.callees ++ session.actions.values.flatten := by
      rw [callees, hs, Option.elim_some]
    refine ⟨(hmade _ s ⟨session, hs, rfl⟩).symm.trans hσ, heq ▸ hbus (.session s) hσ ?_, ?_⟩
    · exact fun h hmem => hall ▸ List.mem_append_left _ (heq ▸ hmem)
    · exact fun hs hhs h hmem => hwired (.session s) hσ h
        (hall ▸ List.mem_append_right _ (List.mem_flatten.mpr ⟨hs, hhs, hmem⟩))
  case display =>
    intro d display hσ hd
    have heq : w.bus (.display d) = display.bus := by rw [World.bus, hd, Option.elim_some]
    have hall : w.callees (.display d) = display.bus.callees ++
        display.pending.filterMap (·.bind Callback.callee?) := by
      rw [callees, hd, Option.elim_some]
    have hface := hhome.displays d display.face (congrArg (Option.map Display.face) hd)
    refine ⟨heq ▸ hbus (.display d) hσ ?_, fun s hs => ?_, fun line hline => ?_,
      fun callback hmem c hc => ?_⟩
    · exact fun h hmem => hall ▸ List.mem_append_left _ (heq ▸ hmem)
    · exact (hmade d s (hface.attached s hs)).trans hσ
    · exact (hmade d _ (hface.onScreen line hline)).trans hσ
    · have hcallee : ∀ h, c.callee? = some h → σ (.handler h) = true := fun h hh =>
        hwired (.display d) hσ h (hall ▸ List.mem_append_right _
          (List.mem_filterMap.mpr ⟨callback, hmem, by rw [hc]; exact hh⟩))
      cases c with
      | handler h => exact hcallee h rfl
      | session s onComplete =>
          exact ⟨(hmade d s (hface.pending callback hmem s onComplete hc)).trans hσ, hcallee⟩
  case free =>
    intro name bus hσ hmem
    have heq : w.bus (.free name) = bus := by
      rw [World.bus, Table.get?_of_mem_entries hkeys hmem]
      rfl
    exact heq ▸ hbus (.free name) hσ fun h hh => hh

end Closed

/-- The sides of two owners: one has a display with the sessions on it, the other has all other
displays and sessions.  Which handlers and which free buses are whose is for the host to say. -/
def sideOf (w : World) (d : DisplayId) (calls : Bool → HandlerId → Bool) (free : String → Bool)
    (owner : Bool) : Side
  | .session s => (w.session? s).any (fun session => session.display = d) == owner
  | .display e => decide (e = d) == owner
  | .handler h => calls owner h
  | .free name => free name == owner

variable {calls : Bool → HandlerId → Bool} {free : String → Bool}

theorem sideOf_session (hs : w.MadeOn e s) (owner : Bool) :
    w.sideOf d calls free owner (.session s) = w.sideOf d calls free owner (.display e) := by
  obtain ⟨session, hs, rfl⟩ := hs
  rw [sideOf, sideOf, hs, Option.any_some]

/-- Each of two displays is on the side of its owner. -/
theorem sideOf_display {d : Bool → DisplayId} (hne : d true ≠ d false) (owner : Bool) :
    w.sideOf (d true) calls free owner (.display (d owner)) = true := by
  cases owner with
  | true => simp [sideOf]
  | false => simp [sideOf, Ne.symm hne]

/-- What the host has made belongs to one of the owners, and to one only. -/
theorem sideOf_eq_not {thing : Thing} (hthing : ∀ h, thing ≠ .handler h) (owner : Bool) :
    w.sideOf d calls free owner thing = !w.sideOf d calls free (!owner) thing := by
  cases thing with
  | handler h => exact absurd rfl (hthing h)
  | _ => simp only [sideOf]; cases owner <;> simp

end World

/-- A host whose handlers keep to one of two owners each has parted their displays as soon as
nothing is left to be done. -/
theorem Machine.Execution.parted {x : ℕ → Machine} (h : Execution x) (hbare : (x 0).world.Bare)
    {i : ℕ} (hrest : (x i).agenda = []) (hattaches : ∀ j < i, AttachesOwn (x j)) {d : DisplayId}
    {calls : Bool → HandlerId → Bool} {free : String → Bool}
    (hwired : ∀ owner, (x i).world.Wired ((x i).world.sideOf d calls free owner))
    (hcover : ∀ h, calls true h = true ∨ calls false h = true)
    (hshared : ∀ h, calls true h = true → calls false h = true → (x i).world.Shares h)
    (owner : Bool) : (x i).world.Parted ((x i).world.sideOf d calls free owner)
      ((x i).world.sideOf d calls free !owner) := by
  have hsound := (h.reachable i).sound
  have hquiet := quiet_of_agenda_eq_nil hrest
  have hclosed : ∀ owner, (x i).world.Closed ((x i).world.sideOf d calls free owner) := fun owner =>
    (h.atHome hbare hattaches).1.closed (hwired owner)
      (fun e s hs => World.sideOf_session hs owner) (fun b => (hquiet b).queue_eq_nil hsound)
      (fun b => (hquiet b).dispatching_eq_none hsound) (h.nodup_keys hbare i)
  refine ⟨hclosed owner, hclosed !owner, fun thing => ?_, fun thing hl hr => ?_⟩
  · cases thing with
    | handler h => cases owner with
      | true => exact hcover h
      | false => exact (hcover h).symm
    | _ =>
        rw [World.sideOf_eq_not (by simp) owner]
        cases World.sideOf _ d calls free (!owner) _ <;> simp
  · cases thing with
    | handler h => cases owner with
      | true => exact ⟨h, rfl, hshared h hl hr⟩
      | false => exact ⟨h, rfl, hshared h hr hl⟩
    | _ =>
        rw [World.sideOf_eq_not (by simp) owner, hr] at hl
        exact absurd hl (by simp)

end Parley
