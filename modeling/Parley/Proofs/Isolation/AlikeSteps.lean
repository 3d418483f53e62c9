import Parley.Proofs.Isolation.AlikeTasks

/-!
# Steps done alike

A step of the host that works on things of one side alone is performed alike in two machines that
go on alike, and so is every task on the way, as long as the names it uses lead to things of the
side (`Task.Named`).  So a step of the machine keeps two machines alike (`Alike.step`).
-/

namespace Parley.Machine

variable {σ τ : Side} {w w' : World} {m m' : Machine} {now : List Task}

namespace Alike

/-! ## Steps on sessions -/

theorem performNodeStep (h : Alike σ τ w w' m m') {s : SessionId} (hs : σ (.session s) = true)
    {session : Session} (hsession : session.On σ) (key : String) (node : Node) (step : NodeStep) :
    Alike σ τ w w' (m.performNodeStep s session key node step)
      (m'.performNodeStep s session key node step) := by
  unfold Machine.performNodeStep
  dsimp only
  split
  · exact (h.logAll _).fail _
  · rename_i changed answer _
    have hset : (session.setNode key changed).On σ := hsession.of_eq rfl rfl rfl
    split
    · exact ((h.logAll _).setSession hs hset).give _
    · exact (((h.logAll _).cutOff _ _).setSession hs hset).give _

theorem handlerNames_eq (h : Alike σ τ w w' m m') {handlers : List HandlerId}
    (hhandlers : ∀ i ∈ handlers, σ (.handler i) = true) :
    handlerNames m'.world handlers = handlerNames m.world handlers :=
  List.map_congr_left fun i hi => by rw [h.same.handler i (hhandlers i hi)]

theorem performSession (h : Alike σ τ w w' m m') {s : SessionId} (hs : σ (.session s) = true)
    {session : Session} (hsession : session.On σ) {step : SessionStep}
    (hstep : step.On σ m.world) :
    Alike σ τ w w' (m.performSession s session step) (m'.performSession s session step) := by
  cases step with
  | load data start => exact h.push (by simp [Task.On, hs])
  | start title => exact h.push (by simp [Task.On, hs])
  | proceed => exact h.push (by simp [Task.On, hs])
  | follow key destination => exact h.push (by simp [Task.On, hs])
  | registerAction tag handler =>
      refine h.withHandler hstep fun i hi => ?_
      exact ((h.logAll _).setSession hs (hsession.registerAction tag hi)).give _
  | removeAction tag handler =>
      exact h.withHandler hstep fun i _ =>
        (h.setSession hs (hsession.removeAction tag i)).give _
  | actionHandlers tag =>
      dsimp only [Machine.performSession]
      rw [h.handlerNames_eq (hsession.handlersOf tag)]
      exact h.give _
  | handleAction tag param => exact h.push (by simp [Task.On, hs])
  | registerReplacement key text =>
      have hset : ({ session with
          replacements := session.replacements.insert key text } : Session).On σ :=
        hsession.of_eq rfl rfl rfl
      exact (h.setSession hs hset).give _
  | removeReplacement key =>
      have hset : ({ session with
          replacements := session.replacements.erase key } : Session).On σ :=
        hsession.of_eq rfl rfl rfl
      exact (h.setSession hs hset).give _
  | replacements => exact h.give _
  | tagValues key =>
      dsimp only [Machine.performSession]
      split
      · exact h.give _
      · exact (h.logAll _).give _
  | summary => exact h.give _
  | titles => exact h.give _
  | display =>
      dsimp only [Machine.performSession]
      rw [h.display? hsession.display]
      exact h.give _
  | config setting =>
      cases setting with
      | none =>
          dsimp only [Machine.performSession]
          rw [h.same.configOf]
          exact h.give _
      | some setting => exact False.elim hstep
  | finish onComplete =>
      dsimp only [Machine.performSession]
      refine h.withHandler? (fun given heq => by subst heq; exact hstep) fun i hi => ?_
      refine h.push (List.forall_mem_cons.mpr ⟨⟨hs, hi⟩, ?_⟩)
      simp [Task.On, hs]
  | fireActions place =>
      dsimp only [Machine.performSession]
      refine h.withLine hs session place fun line hline => ?_
      exact h.push (by simp [Task.On, Sink.thing, Course.On, hs, hline])
  | node title step =>
      exact h.withNode session title fun key node => h.performNodeStep hs hsession key node step

/-! ## Steps on displays -/

theorem performDisplay (h : Alike σ τ w w' m m') (hnow : ∀ task ∈ now, task.On σ)
    {d : DisplayId} (hd : σ (.display d) = true) {display : Display} (hdisplay : display.On σ)
    {step : DisplayStep} (hstep : step.On σ m.world) :
    Alike σ τ w w' (m.performDisplay now d display step)
      (m'.performDisplay now d display step) := by
  cases step with
  | openUp => exact (h.setOpen hd true).give _
  | proceed => exact h.push (by simp [Task.On, BusId.thing, hd])
  | select key destination =>
      exact h.push (by simp [performDisplay.select, Task.On, BusId.thing, hd])
  | action tag param =>
      exact h.push (by simp [tell, Task.On, BusId.thing, hd])
  | actions session place =>
      refine h.withSession hstep fun s session hs _ => ?_
      refine h.withLine hs session place fun line hline => ?_
      exact h.push (by simp [Task.On, Sink.thing, Course.On, hd, hline])
  | choose number =>
      have hoption : (display.onScreen.bind fun line => optionAt? (m'.world.line line) number) =
          display.onScreen.bind fun line => optionAt? (m.world.line line) number := by
        cases hscreen : display.onScreen with
        | none => rfl
        | some line =>
            rw [Option.bind_some, Option.bind_some,
              h.same.line (hdisplay.onScreen line hscreen)]
      dsimp only [Machine.performDisplay]
      rw [hoption]
      split
      · exact (h.report _ _).give _
      · exact h.push
          (by simp [performDisplay.select, Task.On, BusId.thing, hd])
  | currentLine =>
      have hline : display.onScreen.map m'.world.line = display.onScreen.map m.world.line := by
        cases hscreen : display.onScreen with
        | none => rfl
        | some line =>
            rw [Option.map_some, Option.map_some, h.same.line (hdisplay.onScreen line hscreen)]
      dsimp only [Machine.performDisplay]
      rw [hline]
      exact h.give _
  | replace text =>
      dsimp only [Machine.performDisplay]
      rw [h.replacementsOf hnow hdisplay]
      exact h.give _
  | replacements =>
      dsimp only [Machine.performDisplay]
      rw [h.replacementsOf hnow hdisplay]
      exact h.give _
  | close handler =>
      dsimp only [Machine.performDisplay]
      refine h.withHandler? (fun given heq => by subst heq; exact hstep) fun i hi => ?_
      have hclosing : ClosingOn σ (i.map .handler) := by
        intro c hc
        obtain ⟨j, rfl, rfl⟩ := Option.map_eq_some_iff.mp hc
        exact hi j rfl
      exact h.push (by simp [Task.On, hd, hclosing])
  | flushClose =>
      have hcleared := h.modifyDisplay hd
        (f := fun display => { display with pending := [] })
        (fun _ hon => ⟨hon.bus, hon.attached, hon.onScreen, by simp⟩) fun _ _ => rfl
      refine hcleared.push ?_
      simpa [Task.On, hd] using hdisplay.pending
  | attach session =>
      refine h.withSession hstep fun s session hs _ => ?_
      refine (h.modifyDisplay hd (fun _ hon => ?_) fun _ _ => rfl).give _
      exact ⟨hon.bus, fun t ht => Option.some.inj ht ▸ hs, hon.onScreen, hon.pending⟩
  | detach =>
      refine (h.modifyDisplay hd (fun _ hon => ?_) fun _ _ => rfl).give _
      exact ⟨hon.bus, by simp, hon.onScreen, hon.pending⟩
  | info => exact h.give _

/-! ## Steps on buses and looks at the manager -/

theorem performBus (h : Alike σ τ w w' m m') (hnow : ∀ task ∈ now, task.On σ) {b : BusId}
    (hb : σ b.thing = true) {step : BusStep} (hstep : step.On σ m.world) :
    Alike σ τ w w' (m.performBus now b step) (m'.performBus now b step) := by
  have hplain : ∀ type data consumed, (performBus.event type data consumed).On σ := by
    intro type data consumed entry hentry
    obtain ⟨given, -, rfl⟩ := List.mem_map.mp hentry
    trivial
  cases step with
  | subscribe type handler priority oneShot weak =>
      refine h.withHandler hstep fun i hi => ?_
      have hsub : (⟨priority, .handler i, weak, oneShot⟩ : Subscription).listener.On σ := hi
      exact (h.modifyBus hb fun _ hbus => hbus.subscribe hsub type).give _
  | unsubscribe type handler =>
      exact h.withHandler hstep fun i _ =>
        (h.modifyBus hb fun _ hbus => hbus.unsubscribe type (.handler i)).give _
  | isSubscribed type handler =>
      refine h.withHandler hstep fun i _ => ?_
      rw [h.same.bus hb]
      exact h.give _
  | count type =>
      have hcount : (m.world.bus b).count (m'.world.alive (Task.heldBy m'.world now)) type =
          (m.world.bus b).count (m.world.alive (Task.heldBy m.world now)) type :=
        Bus.count_congr fun sub hsub => h.alive hnow ((h.bus_on hb).subscriptions type sub hsub)
      dsimp only [Machine.performBus]
      rw [h.same.bus hb, hcount]
      exact h.give _
  | publish type data =>
      exact h.push (List.forall_mem_singleton.mpr ⟨hb, hplain type data false⟩)
  | publishEvent type data consumed =>
      exact h.push (List.forall_mem_singleton.mpr ⟨hb, hplain type data consumed⟩)
  | clear type => exact (h.modifyBus hb fun _ hbus => hbus.clear type).give _

theorem performManager (h : Alike σ τ w w' m m') {id : ManagerId} {manager : Manager}
    (hid : m.world.manager = some id) (hmanager : m.world.manager? id = some manager)
    {step : ManagerStep} (hstep : step.On σ m.world) :
    Alike σ τ w w' (m.performManager id manager step) (m'.performManager id manager step) := by
  cases step with
  | displayOf title =>
      have hname : (manager.displays.get? title).bind m'.world.display? =
          (manager.displays.get? title).bind m.world.display? := by
        cases hget : manager.displays.get? title with
        | none => rfl
        | some d => exact h.display? (hstep id hid manager hmanager d hget)
      dsimp only [Machine.performManager]
      rw [hname]
      exact h.give _
  | get conversation => exact h.give _
  | conversations => exact h.give _
  | register _ | add _ _ | loadFolder _ _ | start _ _ _ _ | active | endAll =>
      exact False.elim hstep

/-! ## Steps of the host -/

theorem perform (h : Alike σ τ w w' m m') (hnow : ∀ task ∈ now, task.On σ) {step : Step}
    (hstep : step.On σ m.world) :
    Alike σ τ w w' (m.perform now step) (m'.perform now step) := by
  cases step with
  | session name step =>
      exact h.withSession hstep.1 fun s session hs hsession =>
        h.performSession hs (h.session_on hs hsession) hstep.2
  | display name step =>
      exact h.withDisplay hstep.1 fun d display hd hdisplay =>
        h.performDisplay hnow hd (h.display_on hd hdisplay) hstep.2
  | bus name step =>
      dsimp only [Machine.perform]
      exact h.withBus hstep.1 fun b hb => h.performBus hnow hb hstep.2
  | manager step =>
      dsimp only [Machine.perform]
      rw [h.same.manager, funext h.same.manager?]
      split
      · exact h.fail _
      · rename_i id manager heq
        obtain ⟨other, hid, hfound⟩ := Option.bind_eq_some_iff.mp heq
        obtain ⟨found, hmanager, hpair⟩ := Option.map_eq_some_iff.mp hfound
        obtain ⟨rfl, rfl⟩ := Prod.mk.inj hpair
        exact h.performManager hid hmanager hstep
  | consume => exact h.fail _
  | fail kind message => exact h.fail _
  | unknown name => exact h.fail _
  | define _ _ | dropHandler _ | newDisplay _ _ _ | newSession _ _ _ _ | dropSession _
  | newManager _ => exact False.elim hstep

/-! ## Steps of the machine -/

theorem exec (h : Alike σ τ w w' m m') (hnow : ∀ task ∈ now, task.On σ) {task : Task}
    (hon : task.On σ) (hnamed : task.Named σ m.world) :
    Alike σ τ w w' (m.exec now task) (m'.exec now task) := by
  cases task with
  | start s title => exact h.start hon title
  | proceed s => exact h.proceed hon
  | follow s key destination => exact h.follow hon key destination
  | present s line => exact h.present hon.1 hon.2
  | fireShown s line => exact h.fireShown hon.1 hon.2
  | load s data start => exact h.load hon data start
  | finish s onComplete => exact h.finish hon.1 hon.2
  | handleAction s tag param => exact h.handleAction hon tag param
  | actions sink course => exact h.actions hon.1 hon.2
  | multicast called waiting param => exact h.multicast called hon param
  | leave s => exact h
  | showNode d title => exact h.showNode hon title
  | showLine d line => exact h.showLine hnow hon.1 hon.2
  | showOver d => exact h.showOver hon
  | close d closing => exact h.close hon.1 hon.2
  | settle d closing => exact h.settle hon.1 hon.2
  | flush d settled waiting => exact h.flush hon.1 settled hon.2
  | hook name text => exact h.hook (fun given heq => by subst heq; exact hnamed) text
  | callback c => exact h.callback hnow hon
  | publish b event => exact h.publish hon.1 hon.2
  | dispatch b => exact h.dispatch hnow hon
  | drain b event holds => exact h.drain hon.1 hon.2 holds
  | deliver b listener => exact h.deliver hon.1 hon.2
  | call i param => exact h.runHandler hon (by simp) _
  | callWith i b => exact h.callWith hon.1 hon.2
  | script i source steps => exact h.script hon.1 hon.2 steps
  | returned i step => exact h.returned hon step
  | perform step => exact h.perform hnow hnamed
  | answer a => exact h.give a
  | hold s => exact h
  | launch _ _ _ _ _ _ | forget _ | adopt _ _ _ => exact False.elim hon

theorem step (h : Alike σ τ w w' m m')
    (hnamed : ∀ task, m.agenda.head? = some task → task.Named σ m.world) :
    Alike σ τ w w' m.step m'.step := by
  have hagenda := h.agenda
  have hon := h.on
  unfold Machine.step
  rw [hagenda]
  cases htasks : m.agenda with
  | nil => exact h
  | cons task rest =>
      rw [htasks] at hon hnamed
      obtain ⟨htask, hrest⟩ := List.forall_mem_cons.mp hon
      have hopen : Alike σ τ w w' { m with agenda := rest } { m' with agenda := rest } :=
        { h with agenda := rfl, on := hrest }
      exact hopen.exec hon htask (hnamed task rfl)

end Alike

end Parley.Machine
