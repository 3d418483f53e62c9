import Parley.Proofs.Bus.Agenda

/-!
# What holds of every bus at all times

A bus is publishing exactly while a dispatch of it is on the agenda, and then there is only
one.  Events wait in its queue only while it is publishing or about to drain, and it is not
publishing when it is about to drain (`Accounted`).  Together with the places of the bus tasks
this is kept by every step (`Sound.step`).
-/

namespace Parley

namespace Machine

variable {m : Machine} {b : BusId} {rest : List Task}

/-! ## Steps that carry out the work of a bus -/

theorem step_publish_of_isPublishing {event : Event LineRef}
    (h : m.agenda = .publish b event :: rest) (hpub : (m.world.bus b).isPublishing = true) :
    m.step.world = m.world.modifyBus b (fun bus => bus.enqueue event) ∧
      m.step.agenda = rest := by
  rw [step_eq h]
  dsimp only [exec, publish]
  rw [if_pos hpub]
  exact ⟨rfl, rfl⟩

theorem step_publish_of_idle {event : Event LineRef} (h : m.agenda = .publish b event :: rest)
    (hidle : (m.world.bus b).isPublishing = false) :
    m.step.world = m.world.modifyBus b (fun bus => bus.beginDispatch event) ∧
      m.step.agenda = .dispatch b :: rest := by
  rw [step_eq h]
  dsimp only [exec, publish]
  rw [if_neg (by simp [hidle])]
  exact ⟨rfl, rfl⟩

/-- Where a dispatch stands once it has gone on to its next listener. -/
def reached (m : Machine) (d : Dispatch) : Dispatch :=
  d.settle.next (m.world.alive (Task.heldBy m.world m.agenda))

theorem step_dispatch_of_calling {d : Dispatch} {sub : Subscription}
    (h : m.agenda = .dispatch b :: rest) (hd : (m.world.bus b).dispatching = some d)
    (hcalling : (m.reached d).calling = some sub) :
    m.step.world = m.world.modifyBus b (fun bus => bus.modifyDispatch fun _ => m.reached d) ∧
      m.step.agenda = .deliver b sub.listener :: .dispatch b :: rest := by
  rw [reached, h] at hcalling
  rw [reached, step_eq h, h]
  dsimp only [exec, dispatch]
  rw [hd]
  dsimp only
  rw [hcalling]
  exact ⟨rfl, rfl⟩

theorem step_dispatch_of_done {d : Dispatch} (h : m.agenda = .dispatch b :: rest)
    (hd : (m.world.bus b).dispatching = some d) (hdone : (m.reached d).calling = none) :
    m.step.world = m.world.modifyBus b (fun bus => bus.endDispatch (m.reached d)) ∧
      m.step.agenda = .drain b (m.reached d).event (m.reached d).holds :: rest := by
  rw [reached, h] at hdone
  rw [reached, step_eq h, h]
  dsimp only [exec, dispatch]
  rw [hd]
  dsimp only
  rw [hdone]
  exact ⟨rfl, rfl⟩

theorem step_drain_of_empty {event : Event LineRef} {holds : List Listener}
    (h : m.agenda = .drain b event holds :: rest) (hqueue : (m.world.bus b).queue = []) :
    m.step.world = m.world ∧ m.step.agenda = rest := by
  rw [step_eq h]
  dsimp only [exec, drain]
  rw [hqueue]
  exact ⟨rfl, rfl⟩

theorem step_drain_of_cons {event first : Event LineRef} {more : List (Event LineRef)}
    {holds : List Listener} (h : m.agenda = .drain b event holds :: rest)
    (hqueue : (m.world.bus b).queue = first :: more) :
    m.step.world = m.world.modifyBus b
        (fun bus => { bus with queue := more }.beginDispatch first) ∧
      m.step.agenda = .dispatch b :: .drain b event holds :: rest := by
  rw [step_eq h]
  dsimp only [exec, drain]
  rw [hqueue]
  exact ⟨rfl, rfl⟩

/-! ## The invariant -/

/-- The agenda and the state of a bus agree. -/
structure Accounted (m : Machine) (b : BusId) : Prop where
  depth : m.agenda.countP (Task.dispatches b) =
    if (m.world.bus b).isPublishing then 1 else 0
  waiting : (m.world.bus b).queue ≠ [] →
    (m.world.bus b).isPublishing = true ∨ Task.Draining b m.agenda
  draining : Task.Draining b m.agenda → (m.world.bus b).isPublishing = false

/-- What holds of a machine at all times. -/
structure Sound (m : Machine) : Prop where
  known : ∀ task ∈ m.agenda, task.Known m.world
  stacked : Task.Stacked m.agenda
  accounted : ∀ b, Accounted m b

theorem Sound.hasBus_of_publish {event : Event LineRef} (h : Sound m)
    (hagenda : m.agenda = .publish b event :: rest) : m.world.HasBus b :=
  h.known (.publish b event) (by simp [hagenda])

theorem Accounted.dispatch_notMem (h : Accounted m b)
    (hidle : (m.world.bus b).isPublishing = false) : .dispatch b ∉ m.agenda := by
  have hzero : m.agenda.countP (Task.dispatches b) = 0 := by rw [h.depth, hidle]; rfl
  rw [List.countP_eq_zero] at hzero
  exact fun hmem => hzero _ hmem (Task.dispatches_eq_true_iff.mpr rfl)

theorem Accounted.isPublishing_of_mem (h : Accounted m b) (hmem : .dispatch b ∈ m.agenda) :
    (m.world.bus b).isPublishing = true := by
  cases hpub : (m.world.bus b).isPublishing with
  | true => rfl
  | false => exact absurd hmem (h.dispatch_notMem hpub)

theorem Accounted.dispatch_mem (h : Accounted m b)
    (hpub : (m.world.bus b).isPublishing = true) : .dispatch b ∈ m.agenda := by
  have hcount : 0 < m.agenda.countP (Task.dispatches b) := by
    rw [h.depth, if_pos hpub]
    omega
  obtain ⟨task, htask, hdispatches⟩ := List.countP_pos_iff.mp hcount
  exact Task.dispatches_eq_true_iff.mp hdispatches ▸ htask

/-- Dispatches of a bus are not nested. -/
theorem Accounted.dispatch_notMem_below {task : Task} {below : List Task} (h : Accounted m b)
    (hagenda : m.agenda = task :: .dispatch b :: below) : .dispatch b ∉ below := by
  intro hmem
  have htwo : 2 ≤ m.agenda.countP (Task.dispatches b) := by
    have hone : 0 < below.countP (Task.dispatches b) :=
      List.countP_pos_iff.mpr ⟨_, hmem, by simp [Task.dispatches]⟩
    rw [hagenda, List.countP_cons, List.countP_cons_of_pos (by simp [Task.dispatches])]
    omega
  rw [h.depth] at htwo
  split at htwo <;> omega

/-- A bus that is not draining has an empty queue while it is idle. -/
theorem Accounted.queue_eq_nil (h : Accounted m b)
    (hidle : (m.world.bus b).isPublishing = false) (hdrain : ¬ Task.Draining b m.agenda) :
    (m.world.bus b).queue = [] := by
  by_contra hqueue
  rcases h.waiting hqueue with hpub | hdraining
  · rw [hidle] at hpub
    exact absurd hpub (by simp)
  · exact hdrain hdraining

/-- A bus that is left alone, on an agenda with the same dispatches of it. -/
theorem Accounted.of_calm {m' : Machine} (h : Accounted m b)
    (hcalm : (m.world.bus b).Calm (m'.world.bus b)) (hfirst : ¬ Task.Draining b m.agenda)
    (hfirst' : ¬ Task.Draining b m'.agenda)
    (hcount : m'.agenda.countP (Task.dispatches b) = m.agenda.countP (Task.dispatches b)) :
    Accounted m' b := by
  have hpub := hcalm.isPublishing
  refine ⟨by rw [hcount, hpub, h.depth], fun hne => ?_, fun h => absurd h hfirst'⟩
  rw [hcalm.queue] at hne
  rcases h.waiting hne with hwaiting | hdraining
  · exact .inl (hpub.trans hwaiting)
  · exact absurd hdraining hfirst

/-! ## Every step keeps it -/

theorem not_draining_cons {task : Task} (h : ∀ event holds, task ≠ .drain b event holds)
    (rest : List Task) : ¬ Task.Draining b (task :: rest) := by
  rintro ⟨event, holds, hhead⟩
  exact h event holds (by simpa using hhead)

/-- After a routine step no listener is being called and nothing is about to drain. -/
theorem Sound.below_step {task : Task} (h : Sound m) (hagenda : m.agenda = task :: rest)
    (htask : task.worksBus = false) :
    Task.Below m.step.agenda ∧ Task.NotDraining m.step.agenda := by
  have hknown : task.Known m.world := h.known task (by simp [hagenda])
  obtain ⟨hbelow, hfirst⟩ :=
    (hagenda ▸ h.stacked : Task.Stacked (task :: rest)).below_rest
      (by rintro b rfl; simp [Task.worksBus] at htask)
      (by rintro b event holds rfl; simp [Task.worksBus] at htask)
  exact (continues_step hagenda hknown htask).below hbelow hfirst

theorem Sound.step_routine {task : Task} (h : Sound m) (hagenda : m.agenda = task :: rest)
    (htask : task.worksBus = false) : Sound m.step := by
  have hknown : ∀ t ∈ task :: rest, t.Known m.world := hagenda ▸ h.known
  have htaskKnown : task.Known m.world := hknown task (by simp)
  have hcalm := calm_step hagenda htaskKnown htask
  have hcontinues := continues_step hagenda htaskKnown htask
  obtain ⟨hbelow, hfirst⟩ := h.below_step hagenda htask
  refine ⟨?_, .below hbelow, fun b => ?_⟩
  · exact hcontinues.known fun t ht =>
      (hknown t (List.mem_cons_of_mem _ ht)).grow hcalm.grows
  · refine (h.accounted b).of_calm (hcalm.bus b) ?_ (hfirst.not_draining b) ?_
    · rw [hagenda]
      refine not_draining_cons ?_ rest
      rintro event holds rfl
      simp [Task.worksBus] at htask
    · rw [hcontinues.countP_dispatches, hagenda, List.countP_cons_of_neg]
      rw [Task.dispatches_eq_true_iff]
      rintro rfl
      simp [Task.worksBus] at htask

/-- A step that works on one bus leaves the others as they are. -/
theorem Sound.of_work {m' : Machine} (h : Sound m)
    (hgrows : ∀ c, m.world.HasBus c → m'.world.HasBus c)
    (hsame : ∀ c, c ≠ b → m'.world.bus c = m.world.bus c)
    (hknown : ∀ task ∈ m'.agenda, task ∈ m.agenda ∨ task.Known m.world)
    (hstacked : Task.Stacked m'.agenda)
    (hothers : ∀ c, c ≠ b → ¬ Task.Draining c m.agenda ∧ ¬ Task.Draining c m'.agenda ∧
      m'.agenda.countP (Task.dispatches c) = m.agenda.countP (Task.dispatches c))
    (hself : Accounted m' b) : Sound m' := by
  refine ⟨fun task ht => ?_, hstacked, fun c => ?_⟩
  · exact ((hknown task ht).elim (h.known task) id).grow hgrows
  · by_cases hc : c = b
    · exact hc ▸ hself
    · obtain ⟨hfirst, hfirst', hcount⟩ := hothers c hc
      exact (h.accounted c).of_calm (hsame c hc ▸ .refl _) hfirst hfirst' hcount

theorem Sound.step_publish {event : Event LineRef} (h : Sound m)
    (hagenda : m.agenda = .publish b event :: rest) : Sound m.step := by
  have hbus := h.hasBus_of_publish hagenda
  obtain ⟨hbelow, hfirst⟩ :=
    (hagenda ▸ h.stacked : Task.Stacked (.publish b event :: rest)).below_rest (by simp) (by simp)
  have hnow : ∀ c, ¬ Task.Draining c m.agenda := fun c =>
    hagenda ▸ not_draining_cons (by simp) rest
  have hcount : ∀ c, m.agenda.countP (Task.dispatches c) = rest.countP (Task.dispatches c) :=
    fun c => by rw [hagenda, List.countP_cons_of_neg (by simp [Task.dispatches])]
  cases hpub : (m.world.bus b).isPublishing with
  | true =>
      obtain ⟨hworld, hstep⟩ := step_publish_of_isPublishing hagenda hpub
      have hafter : (m.step.world.bus b).isPublishing = true := by
        rw [hworld, World.bus_modifyBus_self hbus]
        exact hpub
      refine h.of_work (hworld ▸ fun c => World.hasBus_modifyBus.mpr)
        (fun c hc => hworld ▸ World.bus_modifyBus_of_ne hc _) ?_ (.below (hstep ▸ hbelow))
        (fun c _ => ⟨hnow c, hstep ▸ hfirst.not_draining c, hstep ▸ (hcount c).symm⟩) ?_
      · rw [hstep, hagenda]
        exact fun task ht => .inl (List.mem_cons_of_mem _ ht)
      · refine ⟨?_, fun _ => .inl hafter, fun hdraining => ?_⟩
        · rw [hstep, ← hcount, (h.accounted b).depth, hpub, hafter]
        · exact absurd (hstep ▸ hdraining) (hfirst.not_draining b)
  | false =>
      obtain ⟨hworld, hstep⟩ := step_publish_of_idle hagenda hpub
      have hafter : (m.step.world.bus b).isPublishing = true := by
        rw [hworld, World.bus_modifyBus_self hbus]
        rfl
      have hbegun : ∀ c, ¬ Task.Draining c m.step.agenda := fun c =>
        hstep ▸ not_draining_cons (by simp) rest
      refine h.of_work (hworld ▸ fun c => World.hasBus_modifyBus.mpr)
        (fun c hc => hworld ▸ World.bus_modifyBus_of_ne hc _) ?_ (.below ?_)
        (fun c hc => ⟨hnow c, hbegun c, ?_⟩) ?_
      · rw [hstep, hagenda]
        intro task ht
        rcases List.mem_cons.mp ht with rfl | ht
        exacts [.inr hbus, .inl (List.mem_cons_of_mem _ ht)]
      · rw [hstep]
        exact hbelow.cons (hfirst.inFront _) (by simp)
      · rw [hstep, hcount, List.countP_cons_of_neg (by simp [Task.dispatches, Ne.symm hc])]
      · refine ⟨?_, fun _ => .inl hafter, fun hdraining => absurd hdraining (hbegun b)⟩
        rw [hstep, List.countP_cons_of_pos (by simp [Task.dispatches]), ← hcount,
          (h.accounted b).depth, hpub, hafter]
        rfl

theorem Sound.exists_dispatching (h : Sound m) (hagenda : m.agenda = .dispatch b :: rest) :
    ∃ d, (m.world.bus b).dispatching = some d :=
  Option.isSome_iff_exists.mp ((h.accounted b).isPublishing_of_mem (by simp [hagenda]))

theorem Sound.step_dispatch (h : Sound m) (hagenda : m.agenda = .dispatch b :: rest) :
    Sound m.step := by
  have hbus : m.world.HasBus b := h.known (.dispatch b) (by simp [hagenda])
  have hbelow : Task.Below (.dispatch b :: rest) :=
    (hagenda ▸ h.stacked : Task.Stacked (.dispatch b :: rest)).below_of_ne (by simp)
  have hnow : ∀ c, ¬ Task.Draining c m.agenda := fun c =>
    hagenda ▸ not_draining_cons (by simp) rest
  have hpub : (m.world.bus b).isPublishing = true :=
    (h.accounted b).isPublishing_of_mem (by simp [hagenda])
  obtain ⟨d, hd⟩ := h.exists_dispatching hagenda
  cases hcalling : (m.reached d).calling with
  | some sub =>
      obtain ⟨hworld, hstep⟩ := step_dispatch_of_calling hagenda hd hcalling
      have hafter : (m.step.world.bus b).isPublishing = true := by
        rw [hworld, World.bus_modifyBus_self hbus]
        simpa [Bus.isPublishing, Bus.modifyDispatch] using hpub
      have hcalled : ∀ c, ¬ Task.Draining c m.step.agenda := fun c =>
        hstep ▸ not_draining_cons (by simp) (.dispatch b :: rest)
      have hcount : ∀ c, m.step.agenda.countP (Task.dispatches c) =
          m.agenda.countP (Task.dispatches c) := fun c => by
        rw [hstep, hagenda, List.countP_cons_of_neg (by simp [Task.dispatches])]
      refine h.of_work (hworld ▸ fun c => World.hasBus_modifyBus.mpr)
        (fun c hc => hworld ▸ World.bus_modifyBus_of_ne hc _) ?_
        (hstep ▸ .deliver sub.listener hbelow) (fun c _ => ⟨hnow c, hcalled c, hcount c⟩)
        ⟨?_, fun _ => .inl hafter, fun hdraining => absurd hdraining (hcalled b)⟩
      · rw [hstep, hagenda]
        intro task ht
        rcases List.mem_cons.mp ht with rfl | ht
        exacts [.inr hbus, .inl ht]
      · rw [hcount, (h.accounted b).depth, hpub, hafter]
  | none =>
      obtain ⟨hworld, hstep⟩ := step_dispatch_of_done hagenda hd hcalling
      have hafter : (m.step.world.bus b).isPublishing = false := by
        rw [hworld, World.bus_modifyBus_self hbus]
        simp [Bus.isPublishing]
      have hdraining : Task.Draining b m.step.agenda := by
        rw [hstep]
        exact ⟨_, _, rfl⟩
      -- Events that wait now wait for the drain that the dispatch leaves behind.
      refine h.of_work (hworld ▸ fun c => World.hasBus_modifyBus.mpr)
        (fun c hc => hworld ▸ World.bus_modifyBus_of_ne hc _) ?_ (.below ?_)
        (fun c hc => ⟨hnow c, ?_, ?_⟩) ⟨?_, fun _ => .inr hdraining, fun _ => hafter⟩
      · rw [hstep, hagenda]
        intro task ht
        rcases List.mem_cons.mp ht with rfl | ht
        exacts [.inr hbus, .inl (List.mem_cons_of_mem _ ht)]
      · rw [hstep]
        refine hbelow.tail.cons (fun next hnext c event holds hdrain => ?_) (by simp)
        rcases hbelow.inFront hnext c event holds hdrain with heq | ⟨_, _, heq⟩
        · obtain rfl := Task.dispatch.inj heq
          exact .inr ⟨_, _, rfl⟩
        · exact absurd heq (by simp)
      · rw [hstep]
        exact not_draining_cons (by simp [Ne.symm hc]) rest
      · rw [hstep, hagenda, List.countP_cons_of_neg (by simp [Task.dispatches]),
          List.countP_cons_of_neg (by simp [Task.dispatches, Ne.symm hc])]
      · have hdepth := (h.accounted b).depth
        rw [hagenda, List.countP_cons_of_pos (by simp [Task.dispatches]), hpub, if_pos rfl]
          at hdepth
        rw [hstep, List.countP_cons_of_neg (by simp [Task.dispatches]), hafter]
        simpa using hdepth

theorem Sound.step_drain {event : Event LineRef} {holds : List Listener} (h : Sound m)
    (hagenda : m.agenda = .drain b event holds :: rest) : Sound m.step := by
  have hbus : m.world.HasBus b := h.known (.drain b event holds) (by simp [hagenda])
  have hbelow : Task.Below (.drain b event holds :: rest) :=
    (hagenda ▸ h.stacked : Task.Stacked (.drain b event holds :: rest)).below_of_ne (by simp)
  have hnow : ∀ c, c ≠ b → ¬ Task.Draining c m.agenda := fun c hc =>
    hagenda ▸ not_draining_cons (by simp [Ne.symm hc]) rest
  have hpub : (m.world.bus b).isPublishing = false :=
    (h.accounted b).draining (hagenda ▸ ⟨event, holds, rfl⟩)
  have hcount : ∀ c, m.agenda.countP (Task.dispatches c) = rest.countP (Task.dispatches c) :=
    fun c => by rw [hagenda, List.countP_cons_of_neg (by simp [Task.dispatches])]
  cases hqueue : (m.world.bus b).queue with
  | nil =>
      obtain ⟨hworld, hstep⟩ := step_drain_of_empty hagenda hqueue
      refine h.of_work (hworld ▸ fun c => id) (fun c _ => by rw [hworld]) ?_
        (.below (hstep ▸ hbelow.tail)) (fun c hc => ⟨hnow c hc, ?_, hstep ▸ (hcount c).symm⟩) ?_
      · rw [hstep, hagenda]
        exact fun task ht => .inl (List.mem_cons_of_mem _ ht)
      -- Right behind a drain there can only be another drain of the same bus.
      · rw [hstep]
        rintro ⟨event', holds', hhead⟩
        rcases hbelow.inFront hhead c event' holds' rfl with heq | ⟨_, _, heq⟩
        · exact absurd heq (by simp)
        · exact hc (Task.drain.inj heq).1.symm
      · refine ⟨?_, fun hne => ?_, fun _ => hworld ▸ hpub⟩
        · rw [hstep, hworld, ← hcount, (h.accounted b).depth]
        · rw [hworld] at hne
          exact absurd hqueue hne
  | cons first more =>
      obtain ⟨hworld, hstep⟩ := step_drain_of_cons hagenda hqueue
      have hafter : (m.step.world.bus b).isPublishing = true := by
        rw [hworld, World.bus_modifyBus_self hbus]
        rfl
      have hbegun : ∀ c, ¬ Task.Draining c m.step.agenda := fun c =>
        hstep ▸ not_draining_cons (by simp) (.drain b event holds :: rest)
      refine h.of_work (hworld ▸ fun c => World.hasBus_modifyBus.mpr)
        (fun c hc => hworld ▸ World.bus_modifyBus_of_ne hc _) ?_ (.below ?_)
        (fun c hc => ⟨hnow c hc, hbegun c, ?_⟩)
        ⟨?_, fun _ => .inl hafter, fun hdraining => absurd hdraining (hbegun b)⟩
      · rw [hstep, hagenda]
        intro task ht
        rcases List.mem_cons.mp ht with rfl | ht
        exacts [.inr hbus, .inl ht]
      · rw [hstep]
        refine hbelow.cons (fun next hnext c event' holds' hdrain => .inl ?_) (by simp)
        obtain rfl : .drain b event holds = next := by simpa using hnext
        rw [(Task.drain.inj hdrain).1]
      · rw [hstep, hagenda, List.countP_cons_of_neg (by simp [Task.dispatches, Ne.symm hc])]
      · rw [hstep, List.countP_cons_of_pos (by simp [Task.dispatches]), ← hagenda,
          (h.accounted b).depth, hpub, hafter]
        rfl

/-- A bus task changes nothing of the world but its bus, to which nobody subscribes by it. -/
theorem Sound.exists_step_world_eq {task : Task} (h : Sound m) (hagenda : m.agenda = task :: rest)
    (htask : task.worksBus = true) :
    m.step.world = m.world ∨ ∃ b f, m.step.world = m.world.modifyBus b f ∧
      ∀ (P : Listener → Prop) (bus : Bus), bus.Admits P (f bus) := by
  have hsame : ∀ {bus bus' : Bus} (P : Listener → Prop),
      bus'.subscriptions = bus.subscriptions → bus.Admits P bus' :=
    fun P heq type sub hsub => .inl (by rwa [heq] at hsub)
  cases task with
  | publish c event =>
      cases hpub : (m.world.bus c).isPublishing with
      | true =>
          exact .inr ⟨c, _, (step_publish_of_isPublishing hagenda hpub).1, fun P _ => hsame P rfl⟩
      | false => exact .inr ⟨c, _, (step_publish_of_idle hagenda hpub).1, fun P _ => hsame P rfl⟩
  | dispatch c =>
      obtain ⟨d, hd⟩ := h.exists_dispatching hagenda
      cases hcalling : (m.reached d).calling with
      | some sub =>
          exact .inr ⟨c, _, (step_dispatch_of_calling hagenda hd hcalling).1,
            fun P _ => hsame P rfl⟩
      | none =>
          exact .inr ⟨c, _, (step_dispatch_of_done hagenda hd hcalling).1,
            fun _ bus => Bus.admits_endDispatch bus _⟩
  | drain c event holds =>
      cases hqueue : (m.world.bus c).queue with
      | nil => exact .inl (step_drain_of_empty hagenda hqueue).1
      | cons first more =>
          exact .inr ⟨c, _, (step_drain_of_cons hagenda hqueue).1, fun P _ => hsame P rfl⟩
  | _ => exact absurd htask (by simp [Task.worksBus])

/-- A plain task leaves the sessions where they stand. -/
theorem Sound.steady_step {task : Task} (h : Sound m) (hagenda : m.agenda = task :: rest)
    (hplain : task.isPlain = true) : m.world.Steady m.step.world := by
  cases hworks : task.worksBus with
  | false =>
      have hknown : task.Known m.world := h.known task (by simp [hagenda])
      exact (routineOrFail_step hagenda hknown hworks).steady hplain
  | true =>
      rcases h.exists_step_world_eq hagenda hworks with hworld | ⟨b, f, hworld, -⟩ <;> rw [hworld]
      · exact .refl _
      · exact World.steady_modifyBus ..

/-- A task that is not there to change a registry leaves all of them as they are. -/
theorem Sound.registries_step {task : Task} (h : Sound m) (hagenda : m.agenda = task :: rest)
    (hkeeps : task.rewritesActions = false) : m.world.SameRegistries m.step.world := by
  cases hworks : task.worksBus with
  | false =>
      have hknown : task.Known m.world := h.known task (by simp [hagenda])
      exact (routineOrFail_step hagenda hknown hworks).registries hkeeps
  | true =>
      rcases h.exists_step_world_eq hagenda hworks with hworld | ⟨b, f, hworld, -⟩ <;> rw [hworld]
      · exact .refl _
      · exact World.sameRegistries_modifyBus m.world b f

/-- No task lets a listener subscribe that it is not there for. -/
theorem Sound.admits_step {task : Task} (h : Sound m) (hagenda : m.agenda = task :: rest)
    (b : BusId) : (m.world.bus b).Admits (task.Seats m.world b) (m.step.world.bus b) := by
  cases hworks : task.worksBus with
  | false =>
      have hknown : task.Known m.world := h.known task (by simp [hagenda])
      exact (routineOrFail_step hagenda hknown hworks).admits b
  | true =>
      rcases h.exists_step_world_eq hagenda hworks with hworld | ⟨c, f, hworld, hadmits⟩ <;>
        rw [hworld]
      · exact .refl _
      · exact World.admits_modifyBus (fun bus => hadmits _ bus) b

/-- No step changes a graph that no session holds. -/
theorem Sound.spares_memory (h : Sound m) : m.world.memory.Spares m.step.world.memory := by
  cases hagenda : m.agenda with
  | nil =>
      rw [step_of_agenda_eq_nil hagenda]
      exact .refl _
  | cons task rest =>
      cases hworks : task.worksBus with
      | false => exact (calm_step hagenda (h.known task (by simp [hagenda])) hworks).spares
      | true =>
          rcases h.exists_step_world_eq hagenda hworks with hworld | ⟨b, f, hworld, -⟩ <;>
            rw [hworld]
          · exact .refl _
          · exact World.spares_modifyBus m.world b f

/-- No step enters the name of a free bus twice. -/
theorem Sound.nodup_keys_step (h : Sound m) (hkeys : m.world.buses.keys.Nodup) :
    m.step.world.buses.keys.Nodup := by
  cases hagenda : m.agenda with
  | nil =>
      rw [step_of_agenda_eq_nil hagenda]
      exact hkeys
  | cons task rest =>
      cases hworks : task.worksBus with
      | false => exact (calm_step hagenda (h.known task (by simp [hagenda])) hworks).keys hkeys
      | true =>
          rcases h.exists_step_world_eq hagenda hworks with hworld | ⟨b, f, hworld, -⟩ <;>
            rw [hworld]
          · exact hkeys
          · exact World.nodup_keys_modifyBus hkeys b f

/-- A bus task puts its own tasks in place of itself. -/
theorem Sound.exists_step_agenda_eq {task : Task} (h : Sound m) (hagenda : m.agenda = task :: rest)
    (htask : task.worksBus = true) :
    ∃ tasks, (∀ t ∈ tasks, t.isFrame = true) ∧ m.step.agenda = tasks ++ rest := by
  cases task with
  | publish b event =>
      cases hpub : (m.world.bus b).isPublishing with
      | true => exact ⟨[], by simp, (step_publish_of_isPublishing hagenda hpub).2⟩
      | false => exact ⟨[_], by simp, (step_publish_of_idle hagenda hpub).2⟩
  | dispatch b =>
      obtain ⟨d, hd⟩ := h.exists_dispatching hagenda
      cases hcalling : (m.reached d).calling with
      | some sub => exact ⟨[_, _], by simp, (step_dispatch_of_calling hagenda hd hcalling).2⟩
      | none => exact ⟨[_], by simp, (step_dispatch_of_done hagenda hd hcalling).2⟩
  | drain b event holds =>
      cases hqueue : (m.world.bus b).queue with
      | nil => exact ⟨[], by simp, (step_drain_of_empty hagenda hqueue).2⟩
      | cons first more => exact ⟨[_, _], by simp, (step_drain_of_cons hagenda hqueue).2⟩
  | _ => exact absurd htask (by simp [Task.worksBus])

/-- Every step puts tasks that its own task may put there in front of the rest of the agenda, or
cuts the rest down to a dispatch. -/
theorem Sound.yields_or_cuts {task : Task} (h : Sound m) (hagenda : m.agenda = task :: rest) :
    ∃ f, Task.KeepsFrames f ∧
      ((∃ tasks, (∀ t ∈ tasks, task.Yields t) ∧ m.step.agenda = tasks ++ rest.map f) ∨
        ∃ before, rest.map f = before ++ m.step.agenda ∧
          (m.step.agenda = [] ∨ ∃ b below, m.step.agenda = .dispatch b :: below)) := by
  cases hworks : task.worksBus with
  | true =>
      obtain ⟨tasks, hframes, hstep⟩ := h.exists_step_agenda_eq hagenda hworks
      refine ⟨id, Task.keepsFrames_id, .inl ⟨tasks, fun t ht => ?_, by rw [hstep, List.map_id]⟩⟩
      have hframe := hframes t ht
      cases t <;> trivial
  | false =>
      have hknown : task.Known m.world := h.known task (by simp [hagenda])
      have hcontinues := continues_step hagenda hknown hworks
      generalize m.step.agenda = after at hcontinues ⊢
      cases hcontinues with
      | push htasks hf => exact ⟨_, hf, .inl ⟨_, fun t ht => (htasks t ht).2, rfl⟩⟩
      | cut hf heq _ hafter => exact ⟨_, hf, .inr ⟨_, heq, hafter⟩⟩

/-- Every step leaves what is below its task there, or fails with it still to be done. -/
theorem Sound.leavesBelow {task : Task} (h : Sound m) (hagenda : m.agenda = task :: rest) :
    LeavesBelow task m.world rest m.step := by
  cases hworks : task.worksBus with
  | true =>
      obtain ⟨tasks, -, hstep⟩ := h.exists_step_agenda_eq hagenda hworks
      exact .on .none (fun _ => rfl) (by rw [hstep, List.map_id])
  | false =>
      have hknown : task.Known m.world := h.known task (by simp [hagenda])
      exact (routineOrFail_step hagenda hknown hworks).leavesBelow

/-- Every step keeps the invariant. -/
theorem Sound.step (h : Sound m) : Sound m.step := by
  cases hagenda : m.agenda with
  | nil =>
      rw [step_of_agenda_eq_nil hagenda]
      exact h
  | cons task rest =>
      cases hworks : task.worksBus with
      | false => exact h.step_routine hagenda hworks
      | true =>
          cases task with
          | publish b event => exact h.step_publish hagenda
          | dispatch b => exact h.step_dispatch hagenda
          | drain b event holds => exact h.step_drain hagenda
          | _ => exact absurd hworks (by simp [Task.worksBus])

end Machine

end Parley
