import Parley.Proofs.Actions.Dispatch
import Parley.Proofs.Actions.Undisturbed
import Parley.Proofs.Session.Waiting

/-!
# Actions that fire when their line is shown

An input by which a line is displayed goes on to the point where the actions of the line fire, if
the settings say so, and comes back after that (`Showing.shown`).  If nobody calls on the session
meanwhile, the handlers that are registered for the actions are called, each action in turn
(`Showing.fired_of_set`), or none at all (`Showing.fired_of_unset`).
-/

namespace Parley

/-- Whether a session fires the actions of the lines that it shows. -/
def World.firesShown (w : World) (s : SessionId) : Bool :=
  (w.session? s).elim false fun session => (w.configOf session).dispatchActionsOnDisplay

/-- The calls that some actions lead to, with the handlers of each tag. -/
def callsOf (handlers : String → List HandlerId) (actions : List Action) :
    List (HandlerId × String) :=
  actions.flatMap fun action => (handlers action.tag).map (·, action.param)

namespace Machine

variable {x : ℕ → Machine} {m : Machine} {s : SessionId} {session moved : Session}
  {input : Task} {rest : List Task} {flag : Bool} {key : String} {index i j k n : ℕ}

/-! ## What a session fires -/

/-- The call of an action handler that begins with the next step, if a session makes it in a loop
over actions right above an agenda of the given length.  The loop is the session's own, or that
of a display that reports the actions to it. -/
def fired (s : SessionId) (depth : ℕ) (m : Machine) : Option (HandlerId × String) :=
  match m.agenda with
  | .call h param :: .multicast _ _ _ :: .actions (.session t) _ :: below =>
    if t = s ∧ below.length = depth then some (h, param) else none
  | .call h param :: .multicast _ _ _ :: .leave t :: .dispatch (.display _) ::
      .actions (.display _) _ :: below =>
    if t = s ∧ below.length = depth then some (h, param) else none
  | _ => none

/-- All calls that a session makes like this between two times. -/
def firedIn (s : SessionId) (depth : ℕ) (x : ℕ → Machine) (i n : ℕ) : List (HandlerId × String) :=
  (stretch x i (n - i)).filterMap (fired s depth)

theorem stretch_add (x : ℕ → Machine) (i n k : ℕ) :
    stretch x i (n + k) = stretch x i n ++ stretch x (i + n) k := by
  induction k with
  | zero => simp [stretch]
  | succ k ih => rw [← Nat.add_assoc, stretch_add_one, ih, stretch_add_one, List.append_assoc,
      Nat.add_assoc]

theorem firedIn_split {depth : ℕ} (hij : i ≤ j) (hjn : j ≤ n) :
    firedIn s depth x i n = firedIn s depth x i j ++ firedIn s depth x j n := by
  obtain ⟨a, rfl⟩ := Nat.exists_eq_add_of_le hij
  obtain ⟨b, rfl⟩ := Nat.exists_eq_add_of_le hjn
  rw [firedIn, firedIn, firedIn, show i + a + b - i = a + b by omega,
    show i + a - i = a by omega, show i + a + b - (i + a) = b by omega, stretch_add,
    List.filterMap_append]

theorem firedIn_add_one {depth : ℕ} (hij : i ≤ j) :
    firedIn s depth x i (j + 1) = firedIn s depth x i j ++ (fired s depth (x j)).toList := by
  obtain ⟨a, rfl⟩ := Nat.exists_eq_add_of_le hij
  rw [firedIn, firedIn, show i + a + 1 - i = a + 1 by omega, Nat.add_sub_cancel_left,
    stretch_add_one, List.filterMap_append]
  cases hfired : fired s depth (x (i + a)) <;> simp [hfired]

theorem mem_stretch {m : Machine} (h : m ∈ stretch x i n) : ∃ k < n, m = x (i + k) := by
  obtain ⟨k, hk, rfl⟩ := List.mem_map.mp h
  exact ⟨k, List.mem_range.mp hk, rfl⟩

theorem firedIn_eq_nil {depth : ℕ}
    (h : ∀ k, i ≤ k → k < n → fired s depth (x k) = none) : firedIn s depth x i n = [] := by
  rw [firedIn, List.filterMap_eq_nil_iff]
  intro m hm
  obtain ⟨k, hk, rfl⟩ := mem_stretch hm
  exact h (i + k) (by omega) (by omega)

/-- Nothing is fired as deep as that. -/
theorem fired_of_length_le {depth : ℕ} (h : m.agenda.length ≤ depth + 2) :
    fired s depth m = none := by
  unfold fired
  split
  · rename_i hagenda
    refine if_neg fun hdepth => ?_
    simp only [hagenda, List.length_cons] at h
    omega
  · rename_i hagenda
    refine if_neg fun hdepth => ?_
    simp only [hagenda, List.length_cons] at h
    omega
  · rfl

/-- The tasks right above two ends of an agenda of the same length are the same. -/
theorem eq_of_append_cons {above below below' : List Task} {task task' : Task}
    (above' : List Task) (h : above ++ task :: below = above' ++ task' :: below')
    (hlength : below'.length = below.length) : task = task' := by
  have htails : task :: below = task' :: below' := (List.append_inj' h (by simp [hlength])).2
  exact (List.cons.inj htails).1

/-- Nothing is fired above a task that is not a loop. -/
theorem fired_of_ne {above below : List Task} {task : Task}
    (hagenda : m.agenda = above ++ task :: below)
    (htask : ∀ sink course, task ≠ .actions sink course) : fired s below.length m = none := by
  unfold fired
  split
  · rename_i hcall
    rw [hagenda] at hcall
    exact if_neg fun hdepth => htask _ _ (eq_of_append_cons [_, _] hcall hdepth.2)
  · rename_i hcall
    rw [hagenda] at hcall
    exact if_neg fun hdepth => htask _ _ (eq_of_append_cons [_, _, _, _] hcall hdepth.2)
  · rfl

/-- What is fired above a loop of the session are the calls that the loop makes. -/
theorem fired_of_loop {above below : List Task} {course : Course}
    (hagenda : m.agenda = above ++ .actions (.session s) course :: below) :
    fired s below.length m = call? (below.length + 1) m := by
  unfold fired call?
  split
  · rename_i h param called waiting _ t _ below' hcall
    simp only [hcall, List.length_cons, Nat.add_right_cancel_iff]
    refine if_congr ⟨And.right, fun hlength => ⟨?_, hlength⟩⟩ rfl rfl
    rw [hagenda] at hcall
    have htask := eq_of_append_cons [_, _] hcall hlength
    exact (Sink.session.inj (Task.actions.inj htask).1).symm
  · rename_i h param called waiting _ t d e course below' hcall
    simp only [hcall, List.length_cons]
    rw [if_neg, if_neg]
    · intro hlength
      rw [hagenda] at hcall
      have htask := eq_of_append_cons [_, _] hcall (by simpa using hlength)
      exact absurd htask (by simp)
    · rintro ⟨-, hlength⟩
      rw [hagenda] at hcall
      have htask := eq_of_append_cons [_, _, _, _] hcall hlength
      exact absurd htask (by simp)
  · rename_i hnone hnone'
    split
    · rename_i h param called waiting _ frame hcall
      refine (if_neg fun hlength => ?_).symm
      rw [hagenda] at hcall
      cases frame with
      | nil => simp at hlength
      | cons task frame =>
          have htask := eq_of_append_cons [_, _] hcall (by simpa using hlength)
          subst htask
          exact hnone _ _ _ _ _ _ _ _ (hagenda.trans hcall)
    · rfl

/-- What is fired above a report of the display are the calls that the report leads to. -/
theorem fired_of_report {above below : List Task} {d : DisplayId} {course : Course}
    (hagenda : m.agenda = above ++ .leave s :: .dispatch (.display d) ::
      .actions (.display d) course :: below) :
    fired s below.length m = call? (below.length + 3) m := by
  have hloop : m.agenda = (above ++ [.leave s, .dispatch (.display d)]) ++
      .actions (.display d) course :: below := by rw [hagenda, List.append_assoc]; rfl
  unfold fired call?
  split
  · rename_i h param called waiting _ t _ below' hcall
    simp only [hcall, List.length_cons]
    rw [if_neg, if_neg]
    · intro hlength
      rw [hagenda] at hcall
      exact absurd (eq_of_append_cons [_, _] hcall (by simpa using hlength)) (by simp)
    · rintro ⟨-, hlength⟩
      rw [hloop] at hcall
      exact absurd (eq_of_append_cons [_, _] hcall hlength) (by simp)
  · rename_i h param called waiting _ t e e' course' below' hcall
    simp only [hcall, List.length_cons, Nat.add_right_cancel_iff]
    refine if_congr ⟨And.right, fun hlength => ⟨?_, hlength⟩⟩ rfl rfl
    rw [hagenda] at hcall
    have htask := eq_of_append_cons [_, _] hcall (by simpa using hlength)
    exact (Task.leave.inj htask).symm
  · rename_i hnone hnone'
    split
    · rename_i h param called waiting text frame hcall
      refine (if_neg fun hlength => ?_).symm
      have hsplit : above ++ (.leave s :: .dispatch (.display d) ::
          .actions (.display d) course :: below) =
          [.call h param, .multicast called waiting text] ++ frame := hagenda.symm.trans hcall
      obtain ⟨-, rfl⟩ := List.append_inj' hsplit (by simpa using hlength.symm)
      exact hnone' _ _ _ _ _ _ _ _ _ _ hcall
    · rfl

/-! ## Showing a line -/

/-- From time `i` to time `n` a session is busy with an input and comes back from it.  Nobody else
calls on it meanwhile, and its settings say throughout whether it fires what it shows. -/
structure Showing (s : SessionId) (session : Session) (input : Task) (rest : List Task)
    (flag : Bool) (x : ℕ → Machine) (i n : ℕ) : Prop where
  works : WorksOff [input] rest x i n
  session : (x i).world.session? s = some session
  setting : ∀ j, i ≤ j → j < n → (x j).world.firesShown s = flag
  alone : ∀ j, i < j → j < n → callsOn s (x j) = false

theorem WorksOff.lt {task : Task} {tasks : List Task}
    (hworks : WorksOff (task :: tasks) rest x i n) : i < n := by
  refine Nat.lt_of_le_of_ne hworks.later fun heq => ?_
  have hdone := hworks.done
  rw [← heq, hworks.pushed, List.length_append, List.length_cons] at hdone
  omega

/-- Tasks that are worked off do not begin with catching a failure. -/
theorem WorksOff.normal_tasks {tasks : List Task} (hworks : WorksOff tasks rest x i n)
    (htasks : ∀ b, .dispatch b ∉ tasks) :
    (x i).agenda ≠ [] ∧ ∀ b, (x i).agenda.head? ≠ some (.dispatch b) := by
  rw [hworks.pushed]
  cases tasks with
  | nil => exact hworks.normal
  | cons task tasks =>
      refine ⟨by simp, fun b hhead => htasks b ?_⟩
      obtain rfl : task = .dispatch b := by simpa using hhead
      exact List.mem_cons_self

/-- The first task of those that are worked off leaves others in its place. -/
theorem WorksOff.step {task : Task} {tasks pushed : List Task}
    (hworks : WorksOff (task :: tasks) rest x i n) (h : Execution x)
    (hstep : (x i).step.agenda = pushed ++ (tasks ++ rest)) :
    WorksOff (pushed ++ tasks) rest x (i + 1) n := by
  refine ⟨?_, hworks.lt, fun j hij hjn => hworks.busy j (by omega) hjn, hworks.done,
    hworks.normal⟩
  rw [h.eq_step (by simp [hworks.pushed]), hstep, List.append_assoc]

/-- Nothing is fired before a task that is worked off is reached, unless the task is a loop. -/
theorem fired_of_above {nested later : List Task} {task : Task} {f : Task → Task}
    (hagenda : m.agenda = nested ++ (task :: later ++ rest).map f) (hf : Task.KeepsFrames f)
    (htask : ∀ sink course, task ≠ .actions sink course) :
    fired s (later.length + rest.length) m = none := by
  rw [List.cons_append, List.map_cons, hf.eq_of_ne htask] at hagenda
  rw [← List.length_append, ← List.length_map f]
  exact fired_of_ne hagenda htask

theorem map_behind {f : Task → Task} (hf : Task.KeepsFrames f) (input : Task) :
    input.behind.map f = input.behind := by
  cases input with
  | start s title => exact congrArg (· :: []) (hf.eq_of_ne (by simp))
  | _ => rfl

theorem dispatch_notMem_behind (input : Task) (b : BusId) : .dispatch b ∉ input.behind := by
  cases input <;> simp [Task.behind]

/-- What an input leaves behind is at its end as soon as it is reached. -/
theorem WorksOff.fired_behind (hworks : WorksOff input.behind rest x i n) (h : Execution x)
    (hij : i ≤ j) (hjn : j < n) : fired s (input.behind.length + rest.length) (x j) = none := by
  rcases Nat.lt_or_eq_of_le hij with hlt | rfl
  -- After its only task the rest is left.
  · cases input with
    | start t title =>
        have hagenda : (x i).agenda = .answer (.flag true) :: rest := hworks.pushed
        have hstep : (x i).step.agenda = [] ++ ([] ++ rest) := by rw [step_eq hagenda]; rfl
        have hnext := hworks.step h hstep
        refine absurd (hnext.busy (i + 1) le_rfl (by omega)) ?_
        rw [hnext.pushed]
        simp
    | _ =>
        have hbusy := hworks.busy i le_rfl (by omega)
        rw [hworks.pushed] at hbusy
        exact absurd hbusy (by simp [Task.behind])
  · exact fired_of_length_le (by rw [hworks.pushed, List.length_append]; omega)

theorem Showing.leads (h : Showing s session input rest flag x i n) (hx : Execution x)
    (hmove : Moves s (x i) session (.display moved key index)) :
    (x (i + 1)).world.session? s = some moved ∧
      ∃ before, WorksOff (before ++ .present s ⟨s, moved.generation, key, index⟩ :: input.behind)
        rest x (i + 1) n := by
  have hleads := leads_of_display h.session hmove
  have hnext := hx.eq_step (i := i) (by simp [h.works.pushed])
  refine ⟨hnext ▸ hleads.session, ?_⟩
  obtain ⟨task, rest', before, hagenda, -, -, hstep⟩ := hleads.agenda
  obtain ⟨rfl, rfl⟩ := List.cons.inj (h.works.pushed.symm.trans hagenda)
  rw [← List.cons_append, ← List.append_assoc] at hstep
  refine ⟨before, ?_⟩
  have hworks := h.works.step hx hstep
  rwa [List.append_nil] at hworks

theorem WorksOff.present {line : LineRef} {later : List Task}
    (hworks : WorksOff (.present s line :: later) rest x i n) (h : Execution x)
    (hs : (x i).world.session? s = some session) :
    ∃ told, WorksOff (told ++ .fireShown s line :: later) rest x (i + 1) n := by
  have hstep := step_eq hworks.pushed
  dsimp only [exec, Machine.present] at hstep
  rw [hs] at hstep
  let told : List Task := [.showLine session.display line, .publish (.session s)
    { type := .dialogue .lineDisplayed, data := [("line", .line line)] }]
  have hagenda : (x i).step.agenda = (told ++ [.fireShown s line]) ++ (later ++ rest) := by
    rw [hstep]
    rfl
  have hnext := hworks.step h hagenda
  rw [List.append_assoc] at hnext
  exact ⟨told, hnext⟩

/-- Once a line is shown its actions may fire; nothing has been fired before. -/
theorem Showing.shown (h : Showing s session input rest flag x i n) (hx : Execution x)
    (hmove : Moves s (x i) session (.display moved key index)) :
    ∃ j f, i < j ∧ Task.KeepsFrames f ∧
      WorksOff (.fireShown s ⟨s, moved.generation, key, index⟩ :: input.behind) (rest.map f) x j n ∧
      ∀ k, i ≤ k → k < j → fired s (input.behind.length + rest.length) (x k) = none := by
  have hnone := dispatch_notMem_behind input
  obtain ⟨hmoved, before, hworks⟩ := h.leads hx hmove
  obtain ⟨j, f, hij, -, hf, hpresent, hbefore⟩ := hworks.split hx (by simpa using hnone)
  rw [List.map_cons, hf.eq_of_ne (by simp), map_behind hf] at hpresent
  obtain ⟨session', hs'⟩ := hx.session_of_le hmoved hij
  obtain ⟨told, hshows⟩ := hpresent.present hx hs'
  obtain ⟨l, g, hjl, -, hg, hfires, hshown⟩ := hshows.split hx (by simpa using hnone)
  rw [List.map_cons, hg.eq_of_ne (by simp), map_behind hg, List.map_map] at hfires
  refine ⟨l, g ∘ f, by omega, hf.comp hg, hfires, fun k hik hkl => ?_⟩
  -- The input, the line on its way to the display, the display at work.
  rcases Nat.lt_trichotomy k j with hlt | rfl | hgt
  · rcases Nat.lt_or_eq_of_le hik with hik | rfl
    · obtain ⟨nested, e, -, he, hagenda⟩ := hbefore k hik hlt
      exact fired_of_above hagenda he (by simp)
    · refine fired_of_length_le ?_
      rw [h.works.pushed, List.length_append, List.length_singleton]
      omega
  · refine fired_of_length_le ?_
    rw [hpresent.pushed, List.length_append, List.length_cons, List.length_map]
    omega
  · obtain ⟨nested, e, -, he, hagenda⟩ := hshown k hgt hkl
    have hfired := fired_of_above (s := s) hagenda he (by simp)
    rwa [List.length_map] at hfired

/-! ## Firing the actions of a line -/

variable {below : List Task} {line : LineRef} {all : List Action}
  {reached : List (Action × List HandlerId)} {called : List (HandlerId × String)}
  {handlers : String → List HandlerId}

theorem Multicast.exists_eq_append {hs made : List HandlerId} {param : String}
    {frame agenda : List Task} (h : Multicast hs param frame made agenda) :
    ∃ task above, agenda = task :: (above ++ frame) := by
  cases h with
  | next hsplit => exact ⟨_, [], rfl⟩
  | call hsplit => exact ⟨_, [_], rfl⟩
  | @during done waiting h above source steps hsplit =>
      cases above with
      | nil => exact ⟨_, [_], rfl⟩
      | cons task above =>
          exact ⟨task, above ++ [.script h source steps,
            .multicast (done ++ [h]) waiting param], by simp⟩

theorem Dispatching.fired_eq (h : Dispatching s line all below reached called m.agenda) :
    fired s below.length m = call? (below.length + 1) m := by
  obtain ⟨above, course, f, hagenda⟩ : ∃ above course f,
      m.agenda = above ++ .actions (.session s) course :: below.map f := by
    generalize m.agenda = agenda at h
    cases h with
    | between hreached hat hf => exact ⟨[], _, _, rfl⟩
    | reaching hreached hnext hat hf => exact ⟨[_], _, _, rfl⟩
    | calling hbefore hnext hat hf hcalls =>
        obtain ⟨task, above, rfl⟩ := hcalls.exists_eq_append
        exact ⟨task :: above, _, _, rfl⟩
  have hfired := fired_of_loop hagenda
  rwa [List.length_map] at hfired

/-- Actions that have all found the handlers of their tag lead to the calls of these. -/
theorem flatMap_callsFor (h : ∀ a hs, (a, hs) ∈ reached → hs = handlers a.tag) :
    reached.flatMap callsFor = callsOf handlers (reached.map Prod.fst) := by
  rw [callsOf, List.flatMap_map]
  refine List.flatMap_congr fun entry hentry => ?_
  rw [callsFor, h entry.1 entry.2 hentry]

theorem eq_of_reach? {depth : ℕ} {action : Action} {hs : List HandlerId}
    (h : reach? s depth m = some (action, hs)) : hs = m.world.handlersOf s action.tag := by
  unfold reach? at h
  split at h
  · split at h
    · obtain ⟨rfl, rfl⟩ := Prod.mk.inj (Option.some.inj h)
      rfl
    · exact absurd h (by simp)
  · exact absurd h (by simp)

/-- A loop over the actions of a line that comes to its end while the line and the handlers stay
as they are has called all of them. -/
theorem Execution.firedIn_loop (h : Execution x) (hin : i ≤ n)
    (hagenda : (x i).agenda = .actions (.session s) (.live line 0) :: below)
    (hs : (x i).world.session? s = some session)
    (hline : ∀ k, i ≤ k → k < n → ((x k).world.line line).actions = all)
    (hhandlers : ∀ k, i ≤ k → k < n → ∀ tag, (x k).world.handlersOf s tag = handlers tag)
    (hbusy : ∀ k, i ≤ k → k < n → below.length < (x k).agenda.length)
    (hover : (x n).agenda.length ≤ below.length)
    (hreturns : (x n).agenda ≠ [] ∧ ∀ b, (x n).agenda.head? ≠ some (.dispatch b)) :
    firedIn s below.length x i n = callsOf handlers all := by
  obtain ⟨l, rfl⟩ := Nat.exists_eq_add_of_le hin
  have hline' : ∀ k, k < l → ((x (i + k)).world.line line).actions = all :=
    fun k hk => hline (i + k) (by omega) (by omega)
  have hbusy' : ∀ k, k < l → below.length < (x (i + k)).agenda.length :=
    fun k hk => hbusy (i + k) (by omega) (by omega)
  -- All along, what is fired are the calls of this loop.
  have hfired : firedIn s below.length x i (i + l) =
      (stretch x i l).filterMap (call? (below.length + 1)) := by
    rw [firedIn, Nat.add_sub_cancel_left]
    refine List.filterMap_congr fun m hm => ?_
    obtain ⟨k, hk, rfl⟩ := mem_stretch hm
    rcases h.dispatching (n := k) hagenda hs (fun j hj => hline' j (by omega))
      (fun j hj => hbusy' j (by omega)) with hdispatching | ⟨j, rfl, hends⟩
    · exact hdispatching.fired_eq
    · have hlength := hends.length_le
      rw [← h.eq_step (List.ne_nil_of_length_pos (Nat.zero_lt_of_lt (hbusy' j (by omega))))]
        at hlength
      exact absurd (hbusy' (j + 1) hk) (Nat.not_lt.mpr hlength)
  obtain ⟨j, rfl, hends⟩ := (h.fires hagenda hs hline' hbusy').ended hover
  have hstep : x (i + (j + 1)) = (x (i + j)).step :=
    h.eq_step (List.ne_nil_of_length_pos (Nat.zero_lt_of_lt (hbusy' j (by omega))))
  rw [hfired]
  generalize hreached : (stretch x i (j + 1)).filterMap (reach? s below.length) = reached at hends
  generalize (stretch x i (j + 1)).filterMap (call? (below.length + 1)) = called at hends
  cases hends with
  | completed hall hagenda' hf hlast =>
      rw [flatMap_callsFor, hall]
      intro action hs hmem
      rw [← hreached, List.mem_filterMap] at hmem
      obtain ⟨m, hm, hreach⟩ := hmem
      obtain ⟨k, hk, rfl⟩ := mem_stretch hm
      rw [eq_of_reach? hreach, hhandlers (i + k) (by omega) (by omega)]
  | raised hreached failure hf hagenda' hlast =>
      rw [hstep, hlast, agenda_fail] at hreturns
      obtain ⟨-, -, -, hnil | ⟨b, under, hdispatch⟩⟩ := exists_eq_append_unwind _
      · exact absurd hnil hreturns.1
      · exact absurd (by rw [hdispatch]; rfl) (hreturns.2 b)

/-! ## With and without the setting -/

theorem Moves.handlersOf_eq {move : Session.Move} (hmove : Moves s m session move)
    (h : Sound m) (tag : String) : m.step.world.handlersOf s tag = m.world.handlersOf s tag := by
  have hnone : change? s m = none := by
    cases hmove <;> rename_i hhead <;> simp [change?, hhead]
  rw [h.handlersOf_step, handlersAfter, hnone, Option.elim_none]

/-- A session that is back from an input stands where the input has led it. -/
theorem Showing.sameSession (h : Showing s session input rest flag x i n) (hx : Execution x)
    (hmove : Moves s (x i) session (.display moved key index)) (hij : i < j) (hjn : j ≤ n) :
    ((x j).world.session? s).map Session.standing = some moved.standing ∧
      ∀ tag, (x j).world.handlersOf s tag = session.handlersOf tag := by
  have hmoved := (h.leads hx hmove).1
  have hsame := hx.sameSession hmoved hij fun k hik hkj => h.alone k (by omega) (by omega)
  refine ⟨by rw [hsame.standing, hmoved, Option.map_some], fun tag => ?_⟩
  rw [hsame.handlers, hx.eq_step (by simp [h.works.pushed]),
    hmove.handlersOf_eq (hx.reachable i).sound, World.handlersOf_eq h.session]

theorem Showing.line_eq (h : Showing s session input rest flag x i n) (hx : Execution x)
    (hmove : Moves s (x i) session (.display moved key index)) (hij : i < j) (hjn : j ≤ n)
    {line : LineRef} (hline : line.session = s) :
    (x j).world.line line = (moved.line? line).getD {} := by
  subst hline
  have hmoved := (h.leads hx hmove).1
  have hsame := hx.sameSession hmoved hij fun k hik hkj => h.alone k (by omega) (by omega)
  rw [hsame.line, World.line, hmoved]
  rfl

theorem step_fireShown {line : LineRef} (hagenda : m.agenda = .fireShown s line :: rest)
    (hs : m.world.session? s = some session) : m.step.agenda =
      (if m.world.firesShown s then [.actions (.session s) (.live line 0)] else []) ++ rest := by
  have hsetting : m.world.firesShown s = (m.world.configOf session).dispatchActionsOnDisplay := by
    rw [World.firesShown, hs]
    rfl
  rw [step_eq hagenda, hsetting]
  dsimp only [exec, fireShown]
  rw [hs]
  dsimp only
  split <;> rfl

/-- A session that is not to fire what it shows fires nothing. -/
theorem Showing.firedIn_of_unset (h : Showing s session input rest false x i n)
    (hx : Execution x) (hmove : Moves s (x i) session (.display moved key index)) :
    firedIn s (input.behind.length + rest.length) x i n = [] := by
  obtain ⟨j, f, hij, hf, hworks, hbefore⟩ := h.shown hx hmove
  obtain ⟨session', hs'⟩ := hx.session_of_le h.session hij.le
  have hstep : (x j).step.agenda = [] ++ (input.behind ++ rest.map f) := by
    rw [step_fireShown hworks.pushed hs', h.setting j hij.le hworks.lt]
    rfl
  have hbehind := hworks.step hx hstep
  refine firedIn_eq_nil fun k hik hkn => ?_
  rcases Nat.lt_trichotomy k j with hlt | rfl | hgt
  · exact hbefore k hik hlt
  · refine fired_of_length_le ?_
    rw [hworks.pushed, List.length_append, List.length_cons, List.length_map]
    omega
  · have hfired := hbehind.fired_behind (s := s) hx hgt hkn
    rwa [List.length_map] at hfired

/-- A session that is to fire what it shows calls the handlers of each action. -/
theorem Showing.firedIn_of_set (h : Showing s session input rest true x i n)
    (hx : Execution x) (hmove : Moves s (x i) session (.display moved key index)) :
    firedIn s (input.behind.length + rest.length) x i n =
      callsOf session.handlersOf
        ((moved.line? ⟨s, moved.generation, key, index⟩).getD {}).actions := by
  obtain ⟨j, f, hij, hf, hworks, hbefore⟩ := h.shown hx hmove
  obtain ⟨session', hs'⟩ := hx.session_of_le h.session hij.le
  have hstep : (x j).step.agenda = [.actions (.session s)
      (.live ⟨s, moved.generation, key, index⟩ 0)] ++ (input.behind ++ rest.map f) := by
    rw [step_fireShown hworks.pushed hs', h.setting j hij.le hworks.lt]
    rfl
  have hfires := hworks.step hx hstep
  have hnone := dispatch_notMem_behind input
  obtain ⟨l, g, hjl, hln, hg, hbehind, hloop⟩ := hfires.split hx hnone
  rw [map_behind hg] at hbehind
  have hlength : (input.behind ++ rest.map f).length = input.behind.length + rest.length := by
    rw [List.length_append, List.length_map]
  -- Nothing is fired before the loop and after it.
  have hfirst : firedIn s (input.behind.length + rest.length) x i (j + 1) = [] := by
    refine firedIn_eq_nil fun k hik hkj => ?_
    rcases Nat.lt_or_eq_of_le (Nat.le_of_lt_succ hkj) with hlt | rfl
    · exact hbefore k hik hlt
    · refine fired_of_length_le ?_
      rw [hworks.pushed, List.length_append, List.length_cons, List.length_map]
      omega
  have hlast : firedIn s (input.behind.length + rest.length) x l n = [] := by
    refine firedIn_eq_nil fun k hlk hkn => ?_
    have hfired := hbehind.fired_behind (s := s) hx hlk hkn
    rwa [List.length_map, List.length_map] at hfired
  rw [firedIn_split (by omega : i ≤ j + 1) (by omega : j + 1 ≤ n), firedIn_split hjl hln, hfirst,
    hlast, List.nil_append, List.append_nil, ← hlength]
  obtain ⟨session'', hs''⟩ := hx.session_of_le hs' (Nat.le_add_right j 1)
  refine hx.firedIn_loop hjl (by rw [hfires.pushed]; rfl) hs'' (fun k hjk hkl => ?_)
    (fun k hjk hkl => (h.sameSession hx hmove (by omega) (by omega)).2) (fun k hjk hkl => ?_) ?_
    (hbehind.normal_tasks hnone)
  · rw [h.line_eq hx hmove (by omega) (by omega) rfl]
  · obtain ⟨nested, e, hne, -, hagenda⟩ := hloop k hjk hkl
    have hpos := List.length_pos_of_ne_nil hne
    simp only [hagenda, List.length_append, List.length_map]
    omega
  · simp only [hbehind.pushed, List.length_append, List.length_map, le_refl]

end Machine

end Parley
