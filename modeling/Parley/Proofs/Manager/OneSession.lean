import Parley.Proofs.Manager.Tidy

/-!
# One session per display

When a manager starts a conversation on a display, the session that it started there before is
finished first.  As long as no conversation is started on that display in the meantime, nor
while the manager ends all of its sessions, there are never two of them running on one display.
-/

namespace Parley.Machine

variable {x : ℕ → Machine} {n : ℕ} {m : Machine} {id : ManagerId} {s t : SessionId}
  {Made : SessionId → Prop}

/-- The session that the next step makes for a manager. -/
def launchedBy (id : ManagerId) (m : Machine) : Option SessionId :=
  match m.agenda with
  | .launch other .. :: _ =>
    if other = id ∧ (m.world.manager? id).isSome then some ⟨m.world.sessions.length⟩ else none
  | _ => none

/-- The next step starts a conversation on a display on which the manager is starting one
already, or while it is ending all of its sessions. -/
def overlaps (id : ManagerId) (m : Machine) : Bool :=
  match m.agenda with
  | .perform (.manager (.start _ title _ _)) :: rest =>
    m.world.manager = some id && rest.any (Task.blocks id title)
  | _ => false

/-- A manager has made a session. -/
def MadeBy (id : ManagerId) (x : ℕ → Machine) (n : ℕ) (s : SessionId) : Prop :=
  ∃ i < n, launchedBy id (x i) = some s

/-! ## Every step -/

theorem Sound.stays_of_manages {task : Task} {rest : List Task} (h : Sound m)
    (hagenda : m.agenda = task :: rest) (htask : task.manages id = true) : Stays m m.step := by
  refine h.stays fun d title hd => ?_
  rw [step_eq hagenda]
  cases task with
  | launch other graph d' title' node name => exact (titleOf_launch ..).trans hd
  | forget other => exact hd
  | _ => exact absurd htask (by simp [Task.manages])

theorem launchedBy_eq_none {task : Task} {rest : List Task} (hagenda : m.agenda = task :: rest)
    (htask : task.manages id = false) : launchedBy id m = none := by
  rw [launchedBy, hagenda]
  cases task with
  | launch other graph d title node name =>
      have hne : ¬ other = id := by simpa [Task.manages] using htask
      simp [hne]
  | _ => rfl

/-- A step of the host comes onto an empty agenda. -/
theorem Tidy.host (h : Tidy id Made m) (hagenda : m.agenda = []) (step : Step) :
    Tidy id Made { world := m.world, agenda := [.perform step] } where
  titled := h.titled
  placed := h.placed
  recorded s title hs hrunning htitle :=
    .inl ((h.recorded s title hs hrunning htitle).resolve_right fun hleft =>
      absurd hleft.1.choose_spec (by simp [hagenda]))
  free _ _ _ _ _ hmem := absurd hmem (by simp)
  ordered := List.pairwise_singleton ..
  doomed _ _ _ := ⟨fun hforgets => absurd hforgets (by simp [Task.forgets]), trivial⟩

theorem Tidy.step (h : Tidy id Made m) (hsound : Sound m) (halone : overlaps id m = false) :
    Tidy id (fun s => Made s ∨ launchedBy id m = some s) m.step := by
  have hnone : launchedBy id m = none → Tidy id Made m.step →
      Tidy id (fun s => Made s ∨ launchedBy id m = some s) m.step := fun hnone h' =>
    h'.anti fun s hs => hs.resolve_right (by simp [hnone])
  cases hagenda : m.agenda with
  | nil =>
      rw [step_of_agenda_eq_nil hagenda]
      exact h.anti fun s hs => hs.resolve_right (by simp [launchedBy, hagenda])
  | cons task rest =>
      cases htask : task.manages id with
      | false =>
          refine hnone (launchedBy_eq_none hagenda htask) ?_
          cases hsound.deals hagenda htask with
          | aside htends hcarries => exact h.aside (hsound.stays htends.title) htends hcarries
          | ending _ htends hall hnext =>
              exact h.ending (hsound.stays htends.title) htends hall hnext
          | starting hhead hcurrent hid hdisplay hworld hbefore hafter hfirst hnext =>
              refine h.starting (hsound.stays fun d title hd => by rw [hworld]; exact hd) hid
                hdisplay hworld hbefore hafter hfirst hnext fun t ht => ?_
              rw [hagenda, List.head?_cons, Option.some.injEq] at hhead
              rw [overlaps, hagenda, hhead] at halone
              rw [hagenda] at ht
              simpa [hcurrent] using List.any_eq_false.mp (by simpa [hcurrent] using halone) t ht
      | true =>
          have hstays := hsound.stays_of_manages hagenda htask
          cases task with
          | launch other graph d title node name =>
              obtain rfl : other = id := by simpa [Task.manages] using htask
              cases hid : m.world.manager? other with
              | some manager =>
                  have hlaunched : launchedBy other m = some ⟨m.world.sessions.length⟩ := by
                    simp [launchedBy, hagenda, hid]
                  refine (h.launch hstays hagenda hid).anti fun s hs => ?_
                  exact hs.imp_right fun hnew => Option.some.inj (hlaunched.symm.trans hnew)
              | none =>
                  refine hnone (by simp [launchedBy, hagenda, hid]) ?_
                  have hfail : m.step = fail { m with agenda := rest } .unknownName := by
                    rw [step_eq hagenda]
                    exact launch_of_manager?_eq_none (m := { m with agenda := rest }) hid ..
                  refine h.aside hstays ?_ ?_
                  · rw [hfail, world_fail]
                    exact .refl _ _
                  · rw [hfail]
                    exact carries_fail _ (by rw [hagenda]; rfl) _
          | forget other =>
              obtain rfl : other = id := by simpa [Task.manages] using htask
              exact hnone (by simp [launchedBy, hagenda]) (h.forget hstays hagenda)
          | _ => exact absurd htask (by simp [Task.manages])

/-! ## Every execution -/

theorem Execution.tidy (h : Execution x) (htitled : (x 0).world.Titled id)
    (halone : ∀ i < n, overlaps id (x i) = false) : Tidy id (MadeBy id x n) (x n) := by
  induction n with
  | zero =>
      have hnone : ∀ s, ¬ MadeBy id x 0 s := fun s hs => absurd hs.choose_spec.1 (by simp)
      exact {
        titled := htitled
        placed s hs := absurd hs (hnone s)
        recorded s _ hs := absurd hs (hnone s)
        free _ _ _ _ _ hmem := absurd hmem (by simp [h.initial.agenda])
        ordered := h.initial.agenda ▸ .nil
        doomed s hs := absurd hs (hnone s) }
  | succ n ih =>
      have hnow := ih fun i hi => halone i (Nat.lt_succ_of_lt hi)
      have hmade : ∀ s, MadeBy id x (n + 1) s →
          MadeBy id x n s ∨ launchedBy id (x n) = some s := by
        rintro s ⟨i, hi, hs⟩
        rcases Nat.lt_succ_iff_lt_or_eq.mp hi with hlt | rfl
        · exact .inl ⟨i, hlt, hs⟩
        · exact .inr hs
      generalize hnext : x (n + 1) = m
      cases (hnext ▸ h.next n : Next (x n) m) with
      | step =>
          exact (hnow.step (h.reachable n).sound (halone n (Nat.lt_succ_self n))).anti hmade
      | host hagenda step =>
          refine (hnow.host hagenda step).anti fun s hs => (hmade s hs).resolve_right ?_
          simp [launchedBy, hagenda]

/-- If no conversation is started on a display while the manager is starting one there or ending
all of its sessions, then no two sessions that it has made run under one title at the same time,
let alone on one display. -/
theorem one_session_per_display (h : Execution x) (htitled : (x 0).world.Titled id)
    (halone : ∀ i < n, overlaps id (x i) = false) (hs : MadeBy id x n s) (ht : MadeBy id x n t)
    (hsrunning : (x n).world.running s = true) (htrunning : (x n).world.running t = true)
    (htitle : (x n).world.titleOn s = (x n).world.titleOn t) : s = t :=
  (h.tidy htitled halone).eq_of_titleOn hs ht hsrunning htrunning htitle

/-- A conversation of two lines. -/
def story : Json.Value :=
  .array [.object [("title", .string "A"), ("body", .string "one\ntwo")]]

/-- A host that starts a conversation on another display when the first one is closed to make
room. -/
def restarted : ℕ → Machine :=
  course { world := World.ofHandlers [
      ("other", [(1, [.manager (.start "k" "e" none "s2")])])] }
    [.newDisplay "c" "c" (.recording {} false),
      .newDisplay "e" "e" (.recording {} false),
      .newManager none,
      .manager (.register "c"),
      .manager (.register "e"),
      .manager (.add "k" story),
      .manager (.start "k" "c" none "s1"),
      .bus (.session "s1") (.subscribe (.dialogue .contextClosed) "other" 0 false false),
      .manager (.start "k" "c" none "s3")]

theorem one_session_per_display_restarted :
    Execution restarted ∧ (restarted 44).agenda = [] ∧ MadeBy ⟨0⟩ restarted 44 ⟨0⟩ ∧
      MadeBy ⟨0⟩ restarted 44 ⟨2⟩ ∧
      ∀ s, MadeBy ⟨0⟩ restarted 44 s → (restarted 44).world.running s = true →
        (restarted 44).world.titleOn s = some "c" → s = ⟨2⟩ := by
  have h : Execution restarted := execution_course (initial_ofHandlers _) _
  have hrest : (restarted 44).agenda.isEmpty = true := by decide +kernel
  have hnone : (restarted 0).world.manager? ⟨0⟩ = none := rfl
  have hmade : MadeBy ⟨0⟩ restarted 44 ⟨2⟩ := ⟨41, by omega, by decide +kernel⟩
  refine ⟨h, List.isEmpty_iff.mp hrest, ⟨14, by omega, by decide +kernel⟩, hmade,
    fun s hs hrunning htitle => ?_⟩
  refine one_session_per_display h (fun manager _ _ hid => ?_) (by decide +kernel) hs hmade hrunning
    (by decide +kernel) (htitle.trans (by decide +kernel))
  exact absurd (hnone.symm.trans hid) (by simp)

/-- A host that starts the conversation again when it is closed to make room. -/
def again : ℕ → Machine :=
  course { world := World.ofHandlers [
      ("again", [(1, [.manager (.start "k" "c" none "s2")])])] }
    [.newDisplay "c" "c" (.recording {} false),
      .newManager none,
      .manager (.register "c"),
      .manager (.add "k" story),
      .manager (.start "k" "c" none "s1"),
      .bus (.session "s1") (.subscribe (.dialogue .contextClosed) "again" 0 false false),
      .manager (.start "k" "c" none "s3")]

/-- Otherwise two unfinished sessions of a manager can be on one display at rest. -/
theorem two_sessions_on_display :
    Execution again ∧ (again 40).agenda = [] ∧ MadeBy ⟨0⟩ again 40 ⟨1⟩ ∧
      MadeBy ⟨0⟩ again 40 ⟨2⟩ ∧ (again 40).world.running ⟨1⟩ = true ∧
      (again 40).world.running ⟨2⟩ = true ∧
      ((again 40).world.session? ⟨1⟩).map (·.display) = some ⟨0⟩ ∧
      ((again 40).world.session? ⟨2⟩).map (·.display) = some ⟨0⟩ := by
  have hrest : (again 40).agenda.isEmpty = true := by decide +kernel
  exact ⟨execution_course (initial_ofHandlers _) _, List.isEmpty_iff.mp hrest,
    ⟨29, by omega, by decide +kernel⟩, ⟨37, by omega, by decide +kernel⟩, by decide +kernel,
    by decide +kernel, by decide +kernel, by decide +kernel⟩

end Parley.Machine
