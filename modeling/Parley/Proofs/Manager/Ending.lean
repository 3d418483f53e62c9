import Parley.Proofs.Machine.Calls
import Parley.Proofs.Manager.OneSession
import Parley.Proofs.Session.Closing

/-!
# Ending all sessions

When a manager is asked to end all of its sessions, it makes a list of those that it has on
record and that run, finishes one after the other, and forgets all records in the end.  Whatever
the host does in between, the sessions on the list are finished when the manager comes to that.
One that is started while the others are being finished is not on the list, but goes on record
and is forgotten with the rest while it runs (`forgotten_while_running`).  If none is, nothing
that the manager has ever made runs any longer (`all_sessions_ended`).

## Strategy

The end of every session on the list is put on the agenda at once, above the forgetting.  So it
has been reached by then (`Execution.reached_of_worksOff`), and a finished session stays so.
That all sessions that run are on the list is known from `Tidy`.
-/

namespace Parley.Machine

variable {x : ℕ → Machine} {m : Machine} {id : ManagerId} {s : SessionId} {title : String}
  {rest : List Task} {i j n : ℕ}

/-- A manager is asked at time `i` to end all of its sessions, and comes at time `n` to the last
thing there is to do for that, which is to forget them.  It does not come there if a session
could not be finished. -/
structure EndsAll (id : ManagerId) (x : ℕ → Machine) (i n : ℕ) : Prop where
  current : (x i).world.manager = some id
  asked : (x i).agenda.head? = some (.perform (.manager .endAll))
  later : i < n
  busy : ∀ j, i < j → j < n → (x i).agenda.length + 1 < (x j).agenda.length
  /-- Forgetting and giving the answer have taken the place of the step. -/
  done : (x n).agenda.length = (x i).agenda.length + 1

/-- The tasks that end the sessions of a list. -/
def finishing (sessions : List SessionId) : List Task :=
  sessions.flatMap (fun s => [.finish s none, .leave s]) ++ sessions.map .hold

theorem finish_mem_finishing {sessions : List SessionId} (h : s ∈ sessions) :
    .finish s none ∈ finishing sessions :=
  List.mem_append_left _ (List.mem_flatMap.mpr ⟨s, h, List.mem_cons_self⟩)

theorem dispatch_notMem_finishing (b : BusId) (sessions : List SessionId) :
    .dispatch b ∉ finishing sessions := by
  simp [finishing]

/-! ## Sessions that are finished -/

theorem exists_of_running (h : m.world.running s = true) :
    ∃ session, m.world.session? s = some session := by
  rw [World.running, Option.any_eq_true] at h
  exact h.imp fun _ => And.left

theorem Execution.not_running_of_le (h : Execution x) {session : Session}
    (hs : (x i).world.session? s = some session) (hfinished : (x i).world.running s = false)
    (hij : i ≤ j) : (x j).world.running s = false := by
  have hdone : session.finished = true := by simpa [World.running, hs] using hfinished
  obtain ⟨session', hs', hdone'⟩ := h.finished_of_le hs hdone hij
  simp [World.running, hs', hdone']

/-- A session that has been about to be finished does not run afterwards. -/
theorem Execution.not_running_of_reached (h : Execution x) {session : Session}
    (hs : (x i).world.session? s = some session)
    (hreached : ReachedIn x (i + 1) n (.finish s none)) : (x n).world.running s = false := by
  obtain ⟨j, hi, hj, f, hf, hhead⟩ := hreached
  have hsame : f (.finish s none) = .finish s none := by
    rcases hf (.finish s none) with heq | ⟨sink, course, course', habsurd, -⟩
    · exact heq
    · exact absurd habsurd (by simp)
  rw [hsame] at hhead
  have hstep : x (j + 1) = (x j).step :=
    h.eq_step fun hnil => absurd hhead (by simp [hnil])
  have hleft : (x (j + 1)).world.running s = false := by
    rw [hstep]
    exact Leaving.not_running ⟨none, hhead⟩
  obtain ⟨session', hsession'⟩ := h.session_of_le hs (show i ≤ j + 1 by omega)
  exact h.not_running_of_le hsession' hleft (show j + 1 ≤ n by omega)

/-! ## The call -/

/-- All that is done to end the sessions, before they are forgotten. -/
theorem EndsAll.exists_worksOff (h : Execution x) (hends : EndsAll id x i n) :
    ∃ manager rest, (x i).world.manager? id = some manager ∧
      WorksOff (finishing (activeSessions (x i).world manager).values)
        (.forget id :: .answer .nothing :: rest) x (i + 1) n := by
  obtain ⟨rest, hagenda⟩ := List.head?_eq_some_iff.mp hends.asked
  have hlength : (x i).agenda.length = rest.length + 1 := by rw [hagenda, List.length_cons]
  have hstep : x (i + 1) = (x i).step := h.eq_step (by rw [hagenda]; simp)
  have hnext : rest.length + 2 ≤ (x (i + 1)).agenda.length := by
    rcases Nat.lt_or_ge (i + 1) n with hlt | hge
    · have := hends.busy (i + 1) (by omega) hlt
      omega
    · obtain rfl : i + 1 = n := by have := hends.later; omega
      rw [hends.done, hlength]
  cases hid : (x i).world.manager? id with
  -- Without a manager the step fails and leaves no more than the rest.
  | none =>
      have hfail : (x i).step = fail { x i with agenda := rest } .unknownName := by
        rw [step_eq hagenda]
        simp only [exec, perform, hends.current, Option.bind_some, hid, Option.map_none]
      obtain ⟨before, hcut, -⟩ := exists_eq_append_unwind rest
      rw [hstep, hfail, agenda_fail] at hnext
      have := congrArg List.length hcut
      rw [List.length_append] at this
      dsimp only at hnext
      omega
  | some manager =>
      refine ⟨manager, rest, rfl, ?_⟩
      constructor
      case pushed =>
        rw [hstep, step_eq hagenda]
        simp only [exec, perform, hends.current, Option.bind_some, hid, Option.map_some]
        simp [performManager, push, performManager.set, withWorld, finishing]
      case later => exact hends.later
      case busy =>
        intro j hi hj
        have := hends.busy j (by omega) hj
        simp only [List.length_cons]
        omega
      case done => rw [hends.done, hlength]; rfl
      case normal => simp

/-- Every session on record that runs when the call begins has been finished when the manager
comes to forget it. -/
theorem EndsAll.not_running (h : Execution x) (hends : EndsAll id x i n)
    (hrecord : (x i).world.record id title = some s) (hrunning : (x i).world.running s = true) :
    (x n).world.running s = false := by
  obtain ⟨manager, rest, hid, hworks⟩ := hends.exists_worksOff h
  have hmem : s ∈ (activeSessions (x i).world manager).values := by
    rw [World.record_of_manager? hid] at hrecord
    exact Table.mem_values_of_get? (get?_activeSessions hrecord hrunning)
  obtain ⟨hreached, -⟩ := h.reached_of_worksOff hworks fun b => dispatch_notMem_finishing b _
  obtain ⟨session, hs⟩ := exists_of_running hrunning
  exact h.not_running_of_reached hs (hreached _ (finish_mem_finishing hmem))

/-- The call has come to forgetting the sessions. -/
theorem EndsAll.head?_eq (h : Execution x) (hends : EndsAll id x i n) :
    (x n).agenda.head? = some (.forget id) := by
  obtain ⟨manager, rest, -, hworks⟩ := hends.exists_worksOff h
  obtain ⟨-, f, hf, hagenda⟩ :=
    h.reached_of_worksOff hworks fun b => dispatch_notMem_finishing b _
  rcases hf (.forget id) with heq | ⟨sink, course, course', habsurd, -⟩
  · rw [hagenda, List.map_cons, heq]
    rfl
  · exact absurd habsurd (by simp)

/-- If the manager makes no session in the course of the call, then all that it has made were
there when the call began. -/
theorem EndsAll.madeBy (h : Execution x) (hends : EndsAll id x i n)
    (hnone : ∀ j, i < j → j < n → launchedBy id (x j) = none) (hs : MadeBy id x (n + 1) s) :
    MadeBy id x i s := by
  obtain ⟨j, hj, hlaunched⟩ := hs
  rcases Nat.lt_trichotomy j i with hlt | rfl | hgt
  · exact ⟨j, hlt, hlaunched⟩
  · obtain ⟨rest, hagenda⟩ := List.head?_eq_some_iff.mp hends.asked
    rw [launchedBy_eq_none hagenda (by rfl)] at hlaunched
    exact absurd hlaunched (by simp)
  · rcases Nat.lt_succ_iff_lt_or_eq.mp hj with hlt | rfl
    · rw [hnone j hgt hlt] at hlaunched
      exact absurd hlaunched (by simp)
    · obtain ⟨rest, hagenda⟩ := List.head?_eq_some_iff.mp (hends.head?_eq h)
      rw [launchedBy, hagenda] at hlaunched
      exact absurd hlaunched (by simp)

/-- When a manager has ended its sessions, those that it had on record when it was asked to are
finished, whatever the host has done in the meantime.  So is every session that the manager has
ever made, provided that it has made none in the meantime, and has never before started a
conversation on a display while starting one there or ending all. -/
theorem all_sessions_ended (h : Execution x) (hends : EndsAll id x i n) :
    (∀ title s, (x i).world.record id title = some s → (x i).world.running s = true →
        (x (n + 1)).world.running s = false) ∧
      ((x 0).world.Titled id → (∀ j < i, overlaps id (x j) = false) →
        (∀ j, i < j → j < n → launchedBy id (x j) = none) →
        ∀ s, MadeBy id x (n + 1) s → (x (n + 1)).world.running s = false) := by
  have hrecorded : ∀ title s, (x i).world.record id title = some s →
      (x i).world.running s = true → (x (n + 1)).world.running s = false := by
    intro title s hrecord hrunning
    obtain ⟨session, hs⟩ := exists_of_running hrunning
    obtain ⟨session', hs'⟩ := h.session_of_le hs hends.later.le
    exact h.not_running_of_le hs' (hends.not_running h hrecord hrunning) (Nat.le_succ n)
  refine ⟨hrecorded, fun htitled halone hnone s hs => ?_⟩
  have hmade := hends.madeBy h hnone hs
  have htidy := h.tidy htitled halone
  obtain ⟨title, hplace⟩ := htidy.placed s hmade
  cases hrunning : (x i).world.running s with
  | true =>
      have hstays : ¬ Leaving s (x i) := by
        rintro ⟨onComplete, hhead⟩
        exact absurd (hhead.symm.trans hends.asked) (by simp)
      have hrecord := (htidy.recorded s title hmade hrunning hplace).resolve_right
        fun hleft => hstays hleft.1
      exact hrecorded title s hrecord hrunning
  | false =>
      obtain ⟨session, hsession, -⟩ := Option.bind_eq_some_iff.mp hplace
      exact h.not_running_of_le hsession hrunning (show i ≤ n + 1 by have := hends.later; omega)

/-! ## Two hosts -/

/-- A host with two conversations, where the closing of the first makes it finish the second. -/
def together : ℕ → Machine :=
  course { world := World.ofHandlers [
      ("both", [(1, [.session "s2" (.finish none)])])] }
    [.newDisplay "c" "c" (.recording {} false),
      .newDisplay "d" "d" (.recording {} false),
      .newManager none,
      .manager (.register "c"),
      .manager (.register "d"),
      .manager (.add "k" story),
      .manager (.start "k" "c" none "s1"),
      .manager (.start "k" "d" none "s2"),
      .bus (.session "s1") (.subscribe (.dialogue .contextClosed) "both" 0 false false),
      .manager .endAll]

theorem all_sessions_ended_together :
    Execution together ∧ EndsAll ⟨0⟩ together 23 60 ∧ MadeBy ⟨0⟩ together 61 ⟨0⟩ ∧
      MadeBy ⟨0⟩ together 61 ⟨1⟩ ∧
      ∀ s, MadeBy ⟨0⟩ together 61 s → (together 61).world.running s = false := by
  have h : Execution together := execution_course (initial_ofHandlers _) _
  have hbusy : ∀ j < 60, 23 < j → (together 23).agenda.length + 1 < (together j).agenda.length := by
    decide +kernel
  have hends : EndsAll ⟨0⟩ together 23 60 :=
    ⟨rfl, rfl, by omega, fun j hi hj => hbusy j hj hi, by decide +kernel⟩
  have hlaunched : ∀ j < 60, 23 < j → launchedBy ⟨0⟩ (together j) = none := by decide +kernel
  have hnone : (together 0).world.manager? ⟨0⟩ = none := rfl
  refine ⟨h, hends, ⟨14, by omega, by decide +kernel⟩, ⟨18, by omega, by decide +kernel⟩, ?_⟩
  refine (all_sessions_ended h hends).2 (fun manager _ _ hid => ?_) (by decide +kernel)
    fun j hi hj => hlaunched j hj hi
  exact absurd (hnone.symm.trans hid) (by simp)

/-- A host that starts a conversation on another display when the first one is closed. -/
def meanwhile : ℕ → Machine :=
  course { world := World.ofHandlers [
      ("other", [(1, [.manager (.start "k" "d" none "s2")])])] }
    [.newDisplay "c" "c" (.recording {} false),
      .newDisplay "d" "d" (.recording {} false),
      .newManager none,
      .manager (.register "c"),
      .manager (.register "d"),
      .manager (.add "k" story),
      .manager (.start "k" "c" none "s1"),
      .bus (.session "s1") (.subscribe (.dialogue .contextClosed) "other" 0 false false),
      .manager .endAll]

/-- A session that is made while a manager ends the others runs on, and is forgotten. -/
theorem forgotten_while_running :
    Execution meanwhile ∧ EndsAll ⟨0⟩ meanwhile 19 42 ∧ (meanwhile 44).agenda = [] ∧
      MadeBy ⟨0⟩ meanwhile 44 ⟨1⟩ ∧ (meanwhile 44).world.running ⟨1⟩ = true ∧
      ((meanwhile 44).world.manager? ⟨0⟩).map (fun manager => manager.sessions.keys) =
        some [] := by
  have hbusy : ∀ j < 42, 19 < j →
      (meanwhile 19).agenda.length + 1 < (meanwhile j).agenda.length := by
    decide +kernel
  have hrest : (meanwhile 44).agenda.isEmpty = true := by decide +kernel
  exact ⟨execution_course (initial_ofHandlers _) _,
    ⟨rfl, rfl, by omega, fun j hi hj => hbusy j hj hi, by decide +kernel⟩,
    List.isEmpty_iff.mp hrest, ⟨33, by omega, by decide +kernel⟩, by decide +kernel,
    by decide +kernel⟩

end Parley.Machine
