import Parley.Proofs.Bus.Reception
import Parley.Proofs.Session.Due

/-!
# Calls of the display and their reports

When a session calls its display, the event that reports the call waits on the agenda right below
the call (`Told`).  Whatever is done in the course of the call, the report stays there, and a
failure that takes it away takes the call away with it (`Calling`).  So if all calls return, the
events that are published on the bus of the session are the reports of its calls, besides those
that the host has published there itself (`CallsReturn.published_perm`).

## Strategy

A step adds the reports of the calls that it makes to those that wait (`Sound.reports_added`), and
takes away the one that it publishes.  None is lost, because until a call returns, the agenda is
longer than it is below the call.
-/

namespace Parley

/-! ## Reports on the agenda -/

namespace Task

/-- The event that reports a call of a display. -/
def notice? : Task → Option (Event LineRef)
  | .showNode _ title =>
    some { type := .dialogue .nodeEntered, data := [("node", .node title)] }
  | .showLine _ line =>
    some { type := .dialogue .lineDisplayed, data := [("line", .line line)] }
  | .showOver _ => some { type := .dialogue .dialogueOver }
  | _ => none

/-- The event that a task publishes on a bus. -/
def report? (b : BusId) : Task → Option (Event LineRef)
  | .publish c event => if c = b then some event else none
  | _ => none

/-- The events that an agenda is going to publish on a bus. -/
def reports (b : BusId) (agenda : List Task) : List (Event LineRef) :=
  agenda.filterMap (report? b)

variable {b : BusId} {task : Task} {event : Event LineRef} {tasks agenda rest : List Task}
  {f : Task → Task}

theorem report?_eq_some : task.report? b = some event ↔ task = .publish b event := by
  cases task <;> simp [report?]

theorem reports_append (b : BusId) (tasks agenda : List Task) :
    reports b (tasks ++ agenda) = reports b tasks ++ reports b agenda :=
  List.filterMap_append

theorem mem_reports : event ∈ reports b agenda ↔ .publish b event ∈ agenda := by
  simp [reports, report?_eq_some]

theorem KeepsFrames.report? (hf : KeepsFrames f) (task : Task) :
    (f task).report? b = task.report? b := by
  rcases hf task with heq | ⟨sink, course, course', rfl, heq⟩ <;> rw [heq]
  rfl

theorem reports_map (hf : KeepsFrames f) (agenda : List Task) :
    reports b (agenda.map f) = reports b agenda := by
  have hreport : Task.report? b ∘ f = Task.report? b := funext hf.report?
  rw [reports, List.filterMap_map, hreport, reports]

/-- A task of publishing is found again where it was. -/
theorem KeepsFrames.eq_append (hf : KeepsFrames f) {before below : List Task}
    (h : agenda.map f = before ++ .publish b event :: below) :
    ∃ before' below', agenda = before' ++ .publish b event :: below' ∧
      below'.length = below.length := by
  obtain ⟨before', tail, rfl, -, htail⟩ := List.map_eq_append_iff.mp h
  obtain ⟨task, below', rfl, htask, rfl⟩ := List.map_eq_cons_iff.mp htail
  have hpublish := (report?_eq_some (b := b)).mpr htask
  rw [hf.report?, report?_eq_some] at hpublish
  exact ⟨before', below', by rw [hpublish], by simp⟩

end Task

namespace Machine

variable {x : ℕ → Machine} {m : Machine} {s : SessionId} {session : Session} {task : Task}
  {rest : List Task} {b : BusId} {type : EventType} {cue : Cue} {i j n : ℕ}

/-- The events that the host itself is about to publish on a bus. -/
def forged (b : BusId) (m : Machine) : List (Event LineRef) :=
  match m.agenda.head? with
  | some (.perform _) => Task.reports b m.added
  | _ => []

theorem forged_eq_nil (hagenda : m.agenda = task :: rest) (htask : ∀ step, task ≠ .perform step) :
    forged b m = [] := by
  rw [forged, hagenda]
  cases task with
  | perform step => exact absurd rfl (htask step)
  | _ => rfl

theorem reports_eq_published_append (hagenda : m.agenda = task :: rest) :
    Task.reports b m.agenda = published b m ++ Task.reports b rest := by
  rw [hagenda, Task.reports, List.filterMap_cons, published, hagenda]
  cases task with
  | publish c event => by_cases hc : c = b <;> simp [Task.report?, hc, Task.reports]
  | _ => rfl

/-! ## What a session leaves behind a call -/

/-- A step of a session calls nobody and reports nothing, or calls its display and has the report
of the call wait below. -/
inductive Told (s : SessionId) (m : Machine) : Prop
  | silent (hasked : asked s m = []) (hreports : Task.reports (.session s) m.added = [])
  | calls {call : Task} {event : Event LineRef} {after : List Task} (hasked : asked s m = [call])
      (hnotice : call.notice? = some event)
      (hadded : m.added = call :: .publish (.session s) event :: after)
      (hafter : Task.reports (.session s) after = [])

theorem asked_of_actor (hagenda : m.agenda = task :: rest) (hactor : task.actor? = some s) :
    asked s m = m.added.filter Task.isCall := by
  rw [asked, hagenda]
  exact if_pos hactor

theorem asked_of_not_actor (hagenda : m.agenda = task :: rest) (hactor : task.actor? ≠ some s) :
    asked s m = [] := by
  rw [asked, hagenda]
  exact if_neg hactor

/-- A step that fails puts nothing on the agenda. -/
theorem added_of_fail {m' : Machine} {failure : Failure} (hagenda : m.agenda = task :: rest)
    (hm' : m'.agenda = rest) (hstep : m.step = m'.fail failure) : m.added = [] := by
  apply added_eq_nil hagenda
  obtain ⟨before, hcut, -⟩ := exists_eq_append_unwind rest
  have hlength := congrArg List.length hcut
  rw [List.length_append] at hlength
  rw [hstep, agenda_fail, hm']
  omega

/-- A session that is not there does nothing. -/
theorem added_of_missing (hagenda : m.agenda = task :: rest) (hactor : task.actor? = some s)
    (hs : m.world.session? s = none) : m.added = [] := by
  suffices hstep : m.step = fail { m with agenda := rest } .unknownName from
    added_of_fail hagenda rfl hstep
  rw [step_eq hagenda]
  rcases Task.actor?_eq_some hactor with ⟨cue, rfl⟩ | ⟨line, rfl⟩
  · cases cue with
    | start title => simp only [Cue.task, exec, start, hs]
    | proceed => simp only [Cue.task, exec, proceed, hs]
    | follow option destination => simp only [Cue.task, exec, follow, hs]
  · simp only [exec, present, hs]

/-- Some input puts the tasks of its move on the agenda; a move that fails has none. -/
theorem added_of_cue (hagenda : m.agenda = cue.task s :: rest)
    (hs : m.world.session? s = some session) :
    m.added = cue.tasks s (cue.move (m.world.configOf session) session) := by
  by_cases hfail : ∃ moved failure,
      cue.move (m.world.configOf session) session = .fail moved failure
  · obtain ⟨moved, failure, hmove⟩ := hfail
    have hstep : m.step = ({ m with agenda := rest }.setSession s moved).fail failure := by
      rw [step_of_cue hagenda hs, hmove]
      rfl
    rw [hmove, added_of_fail hagenda rfl hstep]
    rfl
  · have hstep :=
      agenda_of_cue hagenda hs fun moved failure hmove => hfail ⟨moved, failure, hmove⟩
    rw [added_eq hagenda hstep, (alone_of_cue hagenda hs).1]

/-- Some input makes its session call its display at most once. -/
theorem told_of_cue (hagenda : m.agenda = cue.task s :: rest)
    (hs : m.world.session? s = some session) : Told s m := by
  have hadded := added_of_cue hagenda hs
  have hasked := asked_of_actor hagenda (Task.actor?_task s cue)
  rw [hadded] at hasked
  generalize cue.move (m.world.configOf session) session = move at hadded hasked
  cases move with
  | refuse entry => exact .silent hasked (by rw [hadded]; rfl)
  | fail moved failure => exact .silent hasked (by rw [hadded]; rfl)
  | ended moved => exact .calls hasked rfl hadded rfl
  | display moved key index =>
      cases cue with
      | start title => exact .calls hasked rfl hadded rfl
      | proceed => exact .silent hasked (by rw [hadded]; rfl)
      | follow option destination => exact .silent hasked (by rw [hadded]; rfl)

theorem told_of_present {line : LineRef} (hagenda : m.agenda = .present s line :: rest)
    (hs : m.world.session? s = some session) : Told s m :=
  .calls (asked_present hs hagenda) rfl (added_eq hagenda (agenda_of_present hs hagenda)) rfl

theorem told_of_actor (hagenda : m.agenda = task :: rest) (hactor : task.actor? = some s) :
    Told s m := by
  cases hs : m.world.session? s with
  | none =>
      have hadded := added_of_missing hagenda hactor hs
      exact .silent (by rw [asked_of_actor hagenda hactor, hadded]; rfl) (by rw [hadded]; rfl)
  | some session =>
      rcases Task.actor?_eq_some hactor with ⟨cue, rfl⟩ | ⟨line, rfl⟩
      · exact told_of_cue hagenda hs
      · exact told_of_present hagenda hs

/-! ## What others publish on the bus of a session -/

/-- What is put on the agenda to be published on the bus of a session is a report of the session,
or the host has published it, or the session has closed. -/
theorem Sound.yields_added (h : Sound m) (hagenda : m.agenda = task :: rest) :
    ∀ t ∈ m.added, task.Yields t := by
  obtain ⟨f, hf, ⟨tasks, htasks, hstep⟩ | ⟨before, hcut, -⟩⟩ := h.yields_or_cuts hagenda
  · rw [added_eq_of_map hagenda hstep]
    exact htasks
  · have hlength := congrArg List.length hcut
    rw [List.length_map, List.length_append] at hlength
    rw [added_eq_nil hagenda (by omega)]
    simp

/-- A host that works on a bus publishes at most one event, and sets no other task. -/
theorem length_added_of_performBus {name : BusName} {step : BusStep}
    (hagenda : m.agenda = .perform (.bus name step) :: rest) : m.added.length ≤ 1 := by
  have hpush : ∀ c event, m.step.agenda = [.publish c event] ++ rest → m.added.length ≤ 1 := by
    intro c event hstep
    rw [added_eq hagenda hstep]
    exact le_rfl
  have hfail : ∀ failure, m.step = fail { m with agenda := rest } failure →
      m.added.length ≤ 1 := by
    intro failure hstep
    rw [added_of_fail hagenda rfl hstep]
    exact Nat.zero_le _
  have hstay : m.step.agenda = rest → m.added.length ≤ 1 := by
    intro hstep
    rw [added_eq_nil hagenda (by rw [hstep])]
    exact Nat.zero_le _
  have hstep := step_eq hagenda
  dsimp only [exec, perform] at hstep
  rcases withBus_cases { m with agenda := rest } name _ with ⟨c, heq, -⟩ | heq
  · rw [heq] at hstep
    have hhandler : ∀ handler f, (∀ h, (f h).agenda = rest) →
        m.step = withHandler { m with agenda := rest } handler f → m.added.length ≤ 1 := by
      intro handler f hf hstep
      rcases withHandler_cases { m with agenda := rest } handler f with ⟨found, -, heq⟩ | heq
      · exact hstay (by rw [hstep, heq, hf])
      · exact hfail _ (hstep.trans heq)
    cases step with
    | publish type data => exact hpush _ _ (by rw [hstep]; rfl)
    | publishEvent type data consumed => exact hpush _ _ (by rw [hstep]; rfl)
    | subscribe type handler priority oneShot weak => exact hhandler _ _ (fun _ => rfl) hstep
    | unsubscribe type handler => exact hhandler _ _ (fun _ => rfl) hstep
    | isSubscribed type handler => exact hhandler _ _ (fun _ => rfl) hstep
    | count type => exact hstay (by rw [hstep]; rfl)
    | clear type => exact hstay (by rw [hstep]; rfl)
  · exact hfail _ (hstep.trans heq)

/-- Apart from its closing, the events put on the agenda to be published on the bus of a session
are the reports of its calls and those that the host publishes there. -/
theorem Sound.reports_added (h : Sound m) (hagenda : m.agenda = task :: rest)
    (htype : type ≠ .dialogue .contextClosed) :
    Event.ofType type (Task.reports (.session s) m.added) =
      Event.ofType type ((asked s m).filterMap Task.notice? ++ forged (.session s) m) := by
  by_cases hactor : task.actor? = some s
  · have htask : ∀ step, task ≠ .perform step := by
      rintro step rfl
      exact absurd hactor (by simp [Task.actor?])
    rw [forged_eq_nil hagenda htask, List.append_nil]
    cases told_of_actor hagenda hactor with
    | silent hasked hreports => rw [hasked, hreports]; rfl
    | @calls call event after hasked hnotice hadded hafter =>
        have hcall : call.report? (.session s) = none := by
          cases call <;> first | rfl | exact absurd hnotice (by simp [Task.notice?])
        rw [hasked, hadded, Task.reports, List.filterMap_cons, hcall, List.filterMap_cons,
          Task.report?_eq_some.mpr rfl, List.filterMap_cons, hnotice]
        rw [Task.reports] at hafter
        rw [hafter]
        rfl
  · rw [asked_of_not_actor hagenda hactor, List.filterMap_nil, List.nil_append]
    by_cases hperform : ∃ step, task = .perform step
    · obtain ⟨step, rfl⟩ := hperform
      rw [forged, hagenda]
      rfl
    · rw [forged_eq_nil hagenda fun step heq => hperform ⟨step, heq⟩]
      apply Event.ofType_eq_nil
      intro event hevent
      rcases h.yields_added hagenda _ (Task.mem_reports.mp hevent) s rfl with
        hself | ⟨hclosed, -⟩ | ⟨name, step, rfl⟩
      · exact absurd hself hactor
      · rw [hclosed]
        exact htype.symm
      · exact absurd ⟨_, rfl⟩ hperform

/-! ## Calls that have not returned -/

/-- A call that a session has made of its display since time `i` is under way at time `j`; there is
a report to be published below it, and some more tasks below that. -/
def Calling (s : SessionId) (x : ℕ → Machine) (i j below : ℕ) : Prop :=
  ∃ k, i ≤ k ∧ k < j ∧ asked s (x k) ≠ [] ∧ (x (k + 1)).agenda.length = below + 2 ∧
    ∀ l, k < l → l ≤ j → below + 1 < (x l).agenda.length

theorem Calling.succ {below : ℕ} (h : Calling s x i j below)
    (hlonger : below + 1 < (x (j + 1)).agenda.length) : Calling s x i (j + 1) below := by
  obtain ⟨k, hik, hkj, hasked, hlength, hbusy⟩ := h
  refine ⟨k, hik, by omega, hasked, hlength, ?_⟩
  intro l hkl hl
  rcases Nat.lt_or_ge j l with hlt | hle
  · obtain rfl : l = j + 1 := by omega
    exact hlonger
  · exact hbusy l hkl hle

/-- Every call of its display that a session makes from time `i` on returns by time `n`: the agenda
comes down to what it was below the call, and not further. -/
def CallsReturn (s : SessionId) (x : ℕ → Machine) (i n : ℕ) : Prop :=
  ∀ j, i ≤ j → j < n → asked s (x j) ≠ [] →
    ∃ k, j < k ∧ k ≤ n ∧ (x k).agenda.length + 1 = (x (j + 1)).agenda.length ∧
      ∀ l < k, j < l → (x (j + 1)).agenda.length ≤ (x l).agenda.length

/-- No failure takes away a call that returns, or the report below it. -/
theorem CallsReturn.lt_length (h : CallsReturn s x i n) {below : ℕ}
    (hcalling : Calling s x i j below) (hj : j < n) : below < (x (j + 1)).agenda.length := by
  obtain ⟨k, hik, hkj, hasked, hlength, hbusy⟩ := hcalling
  obtain ⟨e, hke, -, hdone, hrunning⟩ := h k hik (by omega) hasked
  rcases Nat.lt_trichotomy e (j + 1) with hlt | rfl | hgt
  · have hlonger := hbusy e (by omega) (by omega)
    omega
  · omega
  · have hlonger := hrunning (j + 1) hgt (by omega)
    omega

/-- A report that is not the next thing to be done waits below the call that it is about. -/
def Awaited (s : SessionId) (type : EventType) (x : ℕ → Machine) (i j : ℕ) : Prop :=
  ∀ before event below, (x j).agenda = before ++ .publish (.session s) event :: below →
    before ≠ [] → event.type = type → Calling s x i j below.length

/-- A report that was there before the step goes on waiting. -/
theorem Awaited.of_rest {before below : List Task} {event : Event LineRef} {f : Task → Task}
    (h : Awaited s type x i j) (hagenda : (x j).agenda = task :: rest) (hf : Task.KeepsFrames f)
    (hrest : rest.map f = before ++ .publish (.session s) event :: below)
    (htype : event.type = type) : Calling s x i j below.length := by
  obtain ⟨before', below', rfl, hlength⟩ := hf.eq_append hrest
  exact hlength ▸ h (task :: before') event below' hagenda (by simp) htype

/-- A report that comes with the step waits below a call, unless the host publishes it itself. -/
theorem calling_of_added (h : Sound (x j)) (hij : i ≤ j) (hstep : x (j + 1) = (x j).step)
    (hagenda : (x j).agenda = task :: rest) (htype : type ≠ .dialogue .contextClosed)
    {before after : List Task} {event : Event LineRef} {f : Task → Task}
    (hadded : (x j).added = before ++ .publish (.session s) event :: after)
    (hnext : (x j).step.agenda = (x j).added ++ rest.map f) (hne : before ≠ [])
    (hevent : event.type = type) :
    Calling s x i (j + 1) (after ++ rest.map f).length := by
  rcases h.yields_added hagenda (.publish (.session s) event) (by simp [hadded]) s rfl with
    hactor | ⟨hclosed, -⟩ | ⟨name, step, rfl⟩
  · cases told_of_actor hagenda hactor with
    | silent hasked hreports =>
        have hmem : event ∈ Task.reports (.session s) (x j).added :=
          Task.mem_reports.mpr (by simp [hadded])
        rw [hreports] at hmem
        exact absurd hmem List.not_mem_nil
    | @calls call event' after' hasked hnotice htold hafter =>
        -- Only one report comes with the call, right below it.
        have hsame : call :: .publish (.session s) event' :: after' =
            before ++ .publish (.session s) event :: after := htold.symm.trans hadded
        obtain ⟨first, more, rfl⟩ := List.exists_cons_of_ne_nil hne
        obtain ⟨rfl, htail⟩ := List.cons.inj hsame
        cases more with
        | nil =>
            obtain ⟨-, rfl⟩ := List.cons.inj htail
            have hlength : (x (j + 1)).agenda.length = (after' ++ rest.map f).length + 2 := by
              rw [hstep, hnext, htold]
              simp
            refine ⟨j, hij, by omega, by simp [hasked], hlength, ?_⟩
            intro l hjl hl
            obtain rfl : l = j + 1 := by omega
            omega
        | cons second more =>
            have hmore : after' = more ++ .publish (.session s) event :: after :=
              (List.cons.inj htail).2
            have hmem : event ∈ Task.reports (.session s) after' :=
              Task.mem_reports.mpr (by simp [hmore])
            rw [hafter] at hmem
            exact absurd hmem List.not_mem_nil
  · exact absurd (hevent.symm.trans hclosed) htype
  · have hone := length_added_of_performBus hagenda
    have hpos := List.length_pos_of_ne_nil hne
    rw [hadded, List.length_append, List.length_cons] at hone
    omega

theorem Awaited.step (h : Awaited s type x i j) (hsound : Sound (x j)) (hij : i ≤ j)
    (hstep : x (j + 1) = (x j).step) (htype : type ≠ .dialogue .contextClosed) :
    Awaited s type x i (j + 1) := by
  intro before event below hsplit hne hevent
  have hlonger : below.length + 1 < (x (j + 1)).agenda.length := by
    have := List.length_pos_of_ne_nil hne
    rw [hsplit, List.length_append, List.length_cons]
    omega
  cases hagenda : (x j).agenda with
  | nil =>
      rw [hstep, step_of_agenda_eq_nil hagenda, hagenda] at hsplit
      exact absurd hsplit (by simp)
  | cons task rest =>
      obtain ⟨f, hf, ⟨tasks, -, hnext⟩ | ⟨cut, hcut, -⟩⟩ := hsound.yields_or_cuts hagenda
      · have hadded := added_eq_of_map hagenda hnext
        rw [hstep, hnext] at hsplit
        rcases List.append_eq_append_iff.mp hsplit with ⟨gap, rfl, hrest⟩ | ⟨gap, rfl, hgap⟩
        · exact (h.of_rest hagenda hf hrest hevent).succ hlonger
        · cases gap with
          | nil =>
              have hrest : rest.map f = [] ++ .publish (.session s) event :: below := hgap.symm
              exact (h.of_rest hagenda hf hrest hevent).succ hlonger
          | cons first after =>
              obtain ⟨rfl, rfl⟩ := List.cons.inj hgap
              rw [← hadded] at hnext
              exact calling_of_added hsound hij hstep hagenda htype hadded hnext hne hevent
      · rw [← hstep, hsplit, ← List.append_assoc] at hcut
        exact (h.of_rest hagenda hf hcut hevent).succ hlonger

/-! ## What is published -/

/-- As long as all calls return, a step leaves the reports that wait below it. -/
theorem CallsReturn.reports_step (hreturn : CallsReturn s x i n) (hsound : Sound (x j))
    (hawaited : Awaited s type x i j) (hj : j < n) (hstep : x (j + 1) = (x j).step)
    (hagenda : (x j).agenda = task :: rest) :
    Event.ofType type (Task.reports (.session s) (x (j + 1)).agenda) =
      Event.ofType type (Task.reports (.session s) (x j).added) ++
        Event.ofType type (Task.reports (.session s) rest) := by
  obtain ⟨f, hf, ⟨tasks, -, hnext⟩ | ⟨cut, hcut, -⟩⟩ := hsound.yields_or_cuts hagenda
  · rw [hstep, added_eq_of_map hagenda hnext, hnext, Task.reports_append, Task.reports_map hf,
      Event.ofType_append]
  · rw [← hstep] at hcut
    have hnone : Event.ofType type (Task.reports (.session s) cut) = [] := by
      apply Event.ofType_eq_nil
      intro event hevent htype
      obtain ⟨before, after, rfl⟩ := List.append_of_mem (Task.mem_reports.mp hevent)
      rw [List.append_assoc, List.cons_append] at hcut
      have hlonger := hreturn.lt_length (hawaited.of_rest hagenda hf hcut htype) hj
      rw [List.length_append] at hlonger
      omega
    have hlength := congrArg List.length hcut
    rw [List.length_map, List.length_append] at hlength
    have hadded : (x j).added = [] := added_eq_nil hagenda (by rw [← hstep]; omega)
    rw [hadded, ← Task.reports_map hf rest, hcut, Task.reports_append, Event.ofType_append, hnone]
    rfl

theorem Quiet.reports_eq_nil (hquiet : Quiet b m) : Task.reports b m.agenda = [] :=
  List.eq_nil_iff_forall_not_mem.mpr fun _ hevent => hquiet _ (Task.mem_reports.mp hevent) rfl

theorem Quiet.awaited (hquiet : Quiet (.session s) (x j)) (type : EventType) (i : ℕ) :
    Awaited s type x i j := by
  intro before event below hsplit
  exact absurd rfl (hquiet (.publish (.session s) event) (by simp [hsplit]))

/-- At rest the host may ask for a step, and nothing else happens. -/
theorem Execution.quiet_succ (h : Execution x) (hagenda : (x j).agenda = []) (b : BusId) :
    Quiet b (x (j + 1)) := by
  generalize hm : x (j + 1) = m
  cases (hm ▸ h.next j : Next (x j) m) with
  | step => exact quiet_of_agenda_eq_nil (by rw [step_of_agenda_eq_nil hagenda, hagenda]) b
  | host _ step => simp [Quiet, Task.bus?]

/-- The reports of a step join those that wait, and what it publishes leaves them. -/
theorem CallsReturn.reports_next (hreturn : CallsReturn s x i n) (h : Execution x)
    (hawaited : Awaited s type x i j) (hij : i ≤ j) (hj : j < n)
    (htype : type ≠ .dialogue .contextClosed) :
    Awaited s type x i (j + 1) ∧
      (Event.ofType type (published (.session s) (x j)) ++
        Event.ofType type (Task.reports (.session s) (x (j + 1)).agenda)).Perm
        (Event.ofType type ((asked s (x j)).filterMap Task.notice? ++ forged (.session s) (x j)) ++
          Event.ofType type (Task.reports (.session s) (x j).agenda)) := by
  have hsound := (h.reachable j).sound
  cases hagenda : (x j).agenda with
  | nil =>
      have hquiet := h.quiet_succ hagenda (.session s)
      refine ⟨hquiet.awaited type i, ?_⟩
      rw [published, asked, forged, hagenda, hquiet.reports_eq_nil]
      exact .refl _
  | cons task rest =>
      have hstep : x (j + 1) = (x j).step := h.eq_step (by rw [hagenda]; simp)
      refine ⟨hawaited.step hsound hij hstep htype, ?_⟩
      rw [hreturn.reports_step hsound hawaited hj hstep hagenda, hsound.reports_added hagenda htype,
        ← hagenda, reports_eq_published_append hagenda, Event.ofType_append _ (published _ _)]
      exact List.perm_append_comm_assoc ..

/-- From a time on at which nothing was to be published on the bus of a session, what has been
published or still waits to be are the reports of the calls of the session and what the host has
published there itself. -/
theorem CallsReturn.published_append_perm (hreturn : CallsReturn s x i (i + n)) (h : Execution x)
    (hquiet : Quiet (.session s) (x i)) (htype : type ≠ .dialogue .contextClosed) (hj : j ≤ n) :
    Awaited s type x i (i + j) ∧
      (Event.ofType type ((stretch x i j).flatMap (published (.session s))) ++
        Event.ofType type (Task.reports (.session s) (x (i + j)).agenda)).Perm
        (Event.ofType type ((stretch x i j).flatMap fun m =>
          (asked s m).filterMap Task.notice? ++ forged (.session s) m)) := by
  induction j with
  | zero =>
      refine ⟨hquiet.awaited type i, ?_⟩
      rw [Nat.add_zero, hquiet.reports_eq_nil]
      exact .refl _
  | succ j ih =>
      obtain ⟨hawaited, hperm⟩ := ih (by omega)
      obtain ⟨hnext, hstep⟩ := hreturn.reports_next h hawaited (by omega) (by omega) htype
      refine ⟨hnext, ?_⟩
      rw [stretch_add_one, List.flatMap_append, List.flatMap_append, List.flatMap_singleton,
        List.flatMap_singleton, Event.ofType_append, Event.ofType_append, List.append_assoc]
      -- The new reports change places with those that waited before.
      refine (hstep.append_left _).trans ((List.perm_append_comm.append_left _).trans ?_)
      rw [← List.append_assoc]
      exact hperm.append_right _

/-- Between two times at which no work of the bus of a session is left to be done, the events
published there are the reports of the calls of the session, which all return, and what the host
has published there itself. -/
theorem CallsReturn.published_perm (hreturn : CallsReturn s x i (i + n)) (h : Execution x)
    (hstart : Quiet (.session s) (x i)) (hend : Quiet (.session s) (x (i + n)))
    (htype : type ≠ .dialogue .contextClosed) :
    (Event.ofType type ((stretch x i n).flatMap (published (.session s)))).Perm
      (Event.ofType type ((stretch x i n).flatMap fun m =>
        (asked s m).filterMap Task.notice? ++ forged (.session s) m)) := by
  obtain ⟨-, hperm⟩ := hreturn.published_append_perm h hstart htype le_rfl
  rw [hend.reports_eq_nil] at hperm
  exact (List.append_nil _ ▸ hperm : _)

end Machine

end Parley
