import Parley.Proofs.Bus.Cascade
import Parley.Proofs.Bus.OneShot
import Parley.Proofs.Display.Closings
import Parley.Proofs.Manager.Ending
import Parley.Proofs.Session.Reports

/-!
# What is called after the closing of a session

Whoever finishes a session may have a handler called once its display has closed.  The session
takes note of that once, publishes that it has closed, and then has the handler called; finishing
it again has no effect (`completed_after_closing`).

The closing may be reported on a bus that is calling listeners: a session can be finished from one
of its own events.  Then the report waits in the queue of the bus like any other, and the handler is
called before it is delivered (`completed_before_delivery`).  Otherwise the delivery is over when
the handler is called, and with it the dispatch of every subscription.

## Strategy

Closings are not doubled on their way through the display (`Execution.count_noted_le`), and only one
call of finishing asks for one (`Execution.flatMap_tornDown`).  The report of a closing is never put
below other tasks (`Sound.eq_nil_of_report`), so it is published right after the session takes note.
Publishing on an idle bus leaves the tasks below it in place until it returns
(`Execution.inCall_or_returned`), and the call of the handler is right below it.
-/

namespace Parley.Machine

variable {x : ℕ → Machine} {m : Machine} {s : SessionId} {b : BusId} {task : Task}
  {rest : List Task} {event : Event LineRef} {onComplete taken : Option HandlerId}
  {handler : HandlerId} {i j k n : ℕ}

/-! ## Finishing once -/

theorem tornDown_eq_singleton_iff : tornDown s m = [onComplete] ↔
    m.agenda.head? = some (.finish s onComplete) ∧ m.world.running s = true := by
  unfold tornDown
  split
  · rename_i t other hhead
    by_cases hs : t = s <;> cases hrunning : m.world.running s <;> simp [hhead, hs]
  · rename_i hother
    simp only [List.nil_eq, reduceCtorEq, false_iff, not_and]
    exact fun hhead => absurd hhead (hother s onComplete)

theorem tornDown_of_not_running (hrunning : m.world.running s = false) : tornDown s m = [] := by
  unfold tornDown
  split
  · exact if_neg (by simp [hrunning])
  · rfl

/-- A session that has been finished does not run from then on. -/
theorem Execution.not_running_of_finish (h : Execution x)
    (hfinish : (x k).agenda.head? = some (.finish s onComplete))
    (hrunning : (x k).world.running s = true) (hkn : k < n) :
    (x n).world.running s = false := by
  obtain ⟨session, hs⟩ := exists_of_running hrunning
  obtain ⟨session', hs'⟩ := h.session_of_le hs (Nat.le_succ k)
  have hstep : x (k + 1) = (x k).step := h.eq_step fun hnil => by simp [hnil] at hfinish
  have hleft : (x (k + 1)).world.running s = false := by
    rw [hstep]
    exact Leaving.not_running ⟨onComplete, hfinish⟩
  exact h.not_running_of_le hs' hleft hkn

/-- A session is finished once; all other calls of finishing come when it does not run. -/
theorem Execution.not_running_of_other (h : Execution x)
    (hfinish : (x k).agenda.head? = some (.finish s onComplete))
    (hrunning : (x k).world.running s = true)
    (hother : (x n).agenda.head? = some (.finish s taken)) (hne : n ≠ k) :
    (x n).world.running s = false := by
  rcases Nat.lt_or_gt_of_ne hne with hlt | hgt
  · by_contra hearly
    rw [Bool.not_eq_false] at hearly
    exact absurd (hrunning.symm.trans (h.not_running_of_finish hother hearly hlt)) (by simp)
  · exact h.not_running_of_finish hfinish hrunning hgt

/-- A session asks for one closing in all. -/
theorem Execution.flatMap_tornDown (h : Execution x)
    (hfinish : (x k).agenda.head? = some (.finish s onComplete))
    (hrunning : (x k).world.running s = true) (n : ℕ) :
    (stretch x 0 n).flatMap (tornDown s) = if k < n then [onComplete] else [] := by
  induction n with
  | zero => rfl
  | succ n ih =>
      have hnow : tornDown s (x n) = if n = k then [onComplete] else [] := by
        split
        · rename_i hnk
          exact hnk ▸ tornDown_eq_singleton_iff.mpr ⟨hfinish, hrunning⟩
        · rename_i hne
          by_cases hleaving : Leaving s (x n)
          · obtain ⟨taken, hother⟩ := hleaving
            exact tornDown_of_not_running (h.not_running_of_other hfinish hrunning hother hne)
          · unfold tornDown
            split
            · rename_i t other hhead
              rw [if_neg]
              rintro ⟨rfl, -⟩
              exact hleaving ⟨other, hhead⟩
            · rfl
      rw [stretch_add_one, List.flatMap_append, ih, List.flatMap_singleton, Nat.zero_add, hnow]
      rcases Nat.lt_trichotomy n k with hlt | rfl | hgt
      · rw [if_neg (by omega), if_neg (by omega), if_neg (by omega)]
        rfl
      · simp
      · rw [if_pos hgt, if_neg (by omega), if_pos (by omega)]
        rfl

/-! ## Taking note once -/

theorem noted_eq_singleton_iff :
    noted s m = [taken] ↔ m.agenda.head? = some (.callback (.session s taken)) := by
  unfold noted
  split
  · rename_i callback hhead
    rw [hhead]
    cases callback with
    | session t other => by_cases hs : t = s <;> simp [Callback.closings, hs]
    | handler g => simp [Callback.closings]
  · rename_i hother
    simp only [List.nil_eq, reduceCtorEq, false_iff]
    exact hother _

/-- How often a session has taken note of a closing. -/
theorem Execution.count_noted (h : Execution x) (hnone : closings s (x 0) = [])
    (hfinish : (x k).agenda.head? = some (.finish s onComplete))
    (hrunning : (x k).world.running s = true) (taken : Option HandlerId) (n : ℕ) :
    ((stretch x 0 n).flatMap (noted s)).count taken ≤
      if k < n ∧ taken = onComplete then 1 else 0 := by
  have hle := h.count_noted_le (s := s) taken n
  rw [h.flatMap_tornDown hfinish hrunning, hnone, List.count_nil] at hle
  split at hle <;> rename_i hkn
  · rw [List.count_singleton] at hle
    by_cases htaken : taken = onComplete
    · rw [if_pos ⟨hkn, htaken⟩]
      simpa [htaken] using Nat.le_of_add_right_le hle
    · have hne : (onComplete == taken) = false := by simpa using Ne.symm htaken
      rw [if_neg fun hboth => htaken hboth.2]
      simpa [hne] using Nat.le_of_add_right_le hle
  · rw [if_neg fun hboth => hkn hboth.1]
    exact Nat.le_of_add_right_le hle

theorem count_noted_pos (hnote : (x i).agenda.head? = some (.callback (.session s taken)))
    (hin : i < n) : 1 ≤ ((stretch x 0 n).flatMap (noted s)).count taken := by
  apply List.count_pos_iff.mpr
  refine List.mem_flatMap.mpr ⟨x i, ?_, by simp [noted_eq_singleton_iff.mpr hnote]⟩
  exact List.mem_map.mpr ⟨i, List.mem_range.mpr hin, by rw [Nat.zero_add]⟩

/-- A session takes note of the closing it has asked for. -/
theorem Execution.eq_of_noted (h : Execution x) (hnone : closings s (x 0) = [])
    (hfinish : (x k).agenda.head? = some (.finish s onComplete))
    (hrunning : (x k).world.running s = true)
    (hnote : (x i).agenda.head? = some (.callback (.session s taken))) :
    taken = onComplete ∧ k < i := by
  have hle := h.count_noted hnone hfinish hrunning taken (i + 1)
  have hpos := count_noted_pos hnote (Nat.lt_add_one i)
  split at hle
  · rename_i hboth
    refine ⟨hboth.2, Nat.lt_of_le_of_ne (Nat.le_of_lt_succ hboth.1) ?_⟩
    rintro rfl
    exact absurd (hfinish.symm.trans hnote) (by simp)
  · omega

theorem Execution.noted_not_lt (h : Execution x) (hnone : closings s (x 0) = [])
    (hfinish : (x k).agenda.head? = some (.finish s onComplete))
    (hrunning : (x k).world.running s = true)
    (hnote : (x i).agenda.head? = some (.callback (.session s taken)))
    (hlater : (x j).agenda.head? = some (.callback (.session s taken))) : ¬ i < j := by
  intro hij
  have hle := h.count_noted hnone hfinish hrunning taken (j + 1)
  have hpos := count_noted_pos hnote hij
  rw [stretch_add_one, List.flatMap_append, List.flatMap_singleton, Nat.zero_add,
    noted_eq_singleton_iff.mpr hlater, List.count_append, List.count_singleton_self] at hle
  split at hle <;> omega

/-- A session takes note of one closing only. -/
theorem Execution.noted_once (h : Execution x) (hnone : closings s (x 0) = [])
    (hfinish : (x k).agenda.head? = some (.finish s onComplete))
    (hrunning : (x k).world.running s = true)
    (hnote : (x i).agenda.head? = some (.callback (.session s taken)))
    {again : Option HandlerId}
    (hagain : (x j).agenda.head? = some (.callback (.session s again))) : j = i := by
  obtain ⟨rfl, -⟩ := h.eq_of_noted hnone hfinish hrunning hnote
  obtain ⟨rfl, -⟩ := h.eq_of_noted hnone hfinish hrunning hagain
  have hbefore := h.noted_not_lt hnone hfinish hrunning hnote hagain
  have hafter := h.noted_not_lt hnone hfinish hrunning hagain hnote
  omega

/-! ## Reporting once -/

/-- The report of a closing is put in front of the agenda, by the session that takes note of it or
by the host. -/
theorem Sound.eq_nil_of_report (h : Sound m) (hagenda : m.agenda = task :: rest)
    {before after : List Task} (hadded : m.added = before ++ .publish (.session s) event :: after)
    (hclosed : event.type = .dialogue .contextClosed) :
    before = [] ∧ ((∃ onComplete, task = .callback (.session s onComplete)) ∨
      ∃ name step, task = .perform (.bus name step)) := by
  have hmem : .publish (.session s) event ∈ m.added := by simp [hadded]
  rcases h.yields_added hagenda _ hmem s rfl with hactor | ⟨-, callback, rfl⟩ | ⟨name, step, rfl⟩
  -- A session reports its calls, and they are about other things.
  · have hreport : event ∈ Task.reports (.session s) m.added := Task.mem_reports.mpr hmem
    cases told_of_actor hagenda hactor with
    | silent hasked hreports =>
        rw [hreports] at hreport
        exact absurd hreport List.not_mem_nil
    | @calls call notice after' hasked hnotice htold hafter =>
        exfalso
        have hcall : call.report? (.session s) = none := by
          cases call <;> first | rfl | exact absurd hnotice (by simp [Task.notice?])
        have hsame : event = notice := by
          rw [htold, Task.reports, List.filterMap_cons, hcall, List.filterMap_cons,
            Task.report?_eq_some.mpr rfl] at hreport
          rw [Task.reports] at hafter
          simpa [hafter] using hreport
        rw [hsame] at hclosed
        cases call <;> simp [Task.notice?] at hnotice <;> simp [← hnotice] at hclosed
  · cases callback with
    | handler g =>
        have hstep : m.step.agenda = [.call g ""] ++ rest := by rw [step_eq hagenda]; rfl
        rw [added_eq hagenda hstep] at hmem
        simp at hmem
    | session t onComplete =>
        cases ht : m.world.session? t with
        | none =>
            rw [added_of_fail hagenda rfl (step_callback_of_missing hagenda ht)] at hmem
            exact absurd hmem List.not_mem_nil
        | some session =>
            rw [added_eq hagenda (agenda_callback hagenda ht)] at hadded
            cases before with
            | nil =>
                obtain ⟨hbus, -⟩ := Task.publish.inj (List.cons.inj hadded).1
                obtain rfl := BusId.session.inj hbus
                exact ⟨rfl, .inl ⟨onComplete, rfl⟩⟩
            | cons first more =>
                have hlater : .publish (.session s) event ∈
                    onComplete.toList.map (fun g => Task.call g "") ++ [.hold t] := by
                  rw [(List.cons.inj hadded).2]
                  simp
                simp at hlater
  · have hlength := length_added_of_performBus hagenda
    rw [hadded, List.length_append, List.length_cons] at hlength
    exact ⟨List.eq_nil_of_length_eq_zero (by omega), .inr ⟨name, step, rfl⟩⟩

/-- If no report of a closing waits below other tasks, then none does after the next step; one that
is next then comes from the step. -/
theorem Sound.report_step (h : Sound m) (hagenda : m.agenda = task :: rest)
    (hclosed : event.type = .dialogue .contextClosed)
    (hrest : .publish (.session s) event ∉ rest) :
    .publish (.session s) event ∉ m.step.agenda ∨
      .publish (.session s) event ∉ m.step.agenda.tail ∧
        .publish (.session s) event ∈ m.added ∧
        ((∃ onComplete, task = .callback (.session s onComplete)) ∨
          ∃ name step, task = .perform (.bus name step)) := by
  have hkept : ∀ {f : Task → Task}, Task.KeepsFrames f →
      .publish (.session s) event ∉ rest.map f := by
    intro f hf
    rw [← Task.mem_reports, Task.reports_map hf, Task.mem_reports]
    exact hrest
  obtain ⟨f, hf, ⟨tasks, -, hstep⟩ | ⟨before, hcut, -⟩⟩ := h.yields_or_cuts hagenda
  · have hadded := added_eq_of_map hagenda hstep
    by_cases hmem : .publish (.session s) event ∈ m.added
    · refine .inr ⟨?_, hmem, ?_⟩
      · obtain ⟨first, more, htasks⟩ := List.exists_cons_of_ne_nil (List.ne_nil_of_mem hmem)
        rw [hstep, ← hadded, htasks, List.cons_append, List.tail_cons, List.mem_append]
        rintro (hmore | hbelow)
        · obtain ⟨before, after, rfl⟩ := List.append_of_mem hmore
          have hsplit : m.added = (first :: before) ++ .publish (.session s) event :: after :=
            htasks
          exact absurd (h.eq_nil_of_report hagenda hsplit hclosed).1 (by simp)
        · exact hkept hf hbelow
      · obtain ⟨before, after, hsplit⟩ := List.append_of_mem hmem
        exact (h.eq_nil_of_report hagenda hsplit hclosed).2
    · left
      rw [hstep, List.mem_append, ← hadded]
      exact fun hboth => hboth.elim hmem (hkept hf)
  · left
    intro hmem
    exact hkept hf (hcut ▸ List.mem_append_right _ hmem)

theorem Execution.report_notMem_tail (h : Execution x)
    (hclosed : event.type = .dialogue .contextClosed) (n : ℕ) :
    .publish (.session s) event ∉ (x n).agenda.tail := by
  induction n with
  | zero => simp [h.initial.agenda]
  | succ n ih =>
      generalize hm : x (n + 1) = m
      cases (hm ▸ h.next n : Next (x n) m) with
      | host hagenda step => simp
      | step =>
          cases hagenda : (x n).agenda with
          | nil => simp [step_of_agenda_eq_nil hagenda, hagenda]
          | cons task rest =>
              rw [hagenda, List.tail_cons] at ih
              rcases (h.reachable n).sound.report_step hagenda hclosed ih with hnone | ⟨htail, -⟩
              · exact fun hmem => hnone (List.mem_of_mem_tail hmem)
              · exact htail

/-- The closing of a session is reported right after the session has taken note of it, or because
the host itself has published such an event. -/
theorem Execution.report_cases (h : Execution x)
    (hhead : (x j).agenda.head? = some (.publish (.session s) event))
    (hclosed : event.type = .dialogue .contextClosed) :
    ∃ t, j = t + 1 ∧ ((∃ taken, (x t).agenda.head? = some (.callback (.session s taken))) ∨
      event ∈ forged (.session s) (x t)) := by
  cases j with
  | zero => exact absurd hhead (by simp [h.initial.agenda])
  | succ t =>
      refine ⟨t, rfl, ?_⟩
      have hmem : .publish (.session s) event ∈ (x (t + 1)).agenda := List.mem_of_head? hhead
      generalize hm : x (t + 1) = m at hhead hmem
      cases (hm ▸ h.next t : Next (x t) m) with
      | host hagenda step => simp at hmem
      | step =>
          have htail := h.report_notMem_tail (s := s) hclosed t
          cases hagenda : (x t).agenda with
          | nil =>
              rw [step_of_agenda_eq_nil hagenda, hagenda] at hmem
              exact absurd hmem List.not_mem_nil
          | cons task rest =>
              rw [hagenda, List.tail_cons] at htail
              rcases (h.reachable t).sound.report_step hagenda hclosed htail with
                hnone | ⟨-, hadded, ⟨onComplete, rfl⟩ | ⟨name, step, rfl⟩⟩
              · exact absurd hmem hnone
              · exact .inl ⟨onComplete, rfl⟩
              · right
                rw [forged, hagenda]
                exact Task.mem_reports.mpr hadded

/-! ## A call of publishing in a run -/

/-- Publishing on an idle bus goes on, or has left the tasks below it in place. -/
theorem Execution.inCall_or_returned (h : Execution x) (hcall : Task.InCall b rest (x i).agenda)
    (hin : i ≤ n) :
    (∀ t, i ≤ t → t ≤ n → Task.InCall b rest (x t).agenda) ∨
      ∃ j f, i < j ∧ j ≤ n ∧ Task.KeepsFrames f ∧ (x j).agenda = rest.map f ∧
        ∀ t, i ≤ t → t < j → Task.InCall b rest (x t).agenda := by
  induction n, hin using Nat.le_induction with
  | base =>
      refine .inl fun t hit hti => ?_
      obtain rfl : t = i := by omega
      exact hcall
  | succ n hin ih =>
      rcases ih with hgoes | ⟨j, f, hij, hjn, hf, hdone, hgoes⟩
      · have hlast := hgoes n hin le_rfl
        have hstep : x (n + 1) = (x n).step :=
          h.eq_step (List.ne_nil_of_length_pos (Nat.zero_lt_of_lt hlast.length_lt))
        rcases inCall_step (h.reachable n).sound hlast with hnext | ⟨f, hf, hdone⟩
        · refine .inl fun t hit htn => ?_
          rcases Nat.lt_or_ge n t with hlt | hle
          · obtain rfl : t = n + 1 := by omega
            rw [hstep]
            exact hnext
          · exact hgoes t hit hle
        · exact .inr ⟨n + 1, f, by omega, le_rfl, hf, hstep ▸ hdone,
            fun t hit htn => hgoes t hit (by omega)⟩
      · exact .inr ⟨j, f, hij, by omega, hf, hdone, hgoes⟩

/-! ## The call after the closing -/

/-- A session takes note of its closing at time `i`, and the handler that it has been given for that
is called at time `j`: the agenda has come down to what was put there for the call, and not
further. -/
structure Completes (s : SessionId) (handler : HandlerId) (x : ℕ → Machine) (i j : ℕ) : Prop where
  noted : (x i).agenda.head? = some (.callback (.session s (some handler)))
  later : i < j
  busy : ∀ t, i < t → t < j → (x i).agenda.length + 1 < (x t).agenda.length
  depth : (x j).agenda.length = (x i).agenda.length + 1
  called : (x j).agenda.head? = some (.call handler "")

theorem Completes.eq (h : Completes s handler x i j) {handler' : HandlerId}
    (h' : Completes s handler' x i k) : j = k := by
  have hdepth := h.depth
  have hdepth' := h'.depth
  rcases Nat.lt_trichotomy j k with hlt | heq | hgt
  · have hbusy := h'.busy j h.later hlt
    omega
  · exact heq
  · have hbusy := h.busy k h'.later hgt
    omega

/-- A session that takes note of its closing leaves its report on the agenda, and nothing has
happened on its bus. -/
theorem Execution.noted_step (h : Execution x) {session : Session}
    (hs : (x i).world.session? s = some session)
    (hagenda : (x i).agenda = .callback (.session s taken) :: rest) :
    (x (i + 1)).agenda = .publish (.session s) { type := .dialogue .contextClosed } ::
        (taken.toList.map (fun g => .call g "") ++ [.hold s]) ++ rest ∧
      (x (i + 1)).world.bus (.session s) = (x i).world.bus (.session s) := by
  rw [h.eq_step (by rw [hagenda]; simp)]
  refine ⟨agenda_callback hagenda hs, ?_⟩
  rw [world_callback hagenda hs, World.bus_modifyDisplay]
  rfl

/-- While the bus is calling listeners, the report waits, and the handler is called next. -/
theorem Execution.completes_of_publishing (h : Execution x) {session : Session}
    (hs : (x i).world.session? s = some session)
    (hnote : (x i).agenda.head? = some (.callback (.session s (some handler))))
    (hpub : ((x i).world.bus (.session s)).isPublishing = true) :
    Completes s handler x i (i + 2) ∧
      ((x (i + 2)).world.bus (.session s)).queue =
        ((x i).world.bus (.session s)).queue ++ [{ type := .dialogue .contextClosed }] := by
  obtain ⟨rest, hagenda⟩ := List.head?_eq_some_iff.mp hnote
  obtain ⟨hnext, hbus⟩ := h.noted_step hs hagenda
  rw [← hbus] at hpub
  have hknown := (h.reachable (i + 1)).sound.hasBus_of_publish hnext
  obtain ⟨hworld, hstep⟩ := step_publish_of_isPublishing hnext hpub
  rw [← h.eq_step (by rw [hnext]; simp)] at hworld hstep
  refine ⟨⟨hnote, by omega, fun t hit htj => ?_, ?_, by rw [hstep]; rfl⟩, ?_⟩
  · obtain rfl : t = i + 1 := by omega
    simp [hnext, hagenda]
  · simp [hstep, hagenda]
  · rw [hworld, World.bus_modifyBus_self hknown, hbus]
    rfl

/-- On an idle bus the delivery of an event begins at once. -/
theorem Execution.underway_of_publish (h : Execution x)
    (hagenda : (x i).agenda = .publish b event :: rest)
    (hidle : ((x i).world.bus b).isPublishing = false) :
    Underway b event x i (i + 1) ∧ Task.InCall b rest (x (i + 1)).agenda := by
  have hknown := (h.reachable i).sound.hasBus_of_publish hagenda
  obtain ⟨hworld, hstep⟩ := step_publish_of_idle hagenda hidle
  have hbus : (x i).step.world.bus b = ((x i).world.bus b).beginDispatch event := by
    rw [hworld, World.bus_modifyBus_self hknown]
  have hnext : x (i + 1) = (x i).step := h.eq_step (by rw [hagenda]; simp)
  refine ⟨⟨begun_of_beginDispatch hidle hbus, by omega, fun t hit hti => ?_⟩, ?_⟩
  · obtain rfl : t = i + 1 := by omega
    rw [hnext, hbus]
    rfl
  · rw [hnext, hstep]
    exact Task.inCall_dispatch b rest

/-- On an idle bus the report is delivered, and if that comes to an end, the handler is called
then. -/
theorem Execution.completes_of_idle (h : Execution x) {session : Session}
    (hs : (x i).world.session? s = some session)
    (hnote : (x i).agenda.head? = some (.callback (.session s (some handler))))
    (hidle : ((x i).world.bus (.session s)).isPublishing = false) (hin : i < n)
    (hreturn : (x n).agenda.length ≤ (x i).agenda.length + 1) :
    ∃ j ≤ n, Completes s handler x i j ∧
      ∀ sub ∈ ((x i).world.bus (.session s)).subscriptions (.dialogue .contextClosed),
        DealtWith (.session s) x (i + 1) j sub := by
  obtain ⟨rest, hagenda⟩ := List.head?_eq_some_iff.mp hnote
  obtain ⟨hnext, hbus⟩ := h.noted_step hs hagenda
  have hlength : (x i).agenda.length = rest.length + 1 := by rw [hagenda, List.length_cons]
  have hreport : (x (i + 1)).agenda.length = rest.length + 3 := by rw [hnext]; simp
  obtain ⟨hunder, hcall⟩ := h.underway_of_publish hnext (hbus ▸ hidle)
  have hne : n ≠ i + 1 := by rintro rfl; omega
  rcases h.inCall_or_returned hcall (show i + 1 + 1 ≤ n by omega) with
    hgoes | ⟨j, f, hij, hjn, hf, hdone, hgoes⟩
  · have hlonger := (hgoes n (by omega) le_rfl).length_lt
    simp at hlonger
    omega
  refine ⟨j, hjn, ⟨hnote, by omega, fun t hit htj => ?_, ?_, ?_⟩, fun sub hsub => ?_⟩
  · rcases Nat.lt_or_ge t (i + 1 + 1) with hlt | hge
    · obtain rfl : t = i + 1 := by omega
      omega
    · have hlonger := (hgoes t hge htj).length_lt
      simp at hlonger
      omega
  · simp [hdone, hlength]
  · rw [hdone]
    rcases hf (.call handler "") with heq | ⟨sink, course, course', habsurd, -⟩
    · simp [heq]
    · exact absurd habsurd (by simp)
  -- The bus is idle again when the handler is called, so the delivery is over.
  · have hquiet : ((x j).world.bus (.session s)).isPublishing = false := by
      rw [← Bool.not_eq_true]
      intro hpub
      have hmem := ((h.reachable j).sound.accounted (.session s)).dispatch_mem hpub
      rw [hdone] at hmem
      refine ((h.reachable i).sound.accounted (.session s)).dispatch_notMem hidle ?_
      simpa [hagenda] using hf.dispatch_mem hmem
    rcases hunder.goes_on_or_ended (show i + 1 + 1 ≤ j by omega) with
      hstill | ⟨last, hlast, hlt, hwhole, hended⟩
    · exact absurd (hquiet.symm.trans (hstill.publishing j (by omega) le_rfl)) (by simp)
    · rw [← hbus] at hsub
      exact (h.dealtWith_of_ended hwhole hended hsub).mono hlt

theorem head?_of_mem_published (h : event ∈ published b m) :
    m.agenda.head? = some (.publish b event) := by
  unfold published at h
  split at h
  · rename_i hagenda
    split at h <;> simp_all
  · exact absurd h List.not_mem_nil

/-- A session is finished by one call, and takes note of one closing, with what that call has given
it to be called.  Then it publishes that it has closed; nobody but the host does so at another time.
The handler is called once at most, and if the publishing comes to an end, it is called.  If the
bus of the session was calling listeners, that is before the event is delivered; otherwise the
delivery is through with all subscriptions by then: each listener has been called, or is not going
to be because it was gone or the event had been consumed. -/
theorem completed_after_closing (h : Execution x) (hnone : closings s (x 0) = [])
    (hfinish : (x k).agenda.head? = some (.finish s onComplete))
    (hrunning : (x k).world.running s = true)
    (hnote : (x i).agenda.head? = some (.callback (.session s taken))) :
    (∀ n c, (x n).agenda.head? = some (.finish s c) → (x n).world.running s = true → n = k) ∧
      (∀ n c, (x n).agenda.head? = some (.callback (.session s c)) → n = i ∧ c = onComplete) ∧
      published (.session s) (x (i + 1)) = [{ type := .dialogue .contextClosed }] ∧
      (∀ n, ∀ event ∈ published (.session s) (x n), event.type = .dialogue .contextClosed →
        n = i + 1 ∨ ∃ t, n = t + 1 ∧ event ∈ forged (.session s) (x t)) ∧
      (∀ handler n j, Completes s handler x n j → n = i ∧ onComplete = some handler) ∧
      ∀ handler, onComplete = some handler →
        ∀ n > i, (x n).agenda.length ≤ (x i).agenda.length + 1 →
          ∃ j ≤ n, Completes s handler x i j ∧ (∀ j', Completes s handler x i j' → j' = j) ∧
            (((x i).world.bus (.session s)).isPublishing = true → j = i + 2 ∧
              ((x j).world.bus (.session s)).queue =
                ((x i).world.bus (.session s)).queue ++
                  [{ type := .dialogue .contextClosed }]) ∧
            (((x i).world.bus (.session s)).isPublishing = false →
              ∀ sub ∈ ((x i).world.bus (.session s)).subscriptions (.dialogue .contextClosed),
                DealtWith (.session s) x (i + 1) j sub) := by
  have hnoted : ∀ n c, (x n).agenda.head? = some (.callback (.session s c)) →
      n = i ∧ c = onComplete := fun n c hhead =>
    ⟨h.noted_once hnone hfinish hrunning hnote hhead,
      (h.eq_of_noted hnone hfinish hrunning hhead).1⟩
  obtain ⟨rfl, hki⟩ := h.eq_of_noted hnone hfinish hrunning hnote
  obtain ⟨session, hs⟩ := exists_of_running hrunning
  obtain ⟨session', hs'⟩ := h.session_of_le hs hki.le
  obtain ⟨rest, hagenda⟩ := List.head?_eq_some_iff.mp hnote
  obtain ⟨hnext, -⟩ := h.noted_step hs' hagenda
  refine ⟨fun n c hhead hrunning' => ?_, hnoted, ?_, fun n event hevent hclosed => ?_,
    fun handler n j hcompletes => ?_, fun handler hhandler n hin hreturn => ?_⟩
  · by_contra hne
    exact absurd (hrunning'.symm.trans (h.not_running_of_other hfinish hrunning hhead hne))
      (by simp)
  · rw [published, hnext]
    exact if_pos rfl
  · obtain ⟨t, rfl, ⟨c, hhead⟩ | hforged⟩ :=
      h.report_cases (head?_of_mem_published hevent) hclosed
    · exact .inl (by rw [(hnoted t c hhead).1])
    · exact .inr ⟨t, rfl, hforged⟩
  · obtain ⟨hn, hhandler⟩ := hnoted n _ hcompletes.noted
    exact ⟨hn, hhandler.symm⟩
  · subst hhandler
    cases hpub : ((x i).world.bus (.session s)).isPublishing with
    | true =>
        obtain ⟨hcompletes, hqueue⟩ := h.completes_of_publishing hs' hnote hpub
        have hreport : (x (i + 1)).agenda.length = (x i).agenda.length + 2 := by
          simp [hnext, hagenda]
        have hne : n ≠ i + 1 := by rintro rfl; omega
        exact ⟨i + 2, by omega, hcompletes, fun j' hother => hother.eq hcompletes,
          fun _ => ⟨rfl, hqueue⟩, fun hidle => absurd hidle (by simp)⟩
    | false =>
        obtain ⟨j, hjn, hcompletes, hdealt⟩ :=
          h.completes_of_idle hs' hnote hpub hin hreturn
        exact ⟨j, hjn, hcompletes, fun j' hother => hother.eq hcompletes,
          fun hbusy => absurd hbusy (by simp), fun _ => hdealt⟩

/-- A host that finishes a session twice, while a deferred display puts the closing off. -/
def patient : ℕ → Machine :=
  course { world := World.ofHandlers [("done", [(1, [])]), ("never", [(1, [])]),
      ("closed", [(1, [])])] }
    [.newDisplay "c" "c" (.recording {} true),
      .newSession "s" "c" none (.graph none),
      .bus (.session "s") (.subscribe (.dialogue .contextClosed) "closed" 0 false false),
      .session "s" (.finish (some "done")),
      .session "s" (.finish (some "never")),
      .display "c" .flushClose]

theorem completed_after_closing_patient :
    Execution patient ∧ closings ⟨0⟩ (patient 0) = [] ∧
      (patient 9).agenda.head? = some (.finish ⟨0⟩ (some ⟨0⟩)) ∧
      (patient 9).world.running ⟨0⟩ = true ∧
      (patient 23).agenda.head? = some (.callback (.session ⟨0⟩ (some ⟨0⟩))) ∧
      Completes ⟨0⟩ ⟨0⟩ patient 23 33 ∧
      DealtWith (.session ⟨0⟩) patient 24 33 ⟨0, .handler ⟨2⟩, false, false⟩ := by
  have h : Execution patient := execution_course (initial_ofHandlers _) _
  have hnone : closings ⟨0⟩ (patient 0) = [] := rfl
  have hfinish : (patient 9).agenda.head? = some (.finish ⟨0⟩ (some ⟨0⟩)) := rfl
  have hrunning : (patient 9).world.running ⟨0⟩ = true := by decide +kernel
  have hnote : (patient 23).agenda.head? = some (.callback (.session ⟨0⟩ (some ⟨0⟩))) := rfl
  obtain ⟨-, -, -, -, -, hcalled⟩ := completed_after_closing h hnone hfinish hrunning hnote
  obtain ⟨j, hj, hcompletes, -, -, hdealt⟩ :=
    hcalled ⟨0⟩ rfl 33 (by omega) (by decide +kernel)
  have hlater : ∀ t ≤ 33, 23 < t → t ≠ 33 →
      (patient 23).agenda.length + 1 < (patient t).agenda.length := by decide +kernel
  obtain rfl : j = 33 := by
    by_contra hne
    have hbusy := hlater j hj hcompletes.later hne
    have hdepth := hcompletes.depth
    omega
  exact ⟨h, hnone, hfinish, hrunning, hnote, hcompletes,
    hdealt (by decide +kernel) _ (by decide +kernel)⟩

/-- A host that finishes a session when it hears that its conversation is over. -/
def prompt : ℕ → Machine :=
  course { world := World.ofHandlers [
      ("ends", [(1, [.session "s" (.finish (some "done"))])]), ("done", [(1, [])]),
      ("closed", [(1, [])])] }
    [.newDisplay "c" "c" (.recording {} false),
      .newSession "s" "c" none (.graph (some
        (.array [.object [("title", .string "A"), ("body", .string "one")]]))),
      .bus (.session "s") (.subscribe (.dialogue .dialogueOver) "ends" 0 false false),
      .bus (.session "s") (.subscribe (.dialogue .contextClosed) "closed" 0 false false),
      .session "s" (.start "A"),
      .session "s" .proceed]

/-- A session that is finished from one of its own events has the handler called before its closing
is delivered, and not to a subscriber that is alive either. -/
theorem completed_before_delivery :
    Execution prompt ∧ (prompt 44).agenda.head? = some (.finish ⟨0⟩ (some ⟨1⟩)) ∧
      (prompt 44).world.running ⟨0⟩ = true ∧
      ⟨0, .handler ⟨2⟩, false, false⟩ ∈
        ((prompt 48).world.bus (.session ⟨0⟩)).subscriptions (.dialogue .contextClosed) ∧
      Completes ⟨0⟩ ⟨1⟩ prompt 48 50 ∧
      (∀ t ≤ 50, delivered (.session ⟨0⟩) (prompt t) ≠ some (.handler ⟨2⟩)) ∧
      delivered (.session ⟨0⟩) (prompt 62) = some (.handler ⟨2⟩) := by
  have h : Execution prompt := execution_course (initial_ofHandlers _) _
  have htorn : tornDown ⟨0⟩ (prompt 44) = [some ⟨1⟩] := by decide +kernel
  have hnoted : noted ⟨0⟩ (prompt 48) = [some ⟨1⟩] := by decide +kernel
  have hfound : ((prompt 48).world.session? ⟨0⟩).isSome = true := by decide +kernel
  obtain ⟨hfinish, hrunning⟩ := tornDown_eq_singleton_iff.mp htorn
  obtain ⟨session, hs⟩ := Option.isSome_iff_exists.mp hfound
  obtain ⟨hcompletes, -⟩ :=
    h.completes_of_publishing hs (noted_eq_singleton_iff.mp hnoted) (by decide +kernel)
  exact ⟨h, hfinish, hrunning, by decide +kernel, hcompletes, by decide +kernel,
    by decide +kernel⟩

end Parley.Machine
