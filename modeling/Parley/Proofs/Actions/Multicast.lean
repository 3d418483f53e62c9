import Parley.Proofs.Machine.Execution

/-!
# Calling several handlers

The handlers of an action are called one after the other, each with the same text.  While they
are, what comes after the calls stays below on the agenda, whatever a handler does; only a
failure that leaves the handler takes the remaining calls away, and it is passed on to what is
below (`Sound.multicast_step`).

## Strategy

The work of a handler stays above its script, the script above the calls that are left, and these
above the rest of the agenda, the frame (`Multicast`).  All that a step may do to a frame is to cut
the loops over one line off from it (`Sound.nested_step`).
-/

namespace Parley.Machine

variable {m : Machine} {task : Task} {nested frame : List Task}

/-! ## Frames -/

/-- A failure passes by what is not a dispatch. -/
theorem fail_of_append (above : List Task) {below : List Task} (hagenda : m.agenda = above ++ below)
    (habove : ∀ b, .dispatch b ∉ above) (failure : Failure) :
    m.fail failure = { m with agenda := below }.fail failure := by
  rw [fail, fail, hagenda, unwind_append habove]

/-- A dispatch in front catches every failure. -/
theorem exists_unwind_append {b : BusId} (hmem : .dispatch b ∈ nested) (frame : List Task) :
    ∃ left, (unwind (nested ++ frame)).elim [] Prod.snd = left ++ frame := by
  induction nested with
  | nil => exact absurd hmem (by simp)
  | cons task nested ih =>
      by_cases htask : ∃ c, task = .dispatch c
      · obtain ⟨c, rfl⟩ := htask
        exact ⟨.dispatch c :: nested, rfl⟩
      · rw [not_exists] at htask
        rw [List.cons_append, unwind_cons_of_ne htask]
        rcases List.mem_cons.mp hmem with rfl | hmem
        exacts [absurd rfl (htask b), ih hmem]

/-- Work above a frame goes on above it, or fails down to it. -/
theorem Sound.nested_step (h : Sound m) (hagenda : m.agenda = task :: (nested ++ frame)) :
    ∃ f, Task.Loosens m.world f ∧ (task.cutsLoops = false → f = id) ∧
      ((∃ left, m.step.agenda = left ++ frame.map f) ∨
        ∃ (m' : Machine) (failure : Failure), m'.agenda = frame.map f ∧
          m.step = m'.fail failure) := by
  have hstep := h.leavesBelow hagenda
  generalize m.step = next at hstep ⊢
  cases hstep with
  | @on _ tasks f hf hcuts heq =>
      rw [List.map_append, ← List.append_assoc] at heq
      exact ⟨f, hf, hcuts, .inl ⟨_, heq⟩⟩
  | @failed m' tasks f hf hcuts htasks heq failure =>
      refine ⟨f, hf, hcuts, ?_⟩
      rw [List.map_append, ← List.append_assoc] at heq
      by_cases hcaught : ∃ b, .dispatch b ∈ tasks ++ nested.map f
      · obtain ⟨b, hb⟩ := hcaught
        rw [agenda_fail, heq]
        exact .inl (exists_unwind_append hb _)
      · rw [not_exists] at hcaught
        exact .inr ⟨{ m' with agenda := frame.map f }, failure, rfl,
          fail_of_append _ heq hcaught _⟩

/-! ## Calls one after the other -/

variable {hs made done waiting : List HandlerId} {h : HandlerId} {param : String}

/-- Some handlers are called with a text one after the other, above a frame; `made` are those
whose call has begun. -/
inductive Multicast (hs : List HandlerId) (param : String) (frame : List Task) :
    (made : List HandlerId) → (agenda : List Task) → Prop
  | next {made waiting : List HandlerId} (hsplit : hs = made ++ waiting) :
      Multicast hs param frame made (.multicast made waiting param :: frame)
  | call {made waiting : List HandlerId} {h : HandlerId} (hsplit : hs = made ++ h :: waiting) :
      Multicast hs param frame made
        (.call h param :: .multicast (made ++ [h]) waiting param :: frame)
  | during {done waiting : List HandlerId} {h : HandlerId} (above : List Task)
      {source : Option BusId} {steps : List Step} (hsplit : hs = done ++ h :: waiting) :
      Multicast hs param frame (done ++ [h])
        (above ++ .script h source steps :: .multicast (done ++ [h]) waiting param :: frame)

/-- The call that begins with the next step, above a frame of the given length. -/
def call? (depth : ℕ) (m : Machine) : Option (HandlerId × String) :=
  match m.agenda with
  | .call h param :: .multicast _ _ _ :: frame =>
    if frame.length = depth then some (h, param) else none
  | _ => none

/-- How calls have ended. -/
inductive MulticastEnds (hs : List HandlerId) (frame : List Task) (m : Machine) :
    (made : List HandlerId) → Prop
  | returned (hagenda : m.step.agenda = frame) : MulticastEnds hs frame m hs
  | raised {done waiting : List HandlerId} {h : HandlerId} {f : Task → Task} {m' : Machine}
      (hsplit : hs = done ++ h :: waiting) (hf : Task.Loosens m.world f) (failure : Failure)
      (hagenda : m'.agenda = frame.map f) (hstep : m.step = m'.fail failure) :
      MulticastEnds hs frame m (done ++ [h])

theorem Multicast.step_next (hsplit : hs = made ++ waiting)
    (hagenda : m.agenda = .multicast made waiting param :: frame) :
    (∃ h rest, waiting = h :: rest ∧ Multicast hs param frame made m.step.agenda) ∨
      waiting = [] ∧ m.step.agenda = frame := by
  rw [step_eq hagenda]
  cases waiting with
  | nil => exact .inr ⟨rfl, rfl⟩
  | cons h rest => exact .inl ⟨h, rest, rfl, .call hsplit⟩

/-- What is left of the calls is given up with the handler that is running. -/
theorem MulticastEnds.of_fail {m' : Machine} (above : List Task) {f : Task → Task}
    (hsplit : hs = done ++ h :: waiting) (hf : Task.Loosens m.world f)
    (hagenda : m'.agenda = above ++ frame.map f) (habove : ∀ b, .dispatch b ∉ above)
    {failure : Failure} (hstep : m.step = m'.fail failure) :
    MulticastEnds hs frame m (done ++ [h]) :=
  .raised hsplit hf failure (by rfl) (hstep.trans (fail_of_append above hagenda habove failure))

theorem multicast_step_call (hsplit : hs = done ++ h :: waiting)
    (hagenda : m.agenda = .call h param :: .multicast (done ++ [h]) waiting param :: frame) :
    Multicast hs param frame (done ++ [h]) m.step.agenda ∨
      MulticastEnds hs frame m (done ++ [h]) := by
  have hnext : hs = done ++ [h] ++ waiting := by simpa using hsplit
  have hstep := step_eq hagenda
  dsimp only [exec] at hstep
  unfold runHandler at hstep
  split at hstep
  · exact .inr (.of_fail [.multicast (done ++ [h]) waiting param] hsplit .none (by simp)
      (by simp) hstep)
  · split at hstep <;> rw [hstep]
    · exact .inl (.next hnext)
    · exact .inl (.during [] hsplit)

theorem multicast_step_script {source : Option BusId} {steps : List Step}
    (hsplit : hs = done ++ h :: waiting)
    (hagenda : m.agenda =
      .script h source steps :: .multicast (done ++ [h]) waiting param :: frame) :
    Multicast hs param frame (done ++ [h]) m.step.agenda ∨
      MulticastEnds hs frame m (done ++ [h]) := by
  have hnext : hs = done ++ [h] ++ waiting := by simpa using hsplit
  have hstep := step_eq hagenda
  dsimp only [exec] at hstep
  unfold script at hstep
  split at hstep
  · rw [hstep]
    exact .inl (.next hnext)
  · refine .inl ?_
    rw [hstep]
    cases source <;> exact .during [] hsplit
  · exact .inr (.of_fail [.multicast (done ++ [h]) waiting param] hsplit .none (by simp)
      (by simp) hstep)
  · rename_i step rest _ _
    rw [hstep]
    exact .inl (.during [.perform step, .returned h step.name] hsplit)

theorem multicast_step_above (hm : Sound m) {above : List Task} {source : Option BusId}
    {steps : List Step} (hsplit : hs = done ++ h :: waiting)
    (hagenda : m.agenda = task ::
      (above ++ .script h source steps :: .multicast (done ++ [h]) waiting param :: frame)) :
    (∃ f, Task.Loosens m.world f ∧ Multicast hs param (frame.map f) (done ++ [h]) m.step.agenda) ∨
      MulticastEnds hs frame m (done ++ [h]) := by
  obtain ⟨f, hf, -, hstep⟩ := hm.nested_step hagenda
  have hscript : f (.script h source steps) = .script h source steps :=
    hf.keepsFrames.eq_of_ne (by simp)
  have hmulticast : f (.multicast (done ++ [h]) waiting param) =
      .multicast (done ++ [h]) waiting param := hf.keepsFrames.eq_of_ne (by simp)
  simp only [List.map_cons, hscript, hmulticast] at hstep
  rcases hstep with ⟨left, hleft⟩ | ⟨m', failure, hfailed, hstep⟩
  · exact .inl ⟨f, hf, hleft ▸ .during left hsplit⟩
  · exact .inr (.of_fail [.script h source steps, .multicast (done ++ [h]) waiting param] hsplit
      hf hfailed (by simp) hstep)

/-- No call begins as deep as that. -/
theorem call?_of_deeper {depth : ℕ} (h : depth + 2 < m.agenda.length) :
    call? depth m = none := by
  unfold call?
  split
  · rename_i handler param _ _ _ frame hagenda
    refine if_neg fun hdepth => ?_
    simp only [hagenda, List.length_cons] at h
    omega
  · rfl

/-- One step of several calls. -/
theorem Sound.multicast_step (h : Sound m) (hcalls : Multicast hs param frame made m.agenda) :
    ∃ made', made'.map (·, param) = made.map (·, param) ++ (call? frame.length m).toList ∧
      ((∃ f, Task.Loosens m.world f ∧ Multicast hs param (frame.map f) made' m.step.agenda) ∨
        MulticastEnds hs frame m made') := by
  generalize hagenda : m.agenda = agenda at hcalls
  cases hcalls with
  | @next _ waiting hsplit =>
      refine ⟨made, by simp [call?, hagenda], ?_⟩
      rcases Multicast.step_next hsplit hagenda with ⟨h, rest, -, hnext⟩ | ⟨rfl, hframe⟩
      · exact .inl ⟨id, .none, by rwa [List.map_id]⟩
      · rw [List.append_nil] at hsplit
        exact .inr (hsplit ▸ .returned hframe)
  | @call _ waiting k hsplit =>
      refine ⟨made ++ [k], by simp [call?, hagenda], ?_⟩
      refine (multicast_step_call hsplit hagenda).imp_left fun hnext => ⟨id, .none, ?_⟩
      rwa [List.map_id]
  | @during done waiting k above source steps hsplit =>
      cases above with
      | nil =>
          refine ⟨done ++ [k], by simp [call?, hagenda], ?_⟩
          refine (multicast_step_script hsplit hagenda).imp_left fun hnext => ⟨id, .none, ?_⟩
          rwa [List.map_id]
      | cons task above =>
          refine ⟨done ++ [k], ?_, multicast_step_above h hsplit hagenda⟩
          rw [call?_of_deeper ?_, Option.toList_none, List.append_nil]
          simp only [hagenda, List.length_append, List.length_cons]
          omega

end Parley.Machine
