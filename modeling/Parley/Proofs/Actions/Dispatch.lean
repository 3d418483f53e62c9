import Parley.Proofs.Actions.Multicast
import Parley.Proofs.Actions.Registry
import Parley.Proofs.Session.Passage

/-!
# Firing the actions of a line

A session fires the actions of a line one after the other.  Each finds the handlers that are
registered for its tag when it is reached, and these are called before the next action is; what
they do to the registry matters for later actions only.  A handler that raises ends it all, and
its failure is passed on to whoever fired the actions (`Execution.fires`).

Two lists tell what has happened since a time: the actions that have been reached, each with the
handlers it found (`reach?`), and the calls that have begun (`call?`).

## Strategy

The loop is between two actions, about to handle one, or calling its handlers; what has been
reached and called up to then is exactly what its place says (`Dispatching`).  One step leads from
one of these to the next, or to the end of the loop (`Sound.dispatching_step`).  Whether the loop
still follows its line or has been cut off from it makes no difference as long as the line keeps
its actions (`Course.At`).
-/

namespace Parley

/-- A loop over some actions of a line has the first `k` of them behind it. -/
def Course.At (actions : List Action) (line : LineRef) (k : ℕ) (course : Course) : Prop :=
  course = .live line k ∨ course = .frozen (actions.drop k)

/-- Cutting loops off from a line with the actions it has does not move a loop. -/
theorem Task.Loosens.course {w : World} {f : Task → Task} (hf : Loosens w f)
    {all : List Action} {line : LineRef} (hline : (w.line line).actions = all) {k : ℕ}
    {course : Course} (hat : course.At all line k) (sink : Sink) :
    ∃ course', f (.actions sink course) = .actions sink course' ∧ course'.At all line k := by
  cases hf with
  | none => exact ⟨course, rfl, hat⟩
  | cut ref =>
      rcases hat with rfl | rfl
      · by_cases heq : line = ref
        · subst heq
          exact ⟨_, if_pos rfl, .inr (by rw [hline])⟩
        · exact ⟨_, if_neg heq, .inl rfl⟩
      · exact ⟨_, rfl, .inr rfl⟩

namespace Machine

variable {x : ℕ → Machine} {m : Machine} {s : SessionId} {line : LineRef} {all : List Action}
  {rest : List Task} {course : Course} {k : ℕ}

theorem nextAction_at {w : World} (hline : (w.line line).actions = all)
    (hat : course.At all line k) :
    all[k]? = none ∧ nextAction w course = none ∨
      ∃ action course', all[k]? = some action ∧ nextAction w course = some (action, course') ∧
        course'.At all line (k + 1) := by
  rcases hat with rfl | rfl
  · rw [nextAction, hline]
    cases all[k]? with
    | none => exact .inl ⟨rfl, rfl⟩
    | some action => exact .inr ⟨action, _, rfl, rfl, .inl rfl⟩
  · cases hdrop : all.drop k with
    | nil => exact .inl ⟨List.getElem?_eq_none (List.drop_eq_nil_iff.mp hdrop), rfl⟩
    | cons action later =>
        refine .inr ⟨action, _, ?_, rfl, .inr ?_⟩
        · rw [← List.head?_drop, hdrop, List.head?_cons]
        · rw [← List.tail_drop, hdrop, List.tail_cons]

/-! ## What has been reached and called -/

/-- The action that is handled by the next step for a session, in a loop above an agenda of the
given length, with the handlers that are registered for its tag by then. -/
def reach? (s : SessionId) (depth : ℕ) (m : Machine) : Option (Action × List HandlerId) :=
  match m.agenda with
  | .handleAction t tag param :: .actions _ _ :: below =>
    if t = s ∧ below.length = depth then some (⟨tag, param⟩, m.world.handlersOf s tag)
    else none
  | _ => none

/-- The calls that an action with some handlers leads to. -/
def callsFor (reached : Action × List HandlerId) : List (HandlerId × String) :=
  reached.2.map fun h => (h, reached.1.param)

/-- Where a loop over the actions of a line stands, what it has reached and what has been
called. -/
inductive Dispatching (s : SessionId) (line : LineRef) (all : List Action) (rest : List Task) :
    List (Action × List HandlerId) → List (HandlerId × String) → List Task → Prop
  | between {reached : List (Action × List HandlerId)} {k : ℕ} {course : Course}
      {f : Task → Task} (hreached : reached.map Prod.fst = all.take k)
      (hat : course.At all line k) (hf : Task.KeepsFrames f) :
      Dispatching s line all rest reached (reached.flatMap callsFor)
        (.actions (.session s) course :: rest.map f)
  | reaching {reached : List (Action × List HandlerId)} {k : ℕ} {action : Action}
      {course : Course} {f : Task → Task} (hreached : reached.map Prod.fst = all.take k)
      (hnext : all[k]? = some action) (hat : course.At all line (k + 1))
      (hf : Task.KeepsFrames f) :
      Dispatching s line all rest reached (reached.flatMap callsFor)
        (.handleAction s action.tag action.param :: .actions (.session s) course :: rest.map f)
  | calling {before : List (Action × List HandlerId)} {k : ℕ} {action : Action}
      {course : Course} {f : Task → Task} {hs made : List HandlerId} {agenda : List Task}
      (hbefore : before.map Prod.fst = all.take k) (hnext : all[k]? = some action)
      (hat : course.At all line (k + 1)) (hf : Task.KeepsFrames f)
      (hcalls : Multicast hs action.param (.actions (.session s) course :: rest.map f) made
        agenda) :
      Dispatching s line all rest (before ++ [(action, hs)])
        (before.flatMap callsFor ++ made.map fun h => (h, action.param)) agenda

/-- How a loop over the actions of a line ends with a step: all actions have been reached and all
of their handlers called, or a handler has raised. -/
inductive DispatchEnds (s : SessionId) (all : List Action) (rest : List Task) (m : Machine) :
    List (Action × List HandlerId) → List (HandlerId × String) → Prop
  | completed {reached : List (Action × List HandlerId)} {course : Course} {f : Task → Task}
      (hreached : reached.map Prod.fst = all)
      (hagenda : m.agenda = .actions (.session s) course :: rest.map f)
      (hf : Task.KeepsFrames f) (hstep : m.step.agenda = rest.map f) :
      DispatchEnds s all rest m reached (reached.flatMap callsFor)
  | raised {before : List (Action × List HandlerId)} {action : Action}
      {done waiting : List HandlerId} {h : HandlerId} {f : Task → Task} {m' : Machine}
      (hreached : before.map Prod.fst ++ [action] <+: all) (failure : Failure)
      (hf : Task.KeepsFrames f) (hagenda : m'.agenda = rest.map f)
      (hstep : m.step = m'.fail failure) :
      DispatchEnds s all rest m (before ++ [(action, done ++ h :: waiting)])
        (before.flatMap callsFor ++ (done ++ [h]).map fun k => (k, action.param))

/-! ## One step -/

variable {reached : List (Action × List HandlerId)} {called : List (HandlerId × String)}

theorem take_succ_of_getElem? {α : Type} {l : List α} {k : ℕ} {a : α} (h : l[k]? = some a) :
    l.take (k + 1) = l.take k ++ [a] := by
  rw [List.take_add_one, h]
  rfl

/-- While handlers are called no action is reached. -/
theorem Multicast.reach?_eq_none {hs made : List HandlerId} {param : String} {below : List Task}
    {sink : Sink} (h : Multicast hs param (.actions sink course :: below) made m.agenda) :
    reach? s below.length m = none := by
  generalize hagenda : m.agenda = agenda at h
  rw [reach?, hagenda]
  cases h with
  | next hsplit => rfl
  | call hsplit => rfl
  | @during done waiting h above source steps hsplit =>
      split
      · rename_i t tag param' _ _ under heq
        refine if_neg fun hdepth => ?_
        have hlength := congrArg List.length heq
        simp only [List.length_append, List.length_cons] at hlength
        omega
      · rfl

theorem dispatching_step_between (hreached : reached.map Prod.fst = all.take k)
    (hat : course.At all line k) {f : Task → Task} (hf : Task.KeepsFrames f)
    (hagenda : m.agenda = .actions (.session s) course :: rest.map f)
    (hline : (m.world.line line).actions = all) :
    Dispatching s line all rest reached (reached.flatMap callsFor) m.step.agenda ∨
      DispatchEnds s all rest m reached (reached.flatMap callsFor) := by
  have hstep := step_eq hagenda
  dsimp only [exec, actions] at hstep
  rcases nextAction_at hline hat with ⟨hnone, hnext⟩ | ⟨action, course', hsome, hnext, hat'⟩
  · rw [hnext] at hstep
    have hall : all.take k = all := List.take_of_length_le (List.getElem?_eq_none_iff.mp hnone)
    exact .inr (.completed (hreached.trans hall) hagenda hf (by rw [hstep]))
  · rw [hnext] at hstep
    rw [hstep]
    exact .inl (.reaching hreached hsome hat' hf)

theorem dispatching_step_reaching {action : Action}
    (hreached : reached.map Prod.fst = all.take k) (hnext : all[k]? = some action)
    (hat : course.At all line (k + 1)) {f : Task → Task} (hf : Task.KeepsFrames f)
    (hagenda : m.agenda =
      .handleAction s action.tag action.param :: .actions (.session s) course :: rest.map f)
    {session : Session} (hs : m.world.session? s = some session) :
    Dispatching s line all rest (reached ++ [(action, m.world.handlersOf s action.tag)])
      (reached.flatMap callsFor) m.step.agenda := by
  have hstep := step_eq hagenda
  dsimp only [exec, handleAction] at hstep
  rw [hs] at hstep
  have hcalls : Multicast (session.handlersOf action.tag) action.param
      (.actions (.session s) course :: rest.map f) [] m.step.agenda := by
    rw [hstep]
    exact .next (List.nil_append _).symm
  have hcalling := Dispatching.calling hreached hnext hat hf hcalls
  rw [List.map_nil, List.append_nil, ← World.handlersOf_eq hs] at hcalling
  exact hcalling

theorem Sound.dispatching_step_calling (h : Sound m) {action : Action}
    (hreached : reached.map Prod.fst = all.take k) (hnext : all[k]? = some action)
    (hat : course.At all line (k + 1)) {f : Task → Task} (hf : Task.KeepsFrames f)
    {hs made : List HandlerId}
    (hcalls : Multicast hs action.param (.actions (.session s) course :: rest.map f) made m.agenda)
    (hline : (m.world.line line).actions = all) :
    let called' := reached.flatMap callsFor ++ (made.map fun h => (h, action.param)) ++
      (call? (rest.length + 1) m).toList
    Dispatching s line all rest (reached ++ [(action, hs)]) called' m.step.agenda ∨
      DispatchEnds s all rest m (reached ++ [(action, hs)]) called' := by
  intro called'
  have hupto : (reached ++ [(action, hs)]).map Prod.fst = all.take (k + 1) := by
    rw [take_succ_of_getElem? hnext, List.map_append, hreached]
    rfl
  obtain ⟨made', hmade, hstep⟩ := h.multicast_step hcalls
  rw [List.length_cons, List.length_map] at hmade
  have hcalled : called' = reached.flatMap callsFor ++ made'.map fun h => (h, action.param) := by
    rw [hmade, ← List.append_assoc]
  rw [hcalled]
  rcases hstep with ⟨g, hg, hcalls'⟩ | hend
  · obtain ⟨course', heq, hat'⟩ := hg.course hline hat (.session s)
    rw [List.map_cons, heq, List.map_map] at hcalls'
    exact .inl (.calling hreached hnext hat' (hf.comp hg.keepsFrames) hcalls')
  · cases hend with
    | returned hagenda =>
        refine .inl ?_
        have hflat : reached.flatMap callsFor ++ (hs.map fun h => (h, action.param)) =
            (reached ++ [(action, hs)]).flatMap callsFor := by simp [callsFor]
        rw [hflat, hagenda]
        exact .between hupto hat hf
    | @raised done waiting k g m' hsplit hg failure hagenda hfails =>
        subst hsplit
        obtain ⟨course', heq, -⟩ := hg.course hline hat (.session s)
        rw [List.map_cons, heq, List.map_map] at hagenda
        have hpassed := fail_of_append [.actions (.session s) course'] hagenda (by simp) failure
        refine .inr (.raised ?_ failure (hf.comp hg.keepsFrames) (by rfl) (hfails.trans hpassed))
        rw [hreached, ← take_succ_of_getElem? hnext]
        exact List.take_prefix _ _

theorem Sound.dispatching_step (h : Sound m)
    (hdispatching : Dispatching s line all rest reached called m.agenda)
    (hline : (m.world.line line).actions = all) {session : Session}
    (hs : m.world.session? s = some session) :
    let reached' := reached ++ (reach? s rest.length m).toList
    let called' := called ++ (call? (rest.length + 1) m).toList
    Dispatching s line all rest reached' called' m.step.agenda ∨
      DispatchEnds s all rest m reached' called' := by
  intro reached' called'
  generalize hagenda : m.agenda = agenda at hdispatching
  cases hdispatching with
  | between hreached hat hf =>
      have hreach : reached' = reached := by simp [reached', reach?, hagenda]
      have hcall : called' = reached.flatMap callsFor := by simp [called', call?, hagenda]
      rw [hreach, hcall]
      exact dispatching_step_between hreached hat hf hagenda hline
  | @reaching _ k action course f hreached hnext hat hf =>
      have hreach : reached' = reached ++ [(action, m.world.handlersOf s action.tag)] := by
        simp [reached', reach?, hagenda]
      have hcall : called' = reached.flatMap callsFor := by simp [called', call?, hagenda]
      rw [hreach, hcall]
      exact .inl (dispatching_step_reaching hreached hnext hat hf hagenda hs)
  | @calling before k action course f hs made _ hbefore hnext hat hf hcalls =>
      subst hagenda
      have hreach : reached' = before ++ [(action, hs)] := by
        have hnone := hcalls.reach?_eq_none (s := s)
        rw [List.length_map] at hnone
        simp [reached', hnone]
      rw [hreach]
      exact h.dispatching_step_calling hbefore hnext hat hf hcalls hline

/-! ## A whole loop -/

theorem Multicast.made_prefix {hs made : List HandlerId} {param : String} {frame agenda : List Task}
    (h : Multicast hs param frame made agenda) : made <+: hs := by
  cases h with
  | next hsplit => exact ⟨_, hsplit.symm⟩
  | call hsplit => exact ⟨_, hsplit.symm⟩
  | @during done waiting h above source steps hsplit => exact ⟨waiting, by simp [hsplit]⟩

theorem Multicast.length_lt {hs made : List HandlerId} {param : String} {frame agenda : List Task}
    (h : Multicast hs param frame made agenda) : frame.length < agenda.length := by
  cases h <;> simp only [List.length_append, List.length_cons] <;> omega

theorem Dispatching.length_lt {agenda : List Task}
    (h : Dispatching s line all rest reached called agenda) : rest.length < agenda.length := by
  cases h with
  | between hreached hat hf | reaching hreached hnext hat hf =>
      simp only [List.length_cons, List.length_map]
      omega
  | calling hbefore hnext hat hf hcalls =>
      have hlength := hcalls.length_lt
      simp only [List.length_cons, List.length_map] at hlength
      omega

theorem DispatchEnds.length_le (h : DispatchEnds s all rest m reached called) :
    m.step.agenda.length ≤ rest.length := by
  cases h with
  | completed hreached hagenda hf hstep => simp [hstep]
  | @raised _ _ _ _ _ f m' hreached failure hf hagenda hstep =>
      obtain ⟨before, heq, -⟩ := exists_eq_append_unwind m'.agenda
      have hlength := congrArg List.length heq
      rw [hagenda, List.length_map, List.length_append] at hlength
      rw [hstep, agenda_fail, hagenda]
      omega

/-- Firing the actions of a line, by a number of steps after it has begun above the rest of an
agenda. -/
structure Fires (s : SessionId) (all : List Action) (rest : List Task) (x : ℕ → Machine)
    (i n : ℕ) : Prop where
  /-- The actions are reached in the order of the line. -/
  reached : ((stretch x i n).filterMap (reach? s rest.length)).map Prod.fst <+: all
  /-- The handlers that an action has found are called with its text, one after the other. -/
  called : (stretch x i n).filterMap (call? (rest.length + 1)) <+:
    ((stretch x i n).filterMap (reach? s rest.length)).flatMap callsFor
  /-- All of them have been called before the next action is reached. -/
  inTurn : (reach? s rest.length (x (i + n))).isSome →
    (stretch x i n).filterMap (call? (rest.length + 1)) =
      ((stretch x i n).filterMap (reach? s rest.length)).flatMap callsFor
  /-- The end comes after the last action or with the first handler that raises. -/
  ended : (x (i + n)).agenda.length ≤ rest.length → ∃ j, n = j + 1 ∧
    DispatchEnds s all rest (x (i + j)) ((stretch x i n).filterMap (reach? s rest.length))
      ((stretch x i n).filterMap (call? (rest.length + 1)))

theorem Dispatching.reached_prefix {agenda : List Task}
    (h : Dispatching s line all rest reached called agenda) : reached.map Prod.fst <+: all := by
  cases h with
  | between hreached hat hf => exact hreached ▸ List.take_prefix _ _
  | reaching hreached hnext hat hf => exact hreached ▸ List.take_prefix _ _
  | @calling before k action course f hs made _ hbefore hnext hat hf hcalls =>
      rw [List.map_append, hbefore, List.map_singleton, ← take_succ_of_getElem? hnext]
      exact List.take_prefix _ _

theorem Dispatching.called_prefix {agenda : List Task}
    (h : Dispatching s line all rest reached called agenda) :
    called <+: reached.flatMap callsFor := by
  cases h with
  | between hreached hat hf => exact List.prefix_refl _
  | reaching hreached hnext hat hf => exact List.prefix_refl _
  | @calling before k action course f hs made _ hbefore hnext hat hf hcalls =>
      rw [List.flatMap_append, List.flatMap_singleton]
      exact (List.prefix_append_right_inj _).mpr (hcalls.made_prefix.map _)

/-- An action is reached only if all handlers of those before have been called. -/
theorem Dispatching.called_eq (h : Dispatching s line all rest reached called m.agenda)
    (hreaches : (reach? s rest.length m).isSome) : called = reached.flatMap callsFor := by
  generalize hagenda : m.agenda = agenda at h
  cases h with
  | between hreached hat hf => rfl
  | reaching hreached hnext hat hf => rfl
  | @calling before k action course f hs made _ hbefore hnext hat hf hcalls =>
      subst hagenda
      have hnone := hcalls.reach?_eq_none (s := s)
      rw [List.length_map] at hnone
      exact absurd hreaches (by simp [hnone])

theorem lt_of_reach?_isSome {depth : ℕ} (h : (reach? s depth m).isSome) :
    depth < m.agenda.length := by
  unfold reach? at h
  split at h
  · rename_i t tag param _ _ below hagenda
    split at h
    · rename_i hdepth
      rw [hagenda, ← hdepth.2]
      simp only [List.length_cons]
      omega
    · exact absurd h (by simp)
  · exact absurd h (by simp)

theorem DispatchEnds.reached_prefix (h : DispatchEnds s all rest m reached called) :
    reached.map Prod.fst <+: all := by
  cases h with
  | completed hreached hagenda hf hstep => exact hreached ▸ List.prefix_refl _
  | raised hreached failure hf hagenda hstep =>
      rw [List.map_append, List.map_singleton]
      exact hreached

theorem DispatchEnds.called_prefix (h : DispatchEnds s all rest m reached called) :
    called <+: reached.flatMap callsFor := by
  cases h with
  | completed hreached hagenda hf hstep => exact List.prefix_refl _
  | @raised before action done waiting h f m' hreached failure hf hagenda hstep =>
      rw [List.flatMap_append, List.flatMap_singleton]
      refine (List.prefix_append_right_inj _).mpr (List.IsPrefix.map _ ?_)
      exact ⟨waiting, by simp⟩

/-- Where the loop stands after some steps, if it has not come to its end before. -/
theorem Execution.dispatching (h : Execution x) {i n : ℕ} {session : Session}
    (hagenda : (x i).agenda = .actions (.session s) (.live line 0) :: rest)
    (hs : (x i).world.session? s = some session)
    (hline : ∀ j, j < n → ((x (i + j)).world.line line).actions = all)
    (hbusy : ∀ j, j < n → rest.length < (x (i + j)).agenda.length) :
    let reached := (stretch x i n).filterMap (reach? s rest.length)
    let called := (stretch x i n).filterMap (call? (rest.length + 1))
    Dispatching s line all rest reached called (x (i + n)).agenda ∨
      ∃ j, n = j + 1 ∧ DispatchEnds s all rest (x (i + j)) reached called := by
  induction n with
  | zero =>
      refine .inl ?_
      show Dispatching s line all rest [] [] (x i).agenda
      have hnone : ([] : List (Action × List HandlerId)).map Prod.fst = all.take 0 := rfl
      have hstart : Dispatching s line all rest [] []
          (.actions (.session s) (.live line 0) :: rest.map id) :=
        .between hnone (.inl rfl) Task.keepsFrames_id
      rwa [List.map_id, ← hagenda] at hstart
  | succ n ih =>
      have hlong := hbusy n (Nat.lt_succ_self n)
      have hstep : x (i + (n + 1)) = (x (i + n)).step :=
        h.eq_step (List.ne_nil_of_length_pos (Nat.zero_lt_of_lt hlong))
      intro reached called
      have hreached : reached = (stretch x i n).filterMap (reach? s rest.length) ++
          (reach? s rest.length (x (i + n))).toList := by
        simp only [reached, stretch_add_one, List.filterMap_append]
        cases hlast : reach? s rest.length (x (i + n)) <;> simp [hlast]
      have hcalled : called = (stretch x i n).filterMap (call? (rest.length + 1)) ++
          (call? (rest.length + 1) (x (i + n))).toList := by
        simp only [called, stretch_add_one, List.filterMap_append]
        cases hlast : call? (rest.length + 1) (x (i + n)) <;> simp [hlast]
      rw [hreached, hcalled]
      rcases ih (fun j hj => hline j (by omega)) fun j hj => hbusy j (by omega) with
        hdispatching | ⟨j, rfl, hends⟩
      · obtain ⟨session', hs'⟩ := h.session_of_le hs (Nat.le_add_right i n)
        rw [hstep]
        exact ((h.reachable (i + n)).sound.dispatching_step hdispatching
          (hline n (Nat.lt_succ_self n)) hs').imp_right fun hends => ⟨n, rfl, hends⟩
      -- The loop has been over for a while.
      · have hover := hends.length_le
        rw [← h.eq_step (List.ne_nil_of_length_pos
          (Nat.zero_lt_of_lt (hbusy j (by omega)))), Nat.add_assoc] at hover
        omega

/-- The actions of a line that keeps them are fired in order. -/
theorem Execution.fires (h : Execution x) {i n : ℕ} {session : Session}
    (hagenda : (x i).agenda = .actions (.session s) (.live line 0) :: rest)
    (hs : (x i).world.session? s = some session)
    (hline : ∀ j, j < n → ((x (i + j)).world.line line).actions = all)
    (hbusy : ∀ j, j < n → rest.length < (x (i + j)).agenda.length) :
    Fires s all rest x i n := by
  rcases h.dispatching hagenda hs hline hbusy with hdispatching | ⟨j, rfl, hends⟩
  · exact ⟨hdispatching.reached_prefix, hdispatching.called_prefix, hdispatching.called_eq,
      fun hover => absurd hover (Nat.not_le.mpr hdispatching.length_lt)⟩
  · refine ⟨hends.reached_prefix, hends.called_prefix, fun hreaches => ?_,
      fun _ => ⟨j, rfl, hends⟩⟩
    have hover := hends.length_le
    rw [← h.eq_step (List.ne_nil_of_length_pos
      (Nat.zero_lt_of_lt (hbusy j (by omega)))), Nat.add_assoc] at hover
    exact absurd (lt_of_reach?_isSome hreaches) (Nat.not_lt.mpr hover)

/-! ## Firing what is registered -/

/-- The host is told the handlers of a tag in the order of the registry. -/
theorem Execution.result_actionHandlers (h : Execution x) {n : ℕ} {session : Session}
    (hs : (x n).world.session? s = some session) {name tag : String}
    (hname : (x n).world.sessionNames.get? name = some s)
    (hagenda : (x n).agenda = .perform (.session name (.actionHandlers tag)) :: rest) :
    (x (n + 1)).result = .ok (.texts (handlerNames (x n).world (session.handlersOf tag))) := by
  have hfound : ((x n).world.sessionNames.get? name).bind
      (fun t => ((x n).world.session? t).map (t, ·)) = some (s, session) := by
    rw [hname, Option.bind_some, hs, Option.map_some]
  rw [h.eq_step (by simp [hagenda]), step_eq hagenda]
  dsimp only [exec, perform, withSession]
  rw [hfound]
  rfl

/-- A tag that a step does not touch keeps its handlers. -/
theorem Execution.handlersOf_of_not_touches (h : Execution x) {n : ℕ} {tag : String}
    (hother : ∀ change ∈ change? s (x n), ¬ change.Touches tag) :
    (x (n + 1)).world.handlersOf s tag = (x n).world.handlersOf s tag := by
  rw [(h.reachable n).sound.handlersOf_next (h.next n), handlersAfter]
  cases hchange : change? s (x n) with
  | none => rfl
  | some change => exact Change.on_of_not_touches (hother change hchange) _

/-- The registry of a session lists, for each tag, the handlers that are registered, in the order
of the registrations that have taken effect and without repetition; no change of another tag is
seen.  The actions of a line that keeps them are fired in order, each for the handlers that are
registered when it is reached, whatever these do to the registry. -/
theorem fires_what_is_registered (h : Execution x)
    (hempty : (x 0).world.registry s = Table.empty) :
    (∀ n session, (x n).world.session? s = some session → ∀ tag,
      Listed (registeredSince s tag x n) (session.handlersOf tag) ∧
        (session.handlersOf tag).Nodup ∧
        (∀ name rest, (x n).world.sessionNames.get? name = some s →
          (x n).agenda = .perform (.session name (.actionHandlers tag)) :: rest →
          (x (n + 1)).result =
            .ok (.texts (handlerNames (x n).world (session.handlersOf tag)))) ∧
        ((∀ change ∈ change? s (x n), ¬ change.Touches tag) →
          (x (n + 1)).world.handlersOf s tag = session.handlersOf tag)) ∧
      ∀ i n session line rest, (x i).world.session? s = some session →
        (x i).agenda = .actions (.session s) (.live line 0) :: rest →
        (∀ j < n, ((x (i + j)).world.line line).actions = ((x i).world.line line).actions) →
        (∀ j < n, rest.length < (x (i + j)).agenda.length) →
        Fires s ((x i).world.line line).actions rest x i n := by
  refine ⟨fun n session hs tag => ?_, fun i n session line rest hs hagenda hline hbusy =>
    h.fires hagenda hs hline hbusy⟩
  have hlisted := h.listed hempty tag n
  rw [World.handlersOf_eq hs] at hlisted
  refine ⟨hlisted, hlisted.nodup, fun name rest hname hagenda =>
    h.result_actionHandlers hs hname hagenda, fun hother => ?_⟩
  rw [h.handlersOf_of_not_touches hother, World.handlersOf_eq hs]

/-- A host with a line of two actions.  The handler of the first registers two for the second and
removes itself; the last of them raises. -/
def stirring : ℕ → Machine :=
  Machine.course { world := World.ofHandlers [
      ("a", [(1, [.session "s" (.registerAction "u" "b"), .session "s" (.registerAction "u" "c"),
        .session "s" (.removeAction "t" "a")])]),
      ("b", [(1, [])]),
      ("c", [(1, [.fail "ValueError" "no"])])] }
    [.newDisplay "d" "d" (.recording {} false),
      .newSession "s" "d" none (.records (.array [.object [("title", .string "A"),
        ("body", .string "Hi | actions([t|1], [u|2])")]]) none),
      .session "s" (.registerAction "t" "a"),
      .session "s" (.fireActions ⟨some "A", some 0⟩)]

theorem fires_what_is_registered_stirring :
    Execution stirring ∧
      (stretch stirring 10 23).filterMap (call? 3) = [(⟨0⟩, "1"), (⟨1⟩, "2"), (⟨2⟩, "2")] ∧
      (∃ session, (stirring 33).world.session? ⟨0⟩ = some session ∧
        Listed (registeredSince ⟨0⟩ "u" stirring 33) (session.handlersOf "u") ∧
        session.handlersOf "u" = [⟨1⟩, ⟨2⟩]) ∧
      Fires ⟨0⟩ [⟨"t", "1"⟩, ⟨"u", "2"⟩] (stirring 10).agenda.tail stirring 10 23 := by
  have h : Execution stirring := execution_course (initial_ofHandlers _) _
  obtain ⟨hregistry, hfires⟩ := fires_what_is_registered (s := ⟨0⟩) h rfl
  obtain ⟨before, hbefore⟩ := Option.isSome_iff_exists.mp
    (show ((stirring 10).world.session? ⟨0⟩).isSome = true by decide +kernel)
  obtain ⟨after, hafter⟩ := Option.isSome_iff_exists.mp
    (show ((stirring 33).world.session? ⟨0⟩).isSome = true by decide +kernel)
  have hline : ∀ j < 23, ((stirring (10 + j)).world.line ⟨⟨0⟩, 0, "A", 0⟩).actions =
      [⟨"t", "1"⟩, ⟨"u", "2"⟩] := by decide +kernel
  have hbusy : ∀ j < 23,
      (stirring 10).agenda.tail.length < (stirring (10 + j)).agenda.length := by
    decide +kernel
  have hfound : (stirring 33).world.handlersOf ⟨0⟩ "u" = [⟨1⟩, ⟨2⟩] := by decide +kernel
  have hall := hline 0 (by omega)
  refine ⟨h, by decide +kernel, ⟨after, hafter, (hregistry 33 after hafter "u").1, ?_⟩, ?_⟩
  · rw [← World.handlersOf_eq hafter, hfound]
  · have hfired := hfires 10 23 before ⟨⟨0⟩, 0, "A", 0⟩ (stirring 10).agenda.tail hbefore rfl
      (fun j hj => (hline j hj).trans hall.symm) hbusy
    rwa [show ((stirring 10).world.line ⟨⟨0⟩, 0, "A", 0⟩).actions = _ from hall] at hfired

end Machine

end Parley
