import Parley.Proofs.Machine.Execution

/-!
# The registry of action handlers

Three operations change the registry of a session: a handler is registered for a tag, removed
from it, or the session is finished for the first time and forgets them all.  Every other step
leaves it as it is (`handlersOf_next`).

A handler has been registered since some time unless it has been removed or forgotten after
that; a registration of a handler that is there already is without effect (`registeredSince`).
At every time the handlers of a tag are those registered since some time, the earlier ones first
(`Execution.listed`).
-/

namespace Parley

/-- A change of the action handlers of a session. -/
inductive Change where
  | register (tag : String) (h : HandlerId)
  | remove (tag : String) (h : HandlerId)
  | clear
  deriving DecidableEq, Repr

namespace Change

/-- Whether a change is about the handlers of a tag. -/
def Touches (tag : String) : Change → Prop
  | register tag' _ | remove tag' _ => tag' = tag
  | clear => True

/-- The handlers of a tag after a change. -/
def on (tag : String) (handlers : List HandlerId) : Change → List HandlerId
  | register tag' h =>
    if tag' = tag then if h ∈ handlers then handlers else handlers ++ [h] else handlers
  | remove tag' h => if tag' = tag then handlers.erase h else handlers
  | clear => []

/-- Since when a handler is registered for a tag after a change that takes place now. -/
def since (tag : String) (h : HandlerId) (now : ℕ) (before : Option ℕ) : Change → Option ℕ
  | register tag' h' => if tag' = tag ∧ h' = h then before.or (some now) else before
  | remove tag' h' => if tag' = tag ∧ h' = h then none else before
  | clear => none

theorem since_eq_some {tag : String} {h : HandlerId} {now i : ℕ} {before : Option ℕ}
    {change : Change} (hi : change.since tag h now before = some i) :
    before = some i ∨ i = now := by
  cases change with
  | register tag' h' =>
      rw [since] at hi
      split at hi
      · rcases Option.or_eq_some_iff.mp hi with hbefore | ⟨-, hnow⟩
        exacts [.inl hbefore, .inr (Option.some.inj hnow).symm]
      · exact .inl hi
  | remove tag' h' =>
      rw [since] at hi
      split at hi
      exacts [absurd hi (by simp), .inl hi]
  | clear => exact absurd hi (by simp [since])

theorem on_of_not_touches {tag : String} {change : Change} (h : ¬ change.Touches tag)
    (handlers : List HandlerId) : change.on tag handlers = handlers := by
  cases change with
  | register tag' handler => exact if_neg h
  | remove tag' handler => exact if_neg h
  | clear => exact absurd trivial h

end Change

/-- The handlers of a session for an action tag. -/
def World.handlersOf (w : World) (s : SessionId) (tag : String) : List HandlerId :=
  ((w.registry s).get? tag).getD []

theorem World.handlersOf_eq {w : World} {s : SessionId} {session : Session}
    (hs : w.session? s = some session) (tag : String) :
    w.handlersOf s tag = session.handlersOf tag := by
  rw [handlersOf, registry_eq hs, Session.handlersOf]

theorem World.SameRegistries.handlersOf {w w' : World} (h : SameRegistries w w') (s : SessionId)
    (tag : String) : w'.handlersOf s tag = w.handlersOf s tag := by
  rw [World.handlersOf, h s, World.handlersOf]

theorem World.handlersOf_modifySession (w : World) (s t : SessionId) (f : Session → Session)
    (tag : String) : (w.modifySession t f).handlersOf s tag =
      if t = s then (w.session? s).elim [] fun session => (f session).handlersOf tag
      else w.handlersOf s tag := by
  rw [handlersOf, registry, session?_modifySession]
  split
  · cases w.session? s <;> rfl
  · rfl

namespace Session

variable (session : Session) (tag tag' : String) (h : HandlerId)

theorem handlersOf_registerAction :
    (session.registerAction tag h).value.handlersOf tag' =
      (Change.register tag h).on tag' (session.handlersOf tag') := by
  dsimp only [registerAction, Change.on]
  by_cases htag : tag = tag'
  · subst htag
    rw [if_pos rfl]
    split
    · rfl
    · exact congrArg (Option.getD · []) (Table.get?_insert_self ..)
  · rw [if_neg htag]
    split
    · rfl
    · exact congrArg (Option.getD · []) ((Table.get?_insert ..).trans (if_neg htag))

theorem handlersOf_removeAction :
    (session.removeAction tag h).handlersOf tag' =
      (Change.remove tag h).on tag' (session.handlersOf tag') := by
  dsimp only [removeAction, Change.on]
  rw [handlersOf]
  dsimp only
  by_cases htag : tag = tag'
  · subst htag
    rw [if_pos rfl]
    split
    · rename_i hempty
      rw [Table.get?_erase, if_pos rfl, List.isEmpty_iff.mp hempty]
      rfl
    · rw [Table.get?_insert_self, Option.getD_some]
  · rw [if_neg htag]
    split
    · rw [Table.get?_erase, if_neg htag]
      rfl
    · rw [Table.get?_insert, if_neg htag]
      rfl

end Session

namespace Machine

variable {m m' : Machine} {s t : SessionId} {session : Session} {tag : String} {rest : List Task}

/-- The change of a registry that a step comes to by the names of a session and a handler. -/
def named (w : World) (s : SessionId) (name handler : String) (change : HandlerId → Change) :
    Option Change :=
  if w.sessionNames.get? name = some s ∧ (w.session? s).isSome then
    (w.handlerNames.get? handler).map change
  else none

/-- What the next step changes in the registry of a session. -/
def change? (s : SessionId) (m : Machine) : Option Change :=
  match m.agenda.head? with
  | some (.perform (.session name (.registerAction tag handler))) =>
    named m.world s name handler (.register tag)
  | some (.perform (.session name (.removeAction tag handler))) =>
    named m.world s name handler (.remove tag)
  | some (.finish t _) =>
    (m.world.session? t).bind fun session =>
      if t = s ∧ session.finished = false then some .clear else none
  | _ => none

/-! ## What a step does -/

/-- The handlers of a tag after what the next step changes. -/
def handlersAfter (m : Machine) (s : SessionId) (tag : String) : List HandlerId :=
  (change? s m).elim (m.world.handlersOf s tag) (Change.on tag (m.world.handlersOf s tag))

theorem change?_of_keeps {task : Task} (hagenda : m.agenda = task :: rest)
    (hkeeps : task.rewritesActions = false) : change? s m = none := by
  rw [change?, hagenda, List.head?_cons]
  split <;> simp_all [Task.rewritesActions]

theorem handlersOf_step_finish {onComplete : Option HandlerId}
    (hagenda : m.agenda = .finish t onComplete :: rest) :
    m.step.world.handlersOf s tag = m.handlersAfter s tag := by
  rw [step_eq hagenda, handlersAfter, change?, hagenda, List.head?_cons]
  dsimp only [exec]
  unfold finish
  split
  · rename_i hnone
    rw [world_fail]
    dsimp only at hnone ⊢
    rw [hnone, Option.bind_none, Option.elim_none]
  · rename_i session ht
    dsimp only at ht ⊢
    rw [ht, Option.bind_some]
    split
    · rename_i hfinished
      rw [if_neg (by simp [hfinished]), Option.elim_none]
      rfl
    · rename_i hopen
      rw [world_push, withWorld, World.handlersOf_modifySession, World.session?_modifyDisplay]
      by_cases hts : t = s
      · rw [if_pos hts, if_pos ⟨hts, by simpa using hopen⟩, ← hts, ht]
        rfl
      · rw [if_neg hts, if_neg fun h => hts h.1]
        rfl

theorem handlersOf_setSession (m : Machine) (ht : m.world.session? t = some session)
    (changed : Session) : (m.setSession t changed).world.handlersOf s tag =
      if t = s then changed.handlersOf tag else m.world.handlersOf s tag := by
  rw [setSession, withWorld, World.handlersOf_modifySession]
  split
  · rename_i hts
    rw [← hts, ht, Option.elim_some]
  · rfl

/-- A step by which the session of a name gets a handler changed. -/
theorem handlersOf_named (m : Machine) (name handler : String) {change : HandlerId → Change}
    {f : SessionId → Session → HandlerId → Machine}
    (hf : ∀ t session h, m.world.session? t = some session →
      (f t session h).world.handlersOf s tag =
        if t = s then (change h).on tag (session.handlersOf tag)
        else m.world.handlersOf s tag) :
    (m.withSession name fun t session => m.withHandler handler (f t session)).world.handlersOf s
        tag =
      (named m.world s name handler change).elim (m.world.handlersOf s tag)
        (Change.on tag (m.world.handlersOf s tag)) := by
  unfold withSession named withHandler
  cases hname : m.world.sessionNames.get? name with
  | none =>
      rw [Option.bind_none, if_neg (by simp)]
      exact congrArg (World.handlersOf · s tag) (world_fail ..)
  | some t =>
      rw [Option.bind_some]
      cases ht : m.world.session? t with
      | none =>
          rw [if_neg ?_]
          · exact congrArg (World.handlersOf · s tag) (world_fail ..)
          · rintro ⟨heq, hs⟩
            rw [← Option.some.inj heq, ht] at hs
            exact absurd hs (by simp)
      | some session =>
          rw [Option.map_some]
          dsimp only
          by_cases hts : t = s
          · subst hts
            rw [if_pos ⟨rfl, by rw [ht]; rfl⟩]
            cases m.world.handlerNames.get? handler with
            | none => exact congrArg (World.handlersOf · t tag) (world_fail ..)
            | some h =>
                refine (hf t session h ht).trans ?_
                rw [if_pos rfl, World.handlersOf_eq ht]
                rfl
          · rw [if_neg fun h => hts (Option.some.inj h.1), Option.elim_none]
            cases m.world.handlerNames.get? handler with
            | none => exact congrArg (World.handlersOf · s tag) (world_fail ..)
            | some h => exact (hf t session h ht).trans (if_neg hts)

/-- What a step does to the handlers of a tag. -/
theorem Sound.handlersOf_step (h : Sound m) (s : SessionId) (tag : String) :
    m.step.world.handlersOf s tag = m.handlersAfter s tag := by
  cases hagenda : m.agenda with
  | nil =>
      rw [step_of_agenda_eq_nil hagenda, handlersAfter, change?, hagenda]
      rfl
  | cons task rest =>
      cases hrewrites : task.rewritesActions with
      | false =>
          rw [handlersAfter, change?_of_keeps hagenda hrewrites, Option.elim_none]
          exact (h.registries_step hagenda hrewrites).handlersOf s tag
      | true =>
          unfold Task.rewritesActions at hrewrites
          split at hrewrites
          · exact handlersOf_step_finish hagenda
          · rename_i name tag' handler
            rw [step_eq hagenda, handlersAfter, change?, hagenda]
            refine handlersOf_named _ name handler fun t session h ht => ?_
            rw [world_give, ← Session.handlersOf_registerAction]
            exact handlersOf_setSession (m.logAll (session.registerAction tag' h).log) ht _
          · rename_i name tag' handler
            rw [step_eq hagenda, handlersAfter, change?, hagenda]
            refine handlersOf_named _ name handler fun t session h ht => ?_
            rw [world_give, handlersOf_setSession _ ht, Session.handlersOf_removeAction]
          · exact absurd hrewrites (by simp)

/-- What a moment of an execution does to the handlers of a tag. -/
theorem Sound.handlersOf_next (h : Sound m) (hnext : Next m m') (s : SessionId) (tag : String) :
    m'.world.handlersOf s tag = m.handlersAfter s tag := by
  cases hnext with
  | step => exact h.handlersOf_step s tag
  | host hagenda step =>
      rw [handlersAfter, change?, hagenda]
      rfl

/-! ## Since when a handler is registered -/

/-- The time of the registration that a handler is registered by, if it is registered. -/
def registeredSince (s : SessionId) (tag : String) (x : ℕ → Machine) :
    ℕ → HandlerId → Option ℕ
  | 0, _ => none
  | n + 1, h =>
    let before := registeredSince s tag x n h
    (change? s (x n)).elim before (Change.since tag h n before)

/-- Some handlers are those registered since some time, the earlier ones first. -/
structure Listed (since : HandlerId → Option ℕ) (handlers : List HandlerId) : Prop where
  mem : ∀ h, h ∈ handlers ↔ (since h).isSome
  ordered : handlers.Pairwise fun h k => ∃ i j, since h = some i ∧ since k = some j ∧ i < j

theorem Listed.nodup {since : HandlerId → Option ℕ} {handlers : List HandlerId}
    (h : Listed since handlers) : handlers.Nodup := by
  refine h.ordered.imp fun {a b} hlt heq => ?_
  obtain ⟨i, j, hi, hj, hij⟩ := hlt
  rw [heq, hj, Option.some.injEq] at hi
  omega

variable {since : HandlerId → Option ℕ} {handlers : List HandlerId} {now : ℕ}

/-- A handler that is registered now comes after all that are registered already. -/
theorem Listed.append {h : HandlerId} (hlisted : Listed since handlers) (hnew : h ∉ handlers)
    (hpast : ∀ k i, since k = some i → i < now) :
    Listed (fun k => if h = k then some now else since k) (handlers ++ [h]) := by
  have hsame : ∀ k ∈ handlers, (if h = k then some now else since k) = since k :=
    fun k hk => if_neg (by rintro rfl; exact hnew hk)
  refine ⟨fun k => ?_, List.pairwise_append.mpr ⟨?_, List.pairwise_singleton .., ?_⟩⟩
  · rw [List.mem_append, List.mem_singleton, hlisted.mem]
    by_cases hk : h = k
    · simp [hk]
    · simp [hk, Ne.symm hk]
  · refine hlisted.ordered.imp_of_mem fun {a b} ha hb hlt => ?_
    rw [hsame a ha, hsame b hb]
    exact hlt
  · intro k hk b hb
    rw [List.mem_singleton] at hb
    subst hb
    obtain ⟨i, hi⟩ := Option.isSome_iff_exists.mp ((hlisted.mem k).mp hk)
    exact ⟨i, now, (hsame k hk).trans hi, if_pos rfl, hpast k i hi⟩

theorem Listed.erase {h : HandlerId} (hlisted : Listed since handlers) :
    Listed (fun k => if h = k then none else since k) (handlers.erase h) := by
  have hmem : ∀ k, k ∈ handlers.erase h ↔ h ≠ k ∧ k ∈ handlers := fun k => by
    rw [hlisted.nodup.mem_erase_iff, ne_comm]
  refine ⟨fun k => ?_, ?_⟩
  · rw [hmem, hlisted.mem]
    by_cases hk : h = k <;> simp [hk]
  · refine (hlisted.ordered.sublist List.erase_sublist).imp_of_mem fun {a b} ha hb hlt => ?_
    rw [if_neg ((hmem a).mp ha).1, if_neg ((hmem b).mp hb).1]
    exact hlt

theorem Listed.change (hlisted : Listed since handlers) (tag : String) (change : Change)
    (hpast : ∀ k i, since k = some i → i < now) :
    Listed (fun h => change.since tag h now (since h)) (change.on tag handlers) := by
  cases change with
  | clear => exact ⟨fun h => by simp [Change.on, Change.since], List.Pairwise.nil⟩
  | remove tag' h =>
      by_cases htag : tag' = tag
      · simpa [Change.on, Change.since, htag] using hlisted.erase
      · simpa [Change.on, Change.since, htag] using hlisted
  | register tag' h =>
      by_cases htag : tag' = tag
      · by_cases hnew : h ∈ handlers
        · have hkept : ∀ k, Change.since tag k now (since k) (.register tag' h) = since k := by
            intro k
            rw [Change.since]
            split
            · rename_i heq
              obtain ⟨i, hi⟩ := Option.isSome_iff_exists.mp ((hlisted.mem h).mp hnew)
              rw [← heq.2, hi]
              rfl
            · rfl
          simp only [hkept]
          rw [Change.on, if_pos htag, if_pos hnew]
          exact hlisted
        · have hlate : ∀ k, Change.since tag k now (since k) (.register tag' h) =
              if h = k then some now else since k := by
            intro k
            rw [Change.since]
            by_cases hk : h = k
            · subst hk
              rw [if_pos ⟨htag, rfl⟩, if_pos rfl,
                Option.not_isSome_iff_eq_none.mp (mt (hlisted.mem h).mpr hnew)]
              rfl
            · rw [if_neg fun heq => hk heq.2, if_neg hk]
          simp only [hlate]
          rw [Change.on, if_pos htag, if_neg hnew]
          exact hlisted.append hnew hpast
      · simpa [Change.on, Change.since, htag] using hlisted

variable {x : ℕ → Machine}

theorem lt_of_registeredSince {n i : ℕ} {h : HandlerId}
    (hi : registeredSince s tag x n h = some i) : i < n := by
  induction n with
  | zero => exact absurd hi (by simp [registeredSince])
  | succ n ih =>
      rw [registeredSince] at hi
      cases hchange : change? s (x n) with
      | none =>
          rw [hchange] at hi
          exact (ih hi).trans (Nat.lt_succ_self n)
      | some change =>
          rw [hchange, Option.elim_some] at hi
          rcases Change.since_eq_some hi with hbefore | rfl
          · exact (ih hbefore).trans (Nat.lt_succ_self n)
          · exact Nat.lt_succ_self _

/-- At every time the handlers of a tag are those registered by then, in the order in which they
were. -/
theorem Execution.listed (h : Execution x) (hempty : (x 0).world.registry s = Table.empty)
    (tag : String) (n : ℕ) :
    Listed (registeredSince s tag x n) ((x n).world.handlersOf s tag) := by
  induction n with
  | zero =>
      rw [World.handlersOf, hempty]
      exact ⟨fun h => by simp [registeredSince], List.Pairwise.nil⟩
  | succ n ih =>
      rw [(h.reachable n).sound.handlersOf_next (h.next n), handlersAfter]
      cases hchange : change? s (x n) with
      | none => simpa [registeredSince, hchange] using ih
      | some change =>
          simpa [registeredSince, hchange] using ih.change tag change fun k i =>
            lt_of_registeredSince

end Machine

end Parley
