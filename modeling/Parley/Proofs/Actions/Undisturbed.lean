import Mathlib.Data.Nat.Find
import Parley.Proofs.Actions.Registry
import Parley.Proofs.Machine.Calls
import Parley.Proofs.Session.Passage

/-!
# Sessions that nobody calls on

A session stays where it stands and keeps its handlers as long as none of its operations begins
and the host does not work on it (`callsOn`).  So it has the same lines, and they fire the same
handlers (`Execution.sameSession`).

Meanwhile the machine comes back from one call to the next: tasks that are worked off above the
rest of an agenda are worked off one after the other (`WorksOff.split`).
-/

namespace Parley

/-! ## The same session in two worlds -/

/-- A session stands in two worlds at the same place, with the same action handlers. -/
structure World.SameSession (s : SessionId) (w w' : World) : Prop where
  standing : (w'.session? s).map Session.standing = (w.session? s).map Session.standing
  handlers : ∀ tag, w'.handlersOf s tag = w.handlersOf s tag

namespace World

variable {s : SessionId} {w w₁ w₂ w₃ : World}

theorem SameSession.refl (s : SessionId) (w : World) : SameSession s w w :=
  ⟨rfl, fun _ => rfl⟩

theorem SameSession.trans (h : SameSession s w₁ w₂) (h' : SameSession s w₂ w₃) :
    SameSession s w₁ w₃ :=
  ⟨h'.standing.trans h.standing, fun tag => (h'.handlers tag).trans (h.handlers tag)⟩

theorem line?_congr {session session' : Session} (h : session'.standing = session.standing)
    (ref : LineRef) : session'.line? ref = session.line? ref := by
  have hgraph : session'.graph = session.graph := congrArg Standing.graph h
  have hshelved : session'.shelved = session.shelved := congrArg Standing.shelved h
  rw [Session.line?, Session.graphAt?, Session.graphs, hgraph, hshelved]
  rfl

/-- The lines of a session are the same wherever it stands at the same place. -/
theorem SameSession.line {w' : World} {ref : LineRef} (h : SameSession ref.session w w') :
    w'.line ref = w.line ref := by
  have hstanding := h.standing
  rw [World.line, World.line]
  cases hs : w.session? ref.session with
  | none =>
      rw [hs, Option.map_none, Option.map_eq_none_iff] at hstanding
      rw [hstanding]
  | some session =>
      rw [hs, Option.map_some] at hstanding
      obtain ⟨session', hs', heq⟩ := Option.map_eq_some_iff.mp hstanding
      rw [hs', Option.bind_some, Option.bind_some, line?_congr heq]

end World

namespace Machine

variable {x : ℕ → Machine} {m m' : Machine} {s : SessionId} {session session' : Session}
  {i j n : ℕ}

/-! ## Calling on a session -/

/-- Whether the next step begins an operation of a session that may change where it stands, or
is one of a host on the session. -/
def callsOn (s : SessionId) (m : Machine) : Bool :=
  match m.agenda.head? with
  | some (.start t _) | some (.proceed t) | some (.follow t _ _) | some (.load t _ _)
  | some (.finish t _) => t = s
  | some (.perform (.session name _)) => m.world.sessionNames.get? name = some s
  | _ => false

theorem callsOn_of_moves {move : Session.Move} (h : Moves s m session move) :
    callsOn s m = true := by
  cases h <;> rename_i hhead <;> simp [callsOn, hhead]

theorem Passage.standing_of_alone (h : Passage s m session session')
    (hcalls : callsOn s m = false) : session'.standing = session.standing := by
  cases h with
  | aside h => exact h
  | moved hmove h => exact absurd (callsOn_of_moves hmove) (by simp [hcalls])
  | loaded hhead hgraph h => simp [callsOn, hhead] at hcalls
  | finished hhead h => simp [callsOn, hhead] at hcalls
  | edited hhead hname hstored hrun h => simp [callsOn, hhead, hname] at hcalls

theorem named_eq_none {w : World} {name handler : String} {change : HandlerId → Change}
    (h : w.sessionNames.get? name ≠ some s) : named w s name handler change = none :=
  if_neg fun hnamed => h hnamed.1

theorem change?_eq_none (hcalls : callsOn s m = false) : change? s m = none := by
  unfold change?
  split
  · rename_i name tag handler hhead
    exact named_eq_none (by simpa [callsOn, hhead] using hcalls)
  · rename_i name tag handler hhead
    exact named_eq_none (by simpa [callsOn, hhead] using hcalls)
  · rename_i t onComplete hhead
    have ht : t ≠ s := by simpa [callsOn, hhead] using hcalls
    cases m.world.session? t with
    | none => rfl
    | some session => exact if_neg fun h => ht h.1
  · rfl

/-- A moment at which nobody calls on a session leaves it as it is. -/
theorem Sound.sameSession_next (h : Sound m) (hnext : Next m m')
    (hs : m.world.session? s = some session) (hcalls : callsOn s m = false) :
    World.SameSession s m.world m'.world := by
  constructor
  · cases hnext with
    | step =>
        obtain ⟨session', hs', hpassage⟩ := (h.passes s).passage session hs
        rw [hs', hs, Option.map_some, Option.map_some, hpassage.standing_of_alone hcalls]
    | host hagenda step => rfl
  · intro tag
    rw [h.handlersOf_next hnext, handlersAfter, change?_eq_none hcalls]
    rfl

theorem Execution.sameSession (h : Execution x) (hs : (x i).world.session? s = some session)
    (hij : i ≤ j) (hcalls : ∀ k, i ≤ k → k < j → callsOn s (x k) = false) :
    World.SameSession s (x i).world (x j).world := by
  induction j, hij using Nat.le_induction with
  | base => exact .refl s _
  | succ j hij ih =>
      obtain ⟨found, hfound⟩ := h.session_of_le hs hij
      exact (ih fun k hik hkj => hcalls k hik (by omega)).trans
        ((h.reachable j).sound.sameSession_next (h.next j) hfound (hcalls j hij (by omega)))

/-! ## Coming back to tasks in turn -/

variable {tasks later rest : List Task}

/-- There is a first time at which an agenda is no longer than that. -/
theorem exists_first_length_le {depth : ℕ} (hin : i ≤ n) (hdone : (x n).agenda.length ≤ depth) :
    ∃ j, i ≤ j ∧ j ≤ n ∧ (x j).agenda.length ≤ depth ∧
      ∀ k, i ≤ k → k < j → depth < (x k).agenda.length := by
  have hexists : ∃ j, i ≤ j ∧ (x j).agenda.length ≤ depth := ⟨n, hin, hdone⟩
  obtain ⟨hij, hj⟩ := Nat.find_spec hexists
  refine ⟨Nat.find hexists, hij, Nat.find_min' hexists ⟨hin, hdone⟩, hj, fun k hik hk => ?_⟩
  have hnot := Nat.find_min hexists hk
  by_contra hlength
  exact hnot ⟨hik, by omega⟩

theorem normal_map {f : Task → Task} (hf : Task.KeepsFrames f)
    (h : rest ≠ [] ∧ ∀ b, rest.head? ≠ some (.dispatch b)) :
    rest.map f ≠ [] ∧ ∀ b, (rest.map f).head? ≠ some (.dispatch b) := by
  refine ⟨by simpa using h.1, fun b hhead => ?_⟩
  rw [List.head?_map, Option.map_eq_some_iff] at hhead
  obtain ⟨task, htask, heq⟩ := hhead
  rw [hf.eq_of_isFrame (by rw [heq]; rfl)] at heq
  exact h.2 b (heq ▸ htask)

/-- A failure does not get past tasks that are worked off. -/
theorem WorksOff.not_cutOff (hworks : WorksOff tasks rest x i n) (hij : i ≤ j) (hjn : j ≤ n) :
    ¬ Task.CutOff rest (x j).agenda := by
  intro hcut
  rcases Nat.lt_or_eq_of_le hjn with hlt | rfl
  · exact absurd hcut.length_le (Nat.not_le.mpr (hworks.busy j hij hlt))
  · rcases hcut.head?_of_length hworks.done with hnil | ⟨b, hhead⟩
    exacts [hworks.normal.1 hnil, hworks.normal.2 b hhead]

/-- The first tasks of those that are worked off come to their end before the others begin. -/
theorem WorksOff.split (hworks : WorksOff (tasks ++ later) rest x i n) (h : Execution x)
    (hlater : ∀ b, .dispatch b ∉ later) :
    ∃ j f, i ≤ j ∧ j ≤ n ∧ Task.KeepsFrames f ∧ WorksOff (later.map f) (rest.map f) x j n ∧
      ∀ k, i ≤ k → k < j → ∃ nested g, nested ≠ [] ∧ Task.KeepsFrames g ∧
        (x k).agenda = nested ++ (later ++ rest).map g := by
  have hdone : (x n).agenda.length ≤ (later ++ rest).length := by
    rw [hworks.done, List.length_append]
    omega
  obtain ⟨j, hij, hjn, hj, hlong⟩ := exists_first_length_le hworks.later hdone
  have habove : ∀ k, i ≤ k → k ≤ j → Task.Above later rest (x k).agenda := by
    intro k hik hkj
    induction k, hik using Nat.le_induction with
    | base =>
        refine ⟨tasks, id, Task.keepsFrames_id, ?_⟩
        rw [hworks.pushed, List.map_id, List.append_assoc]
    | succ k hik ih =>
        obtain ⟨nested, f, hf, hagenda⟩ := ih (by omega)
        have hlength := hlong k hik (by omega)
        cases nested with
        | nil => simp [hagenda] at hlength
        | cons task nested =>
            have hstep := (h.reachable k).sound.above_of_cons hagenda hf hlater
            rw [← h.eq_step (by simp [hagenda])] at hstep
            exact hstep.resolve_right (hworks.not_cutOff (by omega) (by omega))
  obtain ⟨nested, f, hf, hagenda⟩ := habove j hij le_rfl
  have hnil : nested = [] := by
    rw [hagenda, List.length_append, List.length_map] at hj
    exact List.eq_nil_of_length_eq_zero (by omega)
  refine ⟨j, f, hij, hjn, hf, ⟨?_, hjn, fun k hjk hkn => ?_, ?_, normal_map hf hworks.normal⟩,
    fun k hik hkj => ?_⟩
  · rw [hagenda, hnil, List.nil_append, List.map_append]
  · rw [List.length_map]
    exact hworks.busy k (by omega) hkn
  · rw [List.length_map, hworks.done]
  · obtain ⟨above, g, hg, heq⟩ := habove k hik hkj.le
    refine ⟨above, g, ?_, hg, heq⟩
    rintro rfl
    have hlength := hlong k hik hkj
    simp [heq] at hlength

end Machine

end Parley
