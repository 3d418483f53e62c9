import Parley.Proofs.Actions.Undisturbed
import Parley.Proofs.Actions.Edits

/-!
# Actions added while they are told

A loop over the actions of a line follows the line.  An action that is added to the line while the
loop runs is told as well, after the others; once actions are removed, the loop goes on with what
it had.  So what is told are the actions the line had when the loop began, and those added since
then and before the first removal (`told_with_additions`).  They are the former alone exactly if
nothing has been added by then.

If the work for every action comes to an end, the loop does so unless it is given further actions
for ever.

## Strategy

The next step edits one line at most (`edit?`), and any other line stays as it is
(`Sound.line_step`).  A loop is cut off from its line by a removal and by nothing else
(`Sound.frame_step`).  So what a loop has told and what it has left make up what the line had and
what has been added, step after step (`Course.After`).
-/

namespace Parley

/-! ## Loops -/

/-- Where a loop stands that has told some actions of a line, which had some when the loop began
and has been given others since, until actions were removed from it. -/
inductive Course.After (w : World) (line : LineRef) (all : List Action) :
    (told added : List Action) → (removed : Bool) → Course → Prop
  | live {added : List Action} {k : ℕ} (hline : (w.line line).actions = all ++ added)
      (hk : k ≤ (all ++ added).length) :
      After w line all ((all ++ added).take k) added false (.live line k)
  | frozen {told added left : List Action} (hleft : told ++ left = all ++ added) :
      After w line all told added true (.frozen left)

namespace Course.After

variable {w : World} {line : LineRef} {all told added : List Action} {removed : Bool}
  {course : Course}

theorem told_prefix (h : After w line all told added removed course) :
    told <+: all ++ added := by
  cases h with
  | live hline hk => exact List.take_prefix _ _
  | frozen hleft => exact ⟨_, hleft⟩

/-- What is added comes behind what has been told. -/
theorem live_append {k : ℕ} (hk : k ≤ (all ++ added).length) (more : List Action)
    (hline : (w.line line).actions = all ++ (added ++ more)) :
    After w line all ((all ++ added).take k) (added ++ more) false (.live line k) := by
  have htake : (all ++ added).take k = (all ++ (added ++ more)).take k := by
    rw [← List.append_assoc, List.take_append_of_le_length hk]
  rw [htake]
  refine .live hline ?_
  rw [← List.append_assoc, List.length_append]
  omega

/-- A loop gives out the next action, or there is none left. -/
theorem next (h : After w line all told added removed course) :
    Machine.nextAction w course = none ∧ told = all ++ added ∨
      ∃ action course', Machine.nextAction w course = some (action, course') ∧
        course'.After w line all (told ++ [action]) added removed := by
  cases h with
  | @live added k hline hk =>
      rw [Machine.nextAction, hline]
      cases hget : (all ++ added)[k]? with
      | none =>
          have hle := List.getElem?_eq_none_iff.mp hget
          exact .inl ⟨rfl, List.take_of_length_le hle⟩
      | some action =>
          obtain ⟨hlt, -⟩ := List.getElem?_eq_some_iff.mp hget
          refine .inr ⟨action, _, rfl, ?_⟩
          have htake : (all ++ added).take k ++ [action] = (all ++ added).take (k + 1) := by
            rw [List.take_add_one, hget]
            rfl
          rw [htake]
          exact .live hline hlt
  | @frozen told added left hleft =>
      cases left with
      | nil => exact .inl ⟨rfl, by simpa using hleft⟩
      | cons action left => exact .inr ⟨action, _, rfl, .frozen (by simpa using hleft)⟩

end Course.After

namespace Machine

variable {x : ℕ → Machine} {m : Machine} {line : LineRef} {rest : List Task}
  {all told added : List Action} {removed : Bool} {course : Course} {sink : Sink} {w : World}
  {i n : ℕ}

/-! ## One step -/

/-- A step leads a loop on as it edits the line. -/
theorem Sound.after_step (h : Sound m) (hline : m.world.HasLine line)
    (hafter : course.After m.world line all told added removed) (sink : Sink) :
    ∃ course', m.loosening (.actions sink course) = .actions sink course' ∧
      course'.After m.step.world line all told
        (added ++ if removed then [] else m.addsTo line) (removed || m.removesFrom line) := by
  cases hafter with
  | @frozen told added left hleft =>
      exact ⟨.frozen left, loosening_frozen m sink left, by simpa using Course.After.frozen hleft⟩
  | @live added k hactions hk =>
      refine ⟨_, loosening_live m sink line k, ?_⟩
      rw [Bool.false_or, if_neg Bool.false_ne_true]
      cases hremoves : m.removesFrom line with
      | true =>
          rw [if_pos rfl, addsTo_of_removesFrom hremoves]
          refine .frozen ?_
          rw [hactions, List.take_append_drop, List.append_nil]
      | false =>
          rw [if_neg Bool.false_ne_true]
          refine .live_append hk _ ?_
          rw [h.actions_step hline hremoves, hactions, List.append_assoc]

/-- The action that is given out by the next step, by a loop above an agenda of the given
length. -/
def handing? (sink : Sink) (depth : ℕ) (m : Machine) : Option Action :=
  match m.agenda with
  | .actions other course :: below =>
    if other = sink ∧ below.length = depth then (nextAction m.world course).map Prod.fst
    else none
  | _ => none

/-- The loop that goes on with the next step. -/
def loop? (m : Machine) : Option (Sink × Course) :=
  match m.agenda with
  | .actions sink course :: _ => some (sink, course)
  | _ => none

theorem agenda_of_loop? {m : Machine} {sink : Sink} {course : Course}
    (h : m.loop? = some (sink, course)) :
    m.agenda = .actions sink course :: m.agenda.tail := by
  unfold loop? at h
  split at h
  · rename_i hagenda
    obtain ⟨rfl, rfl⟩ := Prod.mk.inj (Option.some.inj h)
    rw [hagenda, List.tail_cons]
  · exact absurd h (by simp)

/-- A loop over the actions of a line is under way above the rest of an agenda. -/
inductive Looping (sink : Sink) (line : LineRef) (all : List Action) (rest : List Task)
    (w : World) (told added : List Action) (removed : Bool) : List Task → Prop
  | intro (nested : List Task) {course : Course} {f : Task → Task} (hf : Task.KeepsFrames f)
      (hafter : course.After w line all told added removed) :
      Looping sink line all rest w told added removed
        (nested ++ .actions sink course :: rest.map f)

/-- How a loop has come to its end: everything has been told, or a failure has been passed on that
came up on the way. -/
inductive LoopEnds (all : List Action) (rest : List Task) (told added : List Action)
    (m : Machine) : Prop
  | completed {f : Task → Task} (htold : told = all ++ added) (hf : Task.KeepsFrames f)
      (hagenda : m.agenda = rest.map f)
  | raised {m' : Machine} {f : Task → Task} (htold : told <+: all ++ added)
      (failure : Failure) (hf : Task.KeepsFrames f) (hagenda : m'.agenda = rest.map f)
      (heq : m = m'.fail failure)

theorem handing?_of_deeper {depth : ℕ} (h : depth + 1 < m.agenda.length) :
    handing? sink depth m = none := by
  unfold handing?
  split
  · rename_i other course below hagenda
    refine if_neg fun hdepth => ?_
    rw [hagenda, List.length_cons] at h
    omega
  · rfl

theorem edit?_of_actions (hagenda : m.agenda = .actions sink course :: rest) : m.edit? = none := by
  rw [edit?, hagenda]
  rfl

/-- What a loop gives out is told next. -/
theorem head?_step_of_handing? {depth : ℕ} {action : Action}
    (h : handing? sink depth m = some action) :
    m.step.agenda.head? = some (tell action sink) := by
  unfold handing? at h
  split at h
  · rename_i other course below hagenda
    split at h
    · rename_i hown
      obtain ⟨⟨found, course'⟩, hnext, rfl⟩ := Option.map_eq_some_iff.mp h
      rw [step_eq hagenda]
      dsimp only [exec, actions]
      rw [hnext, hown.1]
      rfl
    · exact absurd h (by simp)
  · exact absurd h (by simp)

/-- A step of the loop itself. -/
theorem looping_step_head {f : Task → Task} (hf : Task.KeepsFrames f)
    (hafter : course.After m.world line all told added removed)
    (hagenda : m.agenda = .actions sink course :: rest.map f) :
    (∃ action, handing? sink rest.length m = some action ∧
        Looping sink line all rest m.step.world (told ++ [action]) added removed m.step.agenda) ∨
      handing? sink rest.length m = none ∧ LoopEnds all rest told added m.step := by
  have hhanding : handing? sink rest.length m = (nextAction m.world course).map Prod.fst := by
    rw [handing?, hagenda]
    exact if_pos ⟨rfl, List.length_map _⟩
  have hstep := step_eq hagenda
  dsimp only [exec, actions] at hstep
  rcases hafter.next with ⟨hnone, htold⟩ | ⟨action, course', hsome, hafter'⟩
  · rw [hnone] at hstep hhanding
    exact .inr ⟨hhanding, .completed htold hf (by rw [hstep])⟩
  · rw [hsome] at hstep hhanding
    refine .inl ⟨action, hhanding, ?_⟩
    rw [hstep]
    exact .intro [tell action sink] hf hafter'

theorem Sound.looping_step (h : Sound m) (hline : m.world.HasLine line)
    (hloop : Looping sink line all rest m.world told added removed m.agenda) :
    let told' := told ++ (handing? sink rest.length m).toList
    let added' := added ++ if removed then [] else m.addsTo line
    Looping sink line all rest m.step.world told' added' (removed || m.removesFrom line)
        m.step.agenda ∨
      LoopEnds all rest told' added' m.step := by
  intro told' added'
  generalize hagenda : m.agenda = agenda at hloop
  obtain ⟨nested, hf, hafter⟩ := hloop
  -- Either the loop itself is next, and no line is edited, or something that it has started.
  cases nested with
  | nil =>
      have hnone := edit?_of_actions hagenda
      have hadded : added' = added := by simp [added', addsTo, hnone]
      have hremoved : (removed || m.removesFrom line) = removed := by simp [removesFrom, hnone]
      rw [hadded, hremoved]
      rcases looping_step_head hf hafter hagenda with ⟨action, hsome, hloop⟩ | ⟨hnone, hends⟩
      · have htold : told' = told ++ [action] := by simp [told', hsome]
        exact .inl (htold ▸ hloop)
      · have htold : told' = told := by simp [told', hnone]
        exact .inr (htold ▸ hends)
  | cons task nested =>
      have htold : told' = told := by
        have hdeeper : rest.length + 1 < m.agenda.length := by
          rw [hagenda]
          simp only [List.length_append, List.length_cons, List.length_map]
          omega
        simp [told', handing?_of_deeper hdeeper]
      rw [htold]
      obtain ⟨course', hcut, hafter'⟩ := h.after_step hline hafter sink
      have hframe := h.frame_step hagenda
      rw [List.map_cons, hcut, List.map_map] at hframe
      have hkeeps := hf.comp m.keepsFrames_loosening
      rcases hframe with ⟨left, hleft⟩ | ⟨m', failure, hm', hfails⟩
      · exact .inl (hleft ▸ .intro left hkeeps hafter')
      · have hpassed := fail_of_append [.actions sink course'] hm' (by simp) failure
        exact .inr (.raised hafter'.told_prefix failure hkeeps (by rfl) (hfails.trans hpassed))

/-! ## A whole loop -/

theorem additions_append_singleton (line : LineRef) (ms : List Machine) (m : Machine) :
    additions line (ms ++ [m]) = additions line ms ++
      if ms.any (removesFrom line) then [] else m.addsTo line := by
  induction ms with
  | nil =>
      cases hremoves : m.removesFrom line with
      | false => simp [additions, hremoves]
      | true => simp [additions, hremoves, addsTo_of_removesFrom hremoves]
  | cons first ms ih =>
      rw [additions] at ih ⊢
      cases hremoves : first.removesFrom line with
      | true => simp [additions, hremoves]
      | false =>
          rw [List.cons_append, List.takeWhile_cons_of_pos (by simp [hremoves]),
            List.flatMap_cons, ih]
          simp [additions, hremoves]

/-- Nothing counts as added any more once actions have been removed. -/
theorem additions_stretch_of_le {k : ℕ} (hnk : n ≤ k)
    (hremoved : (stretch x i n).any (removesFrom line) = true) :
    additions line (stretch x i k) = additions line (stretch x i n) := by
  suffices hboth : additions line (stretch x i k) = additions line (stretch x i n) ∧
      (stretch x i k).any (removesFrom line) = true from hboth.1
  induction k, hnk using Nat.le_induction with
  | base => exact ⟨rfl, hremoved⟩
  | succ k hnk ih =>
      rw [stretch_add_one, additions_append_singleton, if_pos ih.2, List.append_nil,
        List.any_append, ih.2]
      exact ⟨ih.1, rfl⟩

theorem Looping.length_lt {agenda : List Task}
    (h : Looping sink line all rest w told added removed agenda) :
    rest.length < agenda.length := by
  obtain ⟨nested, hf, hafter⟩ := h
  simp only [List.length_append, List.length_cons, List.length_map]
  omega

theorem LoopEnds.length_le (h : LoopEnds all rest told added m) :
    m.agenda.length ≤ rest.length := by
  cases h with
  | completed htold hf hagenda => simp [hagenda]
  | @raised m' f htold failure hf hagenda heq =>
      obtain ⟨before, hcut, -⟩ := exists_eq_append_unwind m'.agenda
      have hlength := congrArg List.length hcut
      rw [hagenda, List.length_map, List.length_append] at hlength
      rw [heq, agenda_fail, hagenda]
      omega

/-- The actions that some machines give out to a sink, by a loop above an agenda of the given
length. -/
def handed (sink : Sink) (depth : ℕ) (ms : List Machine) : List Action :=
  ms.filterMap (handing? sink depth)

theorem handed_stretch_add_one (x : ℕ → Machine) (i n : ℕ) (sink : Sink) (depth : ℕ) :
    handed sink depth (stretch x i (n + 1)) =
      handed sink depth (stretch x i n) ++ (handing? sink depth (x (i + n))).toList := by
  rw [handed, stretch_add_one, List.filterMap_append, handed]
  cases hlast : handing? sink depth (x (i + n)) <;> simp [hlast]

theorem length_handed_mono {k : ℕ} (x : ℕ → Machine) (i : ℕ) (sink : Sink) (depth : ℕ)
    (hnk : n ≤ k) :
    (handed sink depth (stretch x i n)).length ≤ (handed sink depth (stretch x i k)).length := by
  induction k, hnk using Nat.le_induction with
  | base => exact le_rfl
  | succ k hnk ih =>
      rw [handed_stretch_add_one, List.length_append]
      omega

/-- A line stays there while a machine is at work. -/
theorem Execution.hasLine (h : Execution x) (hline : (x i).world.HasLine line)
    (hbusy : ∀ j, j < n → (x (i + j)).agenda ≠ []) : (x (i + n)).world.HasLine line := by
  induction n with
  | zero => exact hline
  | succ n ih =>
      have hlast := ih fun j hj => hbusy j (by omega)
      rw [show i + (n + 1) = i + n + 1 from rfl, h.eq_step (hbusy n (Nat.lt_succ_self n))]
      exact ((h.reachable (i + n)).sound.line_step hlast).1

/-- Where a loop stands after some steps, if it has not come to its end before. -/
theorem Execution.looping (h : Execution x) (hline : (x i).world.HasLine line)
    (hagenda : (x i).agenda = .actions sink (.live line 0) :: rest)
    (hbusy : ∀ j, j < n → rest.length < (x (i + j)).agenda.length) :
    let all := ((x i).world.line line).actions
    let told := handed sink rest.length (stretch x i n)
    let added := additions line (stretch x i n)
    Looping sink line all rest (x (i + n)).world told added
        ((stretch x i n).any (removesFrom line)) (x (i + n)).agenda ∨
      0 < n ∧ LoopEnds all rest told added (x (i + n)) := by
  intro all told added
  induction n with
  | zero =>
      have hafter : Course.After (x i).world line all [] [] false (.live line 0) :=
        .live (List.append_nil _).symm (Nat.zero_le _)
      have hloop : Looping sink line all rest (x i).world [] [] false
          (.actions sink (.live line 0) :: rest.map id) := .intro [] Task.keepsFrames_id hafter
      rw [List.map_id, ← hagenda] at hloop
      exact .inl hloop
  | succ n ih =>
      have hlong := hbusy n (Nat.lt_succ_self n)
      have hstep : x (i + (n + 1)) = (x (i + n)).step :=
        h.eq_step (List.ne_nil_of_length_pos (Nat.zero_lt_of_lt hlong))
      rcases ih fun j hj => hbusy j (by omega) with hloop | ⟨-, hends⟩
      · have hhere := h.hasLine (n := n) hline fun j hj =>
          List.ne_nil_of_length_pos (Nat.zero_lt_of_lt (hbusy j (by omega)))
        have hnext := (h.reachable (i + n)).sound.looping_step hhere hloop
        rw [hstep]
        dsimp only [told, added]
        rw [handed_stretch_add_one, stretch_add_one, additions_append_singleton, List.any_append]
        simpa using hnext
      -- The loop has been over for a while.
      · exact absurd hends.length_le (Nat.not_le.mpr hlong)

/-- Telling the actions of a line, by a number of steps after it has begun above the rest of an
agenda. -/
structure Tells (sink : Sink) (line : LineRef) (all : List Action) (rest : List Task)
    (x : ℕ → Machine) (i n : ℕ) : Prop where
  /-- First come the actions that the line had, in order, and then those that have been added
  since, until some were removed. -/
  inOrder : handed sink rest.length (stretch x i n) <+: all ++ additions line (stretch x i n)
  /-- What is given out is told at once. -/
  atOnce : ∀ j action, handing? sink rest.length (x (i + j)) = some action →
    (x (i + j + 1)).agenda.head? = some (tell action sink)
  /-- In the end all of these have been told, unless a failure has been passed on. -/
  ended : (x (i + n)).agenda.length ≤ rest.length →
    LoopEnds all rest (handed sink rest.length (stretch x i n))
      (additions line (stretch x i n)) (x (i + n))

theorem Looping.inOrder {agenda : List Task}
    (h : Looping sink line all rest w told added removed agenda) : told <+: all ++ added := by
  obtain ⟨nested, hf, hafter⟩ := h
  exact hafter.told_prefix

theorem LoopEnds.inOrder (h : LoopEnds all rest told added m) : told <+: all ++ added := by
  cases h with
  | completed htold hf hagenda => exact htold ▸ List.prefix_refl _
  | raised htold failure hf hagenda heq => exact htold

theorem handing?_eq_none_of_nil (h : m.agenda = []) (depth : ℕ) : handing? sink depth m = none := by
  rw [handing?, h]

theorem Execution.tells (h : Execution x) (hline : (x i).world.HasLine line)
    (hagenda : (x i).agenda = .actions sink (.live line 0) :: rest)
    (hbusy : ∀ j, j < n → rest.length < (x (i + j)).agenda.length) :
    Tells sink line ((x i).world.line line).actions rest x i n := by
  have hatOnce : ∀ j action, handing? sink rest.length (x (i + j)) = some action →
      (x (i + j + 1)).agenda.head? = some (tell action sink) := by
    intro j action hhanding
    have hne : (x (i + j)).agenda ≠ [] := fun hnil =>
      absurd (hhanding.symm.trans (handing?_eq_none_of_nil hnil _)) (by simp)
    rw [h.eq_step hne]
    exact head?_step_of_handing? hhanding
  rcases h.looping hline hagenda hbusy with hloop | ⟨-, hends⟩
  · exact ⟨hloop.inOrder, hatOnce, fun hover => absurd hover (Nat.not_le.mpr hloop.length_lt)⟩
  · exact ⟨hends.inOrder, hatOnce, fun _ => hends⟩

/-! ## The end of a loop -/

/-- A loop that comes back from every action has told any number of them at some time. -/
theorem Execution.exists_le_length_handed (h : Execution x) (hline : (x i).world.HasLine line)
    (hagenda : (x i).agenda = .actions sink (.live line 0) :: rest)
    (hback : ∀ j action, handing? sink rest.length (x (i + j)) = some action →
      ∃ k, j < k ∧ (x (i + k)).agenda.length ≤ rest.length + 1)
    (hbusy : ∀ j, rest.length < (x (i + j)).agenda.length) (count : ℕ) :
    ∃ n, count ≤ (handed sink rest.length (stretch x i n)).length ∧
      (x (i + n)).agenda.length = rest.length + 1 := by
  induction count with
  | zero => exact ⟨0, Nat.zero_le _, by rw [Nat.add_zero, hagenda, List.length_cons]⟩
  | succ count ih =>
      obtain ⟨n, hcount, hlength⟩ := ih
      rcases h.looping (n := n) hline hagenda fun j _ => hbusy j with hloop | ⟨-, hends⟩
      · generalize hnow : (x (i + n)).agenda = agenda at hloop
        obtain ⟨nested, hf, hafter⟩ := hloop
        have hnested : nested = [] := by
          rw [hnow] at hlength
          simp only [List.length_append, List.length_cons, List.length_map] at hlength
          exact List.eq_nil_of_length_eq_zero (by omega)
        subst hnested
        rcases looping_step_head hf hafter hnow with ⟨action, hhanding, -⟩ | ⟨-, hends⟩
        · obtain ⟨k, hnk, hk⟩ := hback n action hhanding
          have hmore := length_handed_mono x i sink rest.length hnk
          rw [Nat.succ_eq_add_one, handed_stretch_add_one, hhanding, List.length_append] at hmore
          simp only [Option.toList_some, List.length_singleton] at hmore
          have := hbusy k
          exact ⟨k, by omega, by omega⟩
        · have hover := hends.length_le
          rw [← h.eq_step (by simp [hnow])] at hover
          exact absurd hover (Nat.not_le.mpr (hbusy (n + 1)))
      · exact absurd hends.length_le (Nat.not_le.mpr (hbusy n))

theorem Execution.loop_ends (h : Execution x) (hline : (x i).world.HasLine line)
    (hagenda : (x i).agenda = .actions sink (.live line 0) :: rest)
    (hback : ∀ j action, handing? sink rest.length (x (i + j)) = some action →
      ∃ k, j < k ∧ (x (i + k)).agenda.length ≤ rest.length + 1)
    {bound : ℕ} (hbound : ∀ n, (additions line (stretch x i n)).length ≤ bound) :
    ∃ n, (x (i + n)).agenda.length ≤ rest.length := by
  -- Otherwise more would be told in the end than the line had and was given.
  by_contra hnever
  simp only [not_exists, Nat.not_le] at hnever
  obtain ⟨n, hcount, -⟩ := h.exists_le_length_handed hline hagenda hback hnever
    (((x i).world.line line).actions.length + bound + 1)
  have htold := ((h.tells hline hagenda (n := n)) fun j _ => hnever j).inOrder.length_le
  rw [List.length_append] at htold
  have := hbound n
  omega

/-- A loop over the actions of a line tells those the line had when it began, in order, and after
them those that are added before any are removed; in the end all of these have been told, unless a
failure has been passed on.  If the work for each action comes to an end, the loop does so, unless
there is no bound on what is added. -/
theorem told_with_additions (h : Execution x) (hline : (x i).world.HasLine line)
    (hagenda : (x i).agenda = .actions sink (.live line 0) :: rest) :
    (∀ n, (∀ j < n, rest.length < (x (i + j)).agenda.length) →
      Tells sink line ((x i).world.line line).actions rest x i n) ∧
      ((∀ j action, handing? sink rest.length (x (i + j)) = some action →
        ∃ k, j < k ∧ (x (i + k)).agenda.length ≤ rest.length + 1) →
      ∀ bound, (∀ n, (additions line (stretch x i n)).length ≤ bound) →
        ∃ n, (x (i + n)).agenda.length ≤ rest.length) :=
  ⟨fun _ hbusy => h.tells hline hagenda hbusy, fun hback _ hbound =>
    h.loop_ends hline hagenda hback hbound⟩

/-- A host with a line of two actions.  The handler of the first adds an action to the line, then
removes the second, and then adds another. -/
def growing : ℕ → Machine :=
  Machine.course { world := World.ofHandlers [
      ("grow", [(1, [.session "s" (.node "A" (.line 0 (.addAction ⟨"v", "3"⟩))),
        .session "s" (.node "A" (.line 0 (.removeAction "u"))),
        .session "s" (.node "A" (.line 0 (.addAction ⟨"w", "4"⟩)))])])] }
    [.newDisplay "d" "d" (.recording {} false),
      .newSession "s" "d" none (.records (.array [.object [("title", .string "A"),
        ("body", .string "Hi | actions([t|1], [u|2])")]]) none),
      .session "s" (.registerAction "t" "grow"),
      .session "s" (.fireActions ⟨some "A", some 0⟩)]

theorem growing_add {j : ℕ} (h : 24 ≤ j) : growing (10 + j) = growing 34 :=
  course_of_le (by decide +kernel) (by decide +kernel) (by omega)

theorem additions_growing_le (n : ℕ) :
    (additions ⟨⟨0⟩, 0, "A", 0⟩ (stretch growing 10 n)).length ≤ 1 := by
  rcases Nat.lt_or_ge n 12 with hlt | hge
  · have hfew : ∀ n < 12,
        (additions ⟨⟨0⟩, 0, "A", 0⟩ (stretch growing 10 n)).length ≤ 1 := by decide +kernel
    exact hfew n hlt
  · rw [additions_stretch_of_le hge (by decide +kernel)]
    decide +kernel

theorem told_with_additions_growing :
    Execution growing ∧
      ((growing 10).world.line ⟨⟨0⟩, 0, "A", 0⟩).actions = [⟨"t", "1"⟩, ⟨"u", "2"⟩] ∧
      Tells (.session ⟨0⟩) ⟨⟨0⟩, 0, "A", 0⟩ [⟨"t", "1"⟩, ⟨"u", "2"⟩] (growing 10).agenda.tail
        growing 10 22 ∧
      handed (.session ⟨0⟩) 2 (stretch growing 10 22) =
        [⟨"t", "1"⟩, ⟨"u", "2"⟩, ⟨"v", "3"⟩] ∧
      ∃ n, (growing (10 + n)).agenda.length ≤ 2 := by
  have h : Execution growing := execution_course (initial_ofHandlers _) _
  have hactions : ((growing 10).world.line ⟨⟨0⟩, 0, "A", 0⟩).actions =
      [⟨"t", "1"⟩, ⟨"u", "2"⟩] := by decide +kernel
  have hagenda : (growing 10).agenda =
      .actions (.session ⟨0⟩) (.live ⟨⟨0⟩, 0, "A", 0⟩ 0) :: (growing 10).agenda.tail :=
    agenda_of_loop? (by decide +kernel)
  obtain ⟨htells, hends⟩ := told_with_additions h (by decide +kernel) hagenda
  rw [hactions] at htells
  refine ⟨h, hactions, htells 22 (by decide +kernel), by decide +kernel, ?_⟩
  refine hends (fun j action hhanding => ?_) 1 additions_growing_le
  rcases Nat.lt_or_ge j 24 with hlt | hge
  · exact ⟨24, hlt, by decide +kernel⟩
  · have hnone : handing? (.session ⟨0⟩) (growing 10).agenda.tail.length (growing 34) = none := by
      decide +kernel
    rw [growing_add hge, hnone] at hhanding
    exact absurd hhanding (by simp)

/-- A host with a line of one action, whose handler adds another to the line. -/
def lengthening : ℕ → Machine :=
  Machine.course { world := World.ofHandlers [
      ("grow", [(1, [.session "s" (.node "A" (.line 0 (.addAction ⟨"u", "2"⟩)))])]),
      ("late", [(1, [])])] }
    [.newDisplay "c" "c" (.recording {} false),
      .newSession "s" "c" none (.records (.array [.object [("title", .string "A"),
        ("body", .string "Hi | actions([t|1])")]]) none),
      .session "s" (.registerAction "t" "grow"),
      .session "s" (.registerAction "u" "late"),
      .session "s" (.fireActions ⟨some "A", some 0⟩)]

/-- An action that was not there when the loop began is told, and its handler is called. -/
theorem added_action_told :
    (∃ rest, rest.length = 2 ∧ (lengthening 12).agenda =
        .actions (.session ⟨0⟩) (.live ⟨⟨0⟩, 0, "A", 0⟩ 0) :: rest) ∧
      ((lengthening 12).world.line ⟨⟨0⟩, 0, "A", 0⟩).actions = [⟨"t", "1"⟩] ∧
      handed (.session ⟨0⟩) 2 (stretch lengthening 12 24) = [⟨"t", "1"⟩, ⟨"u", "2"⟩] ∧
      (stretch lengthening 12 24).filterMap (call? 3) = [(⟨0⟩, "1"), (⟨1⟩, "2")] := by
  refine ⟨⟨(lengthening 12).agenda.tail, ?_, rfl⟩, ?_, ?_, ?_⟩ <;> decide +kernel

end Machine

end Parley
