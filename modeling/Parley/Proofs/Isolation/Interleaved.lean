import Parley.Proofs.Isolation.AlikeSteps
import Parley.Proofs.Isolation.AtHome
import Parley.Proofs.Manager.Unread

/-!
# Sessions that run side by side

Two sessions, each with its display and its callbacks, have nothing to do with each other as long
as no callback of the one reaches for a thing of the other: in whatever order the operations on the
two are performed, those on one of them come to the same as if the others had not been performed at
all (`sessions_isolated`).

## Strategy

Whatever is put on the agenda by an operation of a side is about things of that side.  So two
machines that perform the operation in worlds that are the same on the side go on alike, and leave
the other side as it was.  An operation of the other side, performed in one of the worlds only,
leaves them the same.
-/

namespace Parley

variable {σ τ : Side} {w w' : World}

/-! ## Names -/

/-- What names lead to is a matter of the names, and of the displays that the manager has. -/
theorem World.SameOn.named (h : World.SameOn σ w w') {task : Task} (hnamed : task.Named τ w) :
    task.Named τ w' := by
  suffices heq : task.Named τ w' = task.Named τ w from heq ▸ hnamed
  unfold Task.Named Step.On SessionStep.On DisplayStep.On BusStep.On BusName.On ManagerStep.On
  simp only [h.sessionNames, h.displayNames, h.handlerNames, h.manager, h.manager?]

/-! ## One operation -/

/-- A machine that is to perform a step of the host. -/
def Machine.opening (w : World) (step : Step) : Machine :=
  { world := w, agenda := [.perform step] }

/-- Whatever a step of the host leads to, all the names that are used on the way, by the step or by
a callback, lead to things of a side. -/
def Confined (σ : Side) (w : World) (step : Step) : Prop :=
  ∀ n task, (Machine.step^[n] (.opening w step)).agenda.head? = some task →
    task.Named σ (Machine.step^[n] (.opening w step)).world

namespace Machine

theorem alike_opening (hsame : World.SameOn σ w w') (hparted : w.Parted σ τ)
    (hclosed : w'.Closed τ) (step : Step) :
    Alike σ τ w w' (opening w step) (opening w' step) where
  same := hsame
  parted := hparted
  closed := hclosed
  aside := .refl τ w
  aside' := .refl τ w'
  agenda := rfl
  on := List.forall_mem_singleton.mpr trivial
  trace := rfl
  result := rfl

theorem Alike.iterate {step : Step} (hsame : World.SameOn σ w w') (hparted : w.Parted σ τ)
    (hclosed : w'.Closed τ) (hconfined : Confined σ w step) (n : ℕ) :
    Alike σ τ w w' (Machine.step^[n] (opening w step)) (Machine.step^[n] (opening w' step)) := by
  induction n with
  | zero => exact alike_opening hsame hparted hclosed step
  | succ n ih =>
      rw [Function.iterate_succ_apply', Function.iterate_succ_apply']
      exact ih.step (hconfined n)

end Machine

/-- A confined step is confined in every world that is the same on the side. -/
theorem Confined.of_sameOn {step : Step} (h : Confined σ w step) (hsame : World.SameOn σ w w')
    (hparted : w.Parted σ τ) (hclosed : w'.Closed τ) : Confined σ w' step := by
  intro n task htask
  have halike := Machine.Alike.iterate hsame hparted hclosed h n
  rw [halike.agenda] at htask
  exact halike.same.named (h n task htask)

/-- All that is done for a confined step is about things of its side. -/
theorem Confined.on {step : Step} (h : Confined σ w step) (hparted : w.Parted σ τ) (n : ℕ) :
    ∀ task ∈ (Machine.step^[n] (.opening w step)).agenda, task.On σ :=
  (Machine.Alike.iterate (.refl σ w) hparted hparted.right h n).on

namespace Scenario

/-- A step of one side comes to the same in worlds that are the same on that side. -/
theorem performStep_of_sameOn {step : Step} {fuel : ℕ} {v : World} {report : StepReport}
    (hsame : World.SameOn σ w w') (hparted : w.Parted σ τ) (hclosed : w'.Closed τ)
    (hconfined : Confined σ w step) (h : performStep fuel w step = some (v, report)) :
    ∃ v' report', performStep fuel w' step = some (v', report') ∧
      report'.result = report.result ∧ report'.trace = report.trace ∧
      World.SameOn σ v v' ∧ v.Parted σ τ ∧ World.SameOn τ w v ∧ World.SameOn τ w' v' := by
  have halike := Machine.Alike.iterate hsame hparted hclosed hconfined fuel
  rw [← Machine.run_eq_iterate, ← Machine.run_eq_iterate] at halike
  unfold performStep at h ⊢
  dsimp only at h ⊢
  split at h
  · rename_i hdone
    obtain ⟨rfl, rfl⟩ := Prod.mk.inj (Option.some.inj h)
    have hdone' : (Machine.run fuel (.opening w' step)).isDone = true := by
      rw [Machine.isDone, halike.agenda]
      exact hdone
    exact ⟨_, _, if_pos hdone', halike.result, halike.trace, halike.same, halike.parted,
      halike.aside, halike.aside'⟩
  · exact absurd h (by simp)

end Scenario

/-! ## Operations of two sides -/

/-- An operation of a host: whose it is, the step that it consists in, and what it comes to. -/
structure Operation where
  owner : Bool
  step : Step
  result : Except Failure Answer
  trace : List TraceEntry

/-- Operations of two owners are performed one after the other, each confined to the side of its
owner. -/
inductive Interleaved (side : Bool → Side) : World → List Operation → World → Prop
  | nil (w : World) : Interleaved side w [] w
  | cons {w v u : World} {fuel : ℕ} {op : Operation} {overview : Overview} {ops : List Operation}
      (hconfined : Confined (side op.owner) w op.step)
      (hstep : Scenario.performStep fuel w op.step = some (v, ⟨op.result, op.trace, overview⟩))
      (hrest : Interleaved side v ops u) : Interleaved side w (op :: ops) u

/-- The operations of one owner. -/
def Operation.of (owner : Bool) (ops : List Operation) : List Operation :=
  ops.filter fun op => op.owner = owner

namespace Interleaved

variable {side : Bool → Side} {u v : World} {ops : List Operation} {owner : Bool}

/-- After every operation the world is parted as before, and what belongs to no side has not
changed. -/
theorem parted (h : Interleaved side w ops u) (hparted : w.Parted (side owner) (side !owner)) :
    u.Parted (side owner) (side !owner) ∧ u.shared = w.shared := by
  induction h with
  | nil w => exact ⟨hparted, rfl⟩
  | @cons w v u fuel op overview ops hconfined hstep hrest ih =>
      by_cases howner : op.owner = owner
      · rw [howner] at hconfined
        obtain ⟨_, _, -, -, -, -, hv, haside, -⟩ :=
          Scenario.performStep_of_sameOn (.refl _ w) hparted hparted.right hconfined hstep
        exact ⟨(ih hv).1, (ih hv).2.trans haside.shared⟩
      · rw [Bool.eq_not.mpr howner] at hconfined
        obtain ⟨_, _, -, -, -, -, hv, haside, -⟩ :=
          Scenario.performStep_of_sameOn (.refl _ w) hparted.symm hparted.left hconfined hstep
        exact ⟨(ih hv.symm).1, (ih hv.symm).2.trans haside.shared⟩

/-- The operations of one owner come to the same when they are performed alone, in a world that is
the same on their side. -/
theorem alone (h : Interleaved side w ops u) (hparted : w.Parted (side owner) (side !owner))
    (hsame : World.SameOn (side owner) w w') (hclosed : w'.Closed (side !owner)) :
    ∃ u', Interleaved side w' (Operation.of owner ops) u' ∧ World.SameOn (side owner) u u' := by
  induction h generalizing w' with
  | nil w => exact ⟨w', .nil w', hsame⟩
  | @cons w v u fuel op overview ops hconfined hstep hrest ih =>
      by_cases howner : op.owner = owner
      · have hconfined' := hconfined
        rw [howner] at hconfined'
        obtain ⟨v', report, hstep', hresult, htrace, hsame', hv, -, haside⟩ :=
          Scenario.performStep_of_sameOn hsame hparted hclosed hconfined' hstep
        obtain ⟨u', hrest', hu⟩ := ih hv hsame' (haside.closed hclosed)
        have hof : Operation.of owner (op :: ops) = op :: Operation.of owner ops :=
          List.filter_cons_of_pos (by simpa using howner)
        obtain ⟨result, trace, overview'⟩ := report
        obtain rfl : result = op.result := hresult
        obtain rfl : trace = op.trace := htrace
        rw [hof]
        refine ⟨u', .cons ?_ hstep' hrest', hu⟩
        rw [howner]
        exact hconfined'.of_sameOn hsame hparted hclosed
      · have hother := Bool.eq_not.mpr howner
        rw [hother] at hconfined
        obtain ⟨_, _, -, -, -, -, hv, haside, -⟩ :=
          Scenario.performStep_of_sameOn (.refl _ w) hparted.symm hparted.left hconfined hstep
        have hof : Operation.of owner (op :: ops) = Operation.of owner ops :=
          List.filter_cons_of_neg (by simpa using howner)
        rw [hof]
        exact ih hv.symm (haside.symm.trans hsame) hclosed

theorem split {before after : List Operation} (h : Interleaved side w (before ++ after) u) :
    ∃ v, Interleaved side w before v ∧ Interleaved side v after u := by
  induction before generalizing w with
  | nil => exact ⟨w, .nil w, h⟩
  | cons op before ih =>
      cases h with
      | cons hconfined hstep hrest =>
          obtain ⟨v, hbefore, hafter⟩ := ih hrest
          exact ⟨v, .cons hconfined hstep hbefore, hafter⟩

end Interleaved

/-! ## Operations that are run -/

/-- Whether a machine comes to rest in a number of steps, and all names on the way lead to things
of a side. -/
def Machine.keepsTo (σ : Side) : ℕ → Machine → Bool
  | 0, m => m.isDone
  | n + 1, m =>
    m.isDone ||
      (∀ task, m.agenda.head? = some task → task.Named σ m.world) && keepsTo σ n m.step

namespace Machine

theorem iterate_of_isDone {m : Machine} (h : m.isDone = true) (n : ℕ) : step^[n] m = m := by
  rw [← run_eq_iterate, run_of_isDone h]

theorem named_of_keepsTo {m : Machine} {fuel : ℕ} (h : m.keepsTo σ fuel = true) :
    ∀ n task, (step^[n] m).agenda.head? = some task → task.Named σ (step^[n] m).world := by
  have hrest : ∀ {m : Machine}, m.isDone = true → ∀ n task,
      (step^[n] m).agenda.head? = some task → task.Named σ (step^[n] m).world := by
    intro m hdone n task htask
    rw [iterate_of_isDone hdone, List.isEmpty_iff.mp hdone] at htask
    exact absurd htask (by simp)
  induction fuel generalizing m with
  | zero => exact hrest h
  | succ fuel ih =>
      rw [keepsTo, Bool.or_eq_true, Bool.and_eq_true, decide_eq_true_iff] at h
      rcases h with hdone | ⟨hnow, hnext⟩
      · exact hrest hdone
      · intro n
        cases n with
        | zero => exact hnow
        | succ n => exact ih hnext n

theorem isDone_of_keepsTo {m : Machine} {fuel : ℕ} (h : m.keepsTo σ fuel = true) :
    (run fuel m).isDone = true := by
  induction fuel generalizing m with
  | zero => exact h
  | succ fuel ih =>
      rw [keepsTo, Bool.or_eq_true, Bool.and_eq_true] at h
      rcases h with hdone | ⟨-, hnext⟩
      · rw [run_of_isDone hdone]
        exact hdone
      · rw [run]
        split
        · assumption
        · exact ih hnext

end Machine

/-- What the steps of some owners come to, one after the other, and the world after them. -/
def operations (fuel : ℕ) : World → List (Bool × Step) → List Operation × World
  | w, [] => ([], w)
  | w, (owner, step) :: rest =>
    let m := Machine.run fuel (.opening w step)
    let (ops, u) := operations fuel m.world rest
    (⟨owner, step, m.result, m.trace⟩ :: ops, u)

/-- Whether each of some steps is done after a number of steps of the machine and confined to the
side of its owner. -/
def allConfined (side : Bool → Side) (fuel : ℕ) : World → List (Bool × Step) → Bool
  | _, [] => true
  | w, (owner, step) :: rest =>
    (Machine.opening w step).keepsTo (side owner) fuel &&
      allConfined side fuel (Machine.run fuel (.opening w step)).world rest

theorem interleaved_operations {side : Bool → Side} {fuel : ℕ} {steps : List (Bool × Step)}
    (h : allConfined side fuel w steps = true) :
    Interleaved side w (operations fuel w steps).1 (operations fuel w steps).2 := by
  induction steps generalizing w with
  | nil => exact .nil w
  | cons first rest ih =>
      obtain ⟨owner, step⟩ := first
      rw [allConfined, Bool.and_eq_true] at h
      obtain ⟨hkeeps, hrest⟩ := h
      have hstep : Scenario.performStep fuel w step = some (_, ⟨_, _, _⟩) :=
        if_pos (Machine.isDone_of_keepsTo hkeeps)
      exact .cons (Machine.named_of_keepsTo hkeeps) hstep (ih hrest)

/-! ## Sessions side by side -/

/-- The conversations that a manager has cached are still under the same references, and these lead
to the same, as long as the managers and what they refer to stay as they are. -/
theorem cached_of_shared {v : World} (h : v.shared = w.shared) {id : ManagerId}
    {conversation : String} {g : Ref Graph} (hcached : w.cached? id conversation = some g) :
    v.cached? id conversation = some g ∧ v.graph g = w.graph g := by
  have hcells : v.memory.managerCells = w.memory.managerCells :=
    (congrArg World.Shared.cells h :)
  have hmanagers : v.managers = w.managers := (congrArg World.Shared.managers h :)
  have hcached' : v.cached? id conversation = some g := by
    rw [World.cached?, hcells]
    exact hcached
  refine ⟨hcached', ?_⟩
  have hnow := v.map_cached? id conversation
  rw [World.manager?, hmanagers, ← World.manager?, ← World.map_cached?, hcached, hcached'] at hnow
  exact Option.some.inj hnow

/-- Two sessions were made on two displays, by a manager or by the host, and the host has attached
no session to a display that it was not made on.  The first display and the sessions on it are one
side, everything else is the other; whatever the things of a side call belongs to the side, and a
handler of both is one that no call changes.  Operations on the two sides are performed in any
order, and no callback reaches for the other side.

At any time in between, everything on the side of an owner, its session with phase and cursors and
its display among it, is as if the operations of this owner alone had been performed, with the same
results and the same sights.  The operation that comes next is about nothing but things of its own
side.  The graphs of a session share no node and no line with those of the other or with a
conversation that is cached, and the cached conversations have not been changed, all cursors being
at the first line. -/
theorem sessions_isolated {x : ℕ → Machine} (hx : Machine.Execution x) (hbare : (x 0).world.Bare)
    {i : ℕ} (hrest : (x i).agenda = []) (hattaches : ∀ j < i, Machine.AttachesOwn (x j))
    {s : Bool → SessionId} {d : Bool → DisplayId}
    (hmade : ∀ owner, (x i).world.MadeOn (d owner) (s owner)) (hne : d true ≠ d false)
    {calls : Bool → HandlerId → Bool} {free : String → Bool} {side : Bool → Side}
    (hside : side = (x i).world.sideOf (d true) calls free)
    (hwired : ∀ owner, (x i).world.Wired (side owner))
    (hcover : ∀ h, calls true h = true ∨ calls false h = true)
    (hshared : ∀ h, calls true h = true → calls false h = true → (x i).world.Shares h)
    {before after : List Operation} {u : World}
    (hops : Interleaved side (x i).world (before ++ after) u) (owner : Bool) :
    side owner (.session (s owner)) = true ∧ side owner (.display (d owner)) = true ∧
    ∃ v v', Interleaved side (x i).world before v ∧ Interleaved side v after u ∧
      Interleaved side (x i).world (Operation.of owner before) v' ∧
      World.SameOn (side owner) v v' ∧
      (∀ op, after.head? = some op → ∀ n,
        ∀ task ∈ (Machine.step^[n] (.opening v op.step)).agenda, task.On (side op.owner)) ∧
      (∀ g ∈ v.graphsOf (s owner), ∀ g',
        (g' ∈ v.graphsOf (s !owner) ∨ ∃ id conversation, v.cached? id conversation = some g') →
          v.memory.store.Disjoint g g') ∧
      (∀ id, v.manager? id = (x i).world.manager? id) ∧
      ∀ id conversation g, (x i).world.cached? id conversation = some g →
        v.cached? id conversation = some g ∧ v.graph g = (x i).world.graph g ∧
          (v.graph g).Unread := by
  subst hside
  have hparted := hx.parted hbare hrest hattaches hwired hcover hshared
  have hdisplay : (x i).world.sideOf (d true) calls free owner (.display (d owner)) = true :=
    World.sideOf_display hne owner
  have hsessions : s owner ≠ s !owner :=
    (hmade owner).session_ne (hmade !owner) (by cases owner; exacts [Ne.symm hne, hne])
  obtain ⟨v, hbefore, hafter⟩ := hops.split
  obtain ⟨v', hown, hsame⟩ := hbefore.alone (hparted owner) (.refl _ _) (hparted owner).right
  have hkept : v.shared = (x i).world.shared := (hbefore.parted (hparted owner)).2
  refine ⟨(World.sideOf_session (hmade owner) owner).trans hdisplay, hdisplay, v, v', hbefore,
    hafter, hown, hsame, ?_, ?_, fun id => ?_, fun id conversation g hcached => ?_⟩
  · intro op hop n
    have hv := (hbefore.parted (hparted op.owner)).1
    cases hafter with
    | nil => exact absurd hop (by simp)
    | cons hconfined hstep hrest =>
        obtain rfl := Option.some.inj hop
        exact hconfined.on hv n
  · rintro g hg g' (hother | ⟨id, conversation, hcached⟩)
    · exact World.disjoint_of_ne hsessions hg hother
    · exact World.disjoint_of_cached hg hcached
  · have hmanagers : v.managers = (x i).world.managers := (congrArg World.Shared.managers hkept :)
    rw [World.manager?, hmanagers, World.manager?]
  · obtain ⟨hcached', hgraph⟩ := cached_of_shared hkept hcached
    exact ⟨hcached', hgraph, hgraph ▸ (hx.unread hbare.managers i).graph hcached⟩

/-- A host whose manager has started one conversation on two displays, each with a handler of its
own: one edits the line that is shown, the other goes on at once. -/
def duo : ℕ → Machine :=
  Machine.course { world := World.ofHandlers [
      ("edit", [(1, [.session "s1" (.node none (.line 0 (.setText "edited")))])]),
      ("hurry", [(1, [.display "e" .proceed])])] }
    [.newDisplay "c" "c" (.recording { line := some "edit" } false),
      .newDisplay "e" "e" (.recording {} false),
      .newManager none,
      .manager (.register "c"),
      .manager (.register "e"),
      .manager (.add "k" (.array [.object [("title", .string "A"), ("body", .string "one\ntwo")]])),
      .manager (.start "k" "c" none "s1"),
      .manager (.start "k" "e" none "s2"),
      .bus (.session "s2") (.subscribe (.dialogue .lineDisplayed) "hurry" 0 false false)]

/-- The first display with its session and the handler that edits lines, and all the rest. -/
def duoSide : Bool → Side :=
  (duo 22).world.sideOf ⟨0⟩ (fun owner h => (h.index == 0) == owner) fun _ => false

def duoSteps : List (Bool × Step) :=
  [(true, .session "s1" (.start "A")), (false, .session "s2" (.start "A")),
    (true, .display "c" .proceed), (false, .session "s2" (.finish none)),
    (true, .session "s1" .proceed)]

theorem sessions_isolated_duo :
    allConfined duoSide 60 (duo 22).world duoSteps = true ∧
      ∃ v v' g, Interleaved duoSide (duo 22).world
          ((operations 60 (duo 22).world duoSteps).1.take 4) v ∧
        Interleaved duoSide (duo 22).world
          (Operation.of true ((operations 60 (duo 22).world duoSteps).1.take 4)) v' ∧
        v'.session? ⟨0⟩ = v.session? ⟨0⟩ ∧ v.cached? ⟨0⟩ "k" = some g ∧ (v.graph g).Unread ∧
        ∀ own ∈ v.graphsOf ⟨0⟩, v.memory.store.Disjoint own g ∧
          ∀ other ∈ v.graphsOf ⟨1⟩, v.memory.store.Disjoint own other := by
  have hexecution : Machine.Execution duo :=
    Machine.execution_course (Machine.initial_ofHandlers _) _
  have hrest : (duo 22).agenda = [] := List.isEmpty_iff.mp (by decide +kernel)
  have hattaches : ∀ j < 22, (duo j).agenda.head?.any Task.attaches = false := by decide +kernel
  have hmade : ∀ owner, (duo 22).world.MadeOn ⟨bif owner then 0 else 1⟩
      ⟨bif owner then 0 else 1⟩ := by
    have hfound : ∀ owner, ((duo 22).world.session? ⟨bif owner then 0 else 1⟩).map
        (·.display) = some ⟨bif owner then 0 else 1⟩ := by decide +kernel
    exact fun owner => Option.map_eq_some_iff.mp (hfound owner)
  have hwired : ∀ owner, (duo 22).world.Wired (duoSide owner) := by decide +kernel
  have hconfined : allConfined duoSide 60 (duo 22).world duoSteps = true := by decide +kernel
  have hops := interleaved_operations hconfined
  rw [← List.take_append_drop 4 (operations 60 (duo 22).world duoSteps).1] at hops
  obtain ⟨hs, -, v, v', hbefore, -, hown, hsame, -, hapart, -, hcached⟩ :=
    sessions_isolated hexecution ⟨rfl, rfl, rfl⟩ hrest
      (fun j hj => Machine.attachesOwn_of_not (hattaches j hj)) hmade (by decide) rfl hwired
      (fun h => by cases h.index == 0 <;> simp) (fun h hl hr => by simp_all) hops true
  obtain ⟨g, hg⟩ := Option.isSome_iff_exists.mp
    (show ((duo 22).world.cached? ⟨0⟩ "k").isSome = true by decide +kernel)
  obtain ⟨hcached, -, hunread⟩ := hcached ⟨0⟩ "k" g hg
  exact ⟨hconfined, v, v', g, hbefore, hown, hsame.session ⟨0⟩ hs, hcached, hunread,
    fun own hmem => ⟨hapart own hmem g (.inr ⟨_, _, hcached⟩),
      fun other hother => hapart own hmem other (.inl hother)⟩⟩

end Parley
