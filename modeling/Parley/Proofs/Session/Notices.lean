import Mathlib.Data.List.Perm.Basic
import Parley.Proofs.Session.Reports

/-!
# What is shown, and what observers are told

Who observes a session through its bus learns of each call of the display: as many nodes are
reported as are shown, as many lines, and as many ends of the conversation (`notices_match_calls`).
This holds however the hooks of the display and the handlers of events and actions call back into
the session, if only the hooks return and no handler consumes an event.  And at no time has the
display been told more often of an end than of a new node.

## Strategy

What an observer receives is what is published (`Hears.received_eq_published`), and what is
published are the reports of the calls (`CallsReturn.published_perm`).  For the last part, a
session that has told its display of the end has left a node, and only showing a node leads into
one from outside (`Cue.balance`).
-/

namespace Parley

/-! ## Nodes and ends of conversations -/

namespace Task

/-- Whether a task tells a display of a new node. -/
def showsNode : Task → Bool
  | .showNode .. => true
  | _ => false

/-- Whether a task tells a display that the conversation is over. -/
def showsOver : Task → Bool
  | .showOver _ => true
  | _ => false

end Task

namespace Session

variable {session session' : Session}

/-- The number of nodes that a session is in: one, or none. -/
def openNodes (session : Session) : ℕ :=
  match session.phase with
  | .inNode _ => 1
  | _ => 0

theorem openNodes_congr (h : session'.phase = session.phase) :
    session'.openNodes = session.openNodes := by
  rw [openNodes, h, openNodes]

theorem openNodes_of_inNode {key : String} (h : session.phase = .inNode key) :
    session.openNodes = 1 := by
  rw [openNodes, h]

theorem openNodes_of_idle (h : session.phase = .idle) : session.openNodes = 0 := by
  rw [openNodes, h]

theorem enter_cases (session : Session) (key : String) (node : Node) :
    (∃ moved failure, session.enter key node = .fail moved failure ∧
        moved.openNodes = session.openNodes) ∨
      ∃ moved, session.enter key node = .display moved key node.cursor ∧
        moved.openNodes = 1 := by
  unfold enter
  split
  · exact .inl ⟨_, _, rfl, rfl⟩
  · exact .inr ⟨_, rfl, rfl⟩

end Session

namespace Cue

variable {cue : Cue} {session : Session} {key : String} {node : Node}

/-- A session that comes into a node on some input tells its display of the node, or comes from
another one. -/
theorem balance_enter (s : SessionId)
    (h : (∃ title, cue = start title) ∨ session.openNodes = 1) :
    (cue.tasks s (session.enter key node)).countP Task.showsOver +
        ((session.enter key node).outcome session).openNodes ≤
      (cue.tasks s (session.enter key node)).countP Task.showsNode + session.openNodes := by
  rcases session.enter_cases key node with
    ⟨moved, failure, hmove, hopen⟩ | ⟨moved, hmove, hopen⟩
  · rw [hmove]
    exact Nat.add_le_add_left hopen.le _
  · rw [hmove]
    change _ + moved.openNodes ≤ _
    have hover : (cue.tasks s (.display moved key node.cursor)).countP Task.showsOver = 0 := by
      cases cue <;> rfl
    rcases h with ⟨title, rfl⟩ | hinside
    · have hnode : ((start title).tasks s (.display moved key node.cursor)).countP
          Task.showsNode = 1 := rfl
      omega
    · omega

/-- On some input, a session leaves a node when it tells its display of the end, and it tells its
display of the node when it comes into one from outside. -/
theorem balance (cue : Cue) (config : Config) (session : Session) (s : SessionId) :
    (cue.tasks s (cue.move config session)).countP Task.showsOver +
        ((cue.move config session).outcome session).openNodes ≤
      (cue.tasks s (cue.move config session)).countP Task.showsNode + session.openNodes := by
  cases cue with
  | start title =>
      rw [move]
      rcases Session.start_cases session title with ⟨entry, heq⟩ | ⟨key, stored, -, heq⟩
      · rw [heq]
        exact le_rfl
      · rw [heq]
        exact balance_enter s (.inl ⟨title, rfl⟩)
  | proceed =>
      rw [move]
      rcases Session.proceed_cases session with
        ⟨entry, heq⟩ | ⟨key, node, hactive, ⟨-, heq⟩ | ⟨-, heq⟩⟩
      · rw [heq]
        exact le_rfl
      · rw [heq]
        exact le_rfl
      · have hinside := Session.openNodes_of_inNode (Session.activeNode?_eq_some hactive).2.1
        rw [heq, hinside]
        exact le_rfl
  | follow option destination =>
      rw [move]
      rcases Session.follow_cases session config option destination with
        ⟨entry, heq⟩ | ⟨here, now, hactive, hmove⟩
      · rw [heq]
        exact le_rfl
      · have hinside := Session.openNodes_of_inNode (Session.activeNode?_eq_some hactive).2.1
        rcases hmove with ⟨-, heq⟩ | ⟨key, stored, node, -, -, heq⟩
        · rw [heq, hinside]
          exact le_rfl
        · rw [heq]
          exact balance_enter s (.inr hinside)

end Cue

namespace Machine

variable {x : ℕ → Machine} {m : Machine} {s : SessionId} {session session' : Session} {task : Task}
  {rest : List Task} {sub : Subscription} {kind : DialogueEvent} {i n : ℕ}

/-- The number of nodes that a session is in: none if it is not there. -/
def openNodes (s : SessionId) (m : Machine) : ℕ :=
  (m.world.session? s).elim 0 Session.openNodes

theorem Moves.exists_cue {move : Session.Move} (h : Moves s m session move) :
    ∃ cue : Cue, m.agenda.head? = some (cue.task s) := by
  cases h with
  | @start title hhead => exact ⟨.start title, hhead⟩
  | proceed hhead => exact ⟨.proceed, hhead⟩
  | @follow key destination hhead => exact ⟨.follow key destination, hhead⟩

/-- A session comes into a node only on some input. -/
theorem Passage.openNodes_le (h : Passage s m session session')
    (hagenda : m.agenda = task :: rest) (hcue : task.cue? s = none) :
    session'.openNodes ≤ session.openNodes := by
  cases h with
  | aside h => exact (Session.openNodes_congr (congrArg Standing.phase h)).le
  | moved hmove h =>
      obtain ⟨cue, hhead⟩ := hmove.exists_cue
      rw [hagenda] at hhead
      obtain rfl := Option.some.inj hhead
      rw [Task.cue?_task] at hcue
      exact absurd hcue (by simp)
  | @loaded _ _ graph hhead hgraph h =>
      have hidle : (session.replaceGraph graph).phase = .idle := rfl
      rw [h, Session.openNodes_of_idle hidle]
      exact Nat.zero_le _
  | finished hhead h => exact (Session.openNodes_congr (congrArg Standing.phase h)).le
  | edited hhead hname hstored hrun h =>
      rw [h]
      exact (Session.openNodes_congr (Session.phase_setNode ..)).le

/-- A session that is new is in no node. -/
theorem Passes.openNodes_of_missing {m' : Machine} (h : Passes s m m')
    (hs : m.world.session? s = none) : openNodes s m' = 0 := by
  rw [openNodes]
  cases hs' : m'.world.session? s with
  | none => rfl
  | some session' => exact Session.openNodes_of_idle (h.fresh session' hs hs').phase

theorem asked_of_missing (hagenda : m.agenda = task :: rest) (hs : m.world.session? s = none) :
    asked s m = [] := by
  by_cases hactor : task.actor? = some s
  · rw [asked_of_actor hagenda hactor, added_of_missing hagenda hactor hs]
    rfl
  · exact asked_of_not_actor hagenda hactor

/-- A session tells its display of the end only on some input. -/
theorem countP_showsOver_asked (hagenda : m.agenda = task :: rest) (hcue : task.cue? s = none) :
    (asked s m).countP Task.showsOver = 0 := by
  cases hs : m.world.session? s with
  | none =>
      rw [asked_of_missing hagenda hs]
      rfl
  | some session =>
      by_cases hactor : task.actor? = some s
      · rcases Task.actor?_eq_some hactor with ⟨cue, rfl⟩ | ⟨line, rfl⟩
        · rw [Task.cue?_task] at hcue
          exact absurd hcue (by simp)
        · rw [asked_present hs hagenda]
          rfl
      · rw [asked_of_not_actor hagenda hactor]
        rfl

/-- What a session shows on some input are the tasks of its move. -/
theorem countP_asked_of_cue {cue : Cue} (hagenda : m.agenda = cue.task s :: rest)
    (hs : m.world.session? s = some session) {p : Task → Bool}
    (hp : ∀ t, p t = true → t.isCall = true) : (asked s m).countP p =
      (cue.tasks s (cue.move (m.world.configOf session) session)).countP p := by
  rw [asked_of_actor hagenda (Task.actor?_task s cue), added_of_cue hagenda hs, List.countP_filter]
  apply List.countP_congr
  intro t _
  cases hpt : p t with
  | true => simp [hp t hpt]
  | false => simp

theorem Sound.balance_step (h : Sound m) (s : SessionId) :
    (asked s m).countP Task.showsOver + openNodes s m.step ≤
      (asked s m).countP Task.showsNode + openNodes s m := by
  cases hagenda : m.agenda with
  | nil =>
      rw [step_of_agenda_eq_nil hagenda, asked, hagenda]
      exact le_rfl
  | cons task rest =>
      have hpasses := h.passes s
      cases hs : m.world.session? s with
      | none =>
          rw [asked_of_missing hagenda hs, hpasses.openNodes_of_missing hs]
          exact Nat.zero_le _
      | some session =>
          have hbefore : openNodes s m = session.openNodes := by rw [openNodes, hs]; rfl
          cases hcue : task.cue? s with
          | none =>
              obtain ⟨session', hs', hpassage⟩ := hpasses.passage session hs
              have hafter : openNodes s m.step = session'.openNodes := by
                rw [openNodes, hs']
                rfl
              have hle := hpassage.openNodes_le hagenda hcue
              have hnone := countP_showsOver_asked hagenda hcue
              omega
          | some cue =>
              obtain rfl := Task.cue?_eq_some hcue
              have hafter : openNodes s m.step =
                  ((cue.move (m.world.configOf session) session).outcome session).openNodes := by
                rw [openNodes, session?_of_cue hagenda hs]
                rfl
              have hover := countP_asked_of_cue hagenda hs (p := Task.showsOver) fun t ht => by
                cases t <;> first | rfl | exact absurd ht (by simp [Task.showsOver])
              have hnode := countP_asked_of_cue hagenda hs (p := Task.showsNode) fun t ht => by
                cases t <;> first | rfl | exact absurd ht (by simp [Task.showsNode])
              rw [hover, hnode, hafter, hbefore]
              exact cue.balance _ session s

/-- Since a session was made, it has told its display as often of a new node as of an end, and once
more if it is in a node. -/
theorem Execution.balance (h : Execution x)
    (hfresh : ∀ session, (x 0).world.session? s = some session → session.Fresh) (n : ℕ) :
    ((stretch x 0 n).flatMap (asked s)).countP Task.showsOver + openNodes s (x n) ≤
      ((stretch x 0 n).flatMap (asked s)).countP Task.showsNode := by
  induction n with
  | zero =>
      have hidle : openNodes s (x 0) = 0 := by
        rw [openNodes]
        cases hs : (x 0).world.session? s with
        | none => rfl
        | some session => exact Session.openNodes_of_idle (hfresh session hs).phase
      rw [hidle]
      exact le_rfl
  | succ n ih =>
      have hstep : (asked s (x n)).countP Task.showsOver + openNodes s (x (n + 1)) ≤
          (asked s (x n)).countP Task.showsNode + openNodes s (x n) := by
        generalize hm : x (n + 1) = m
        cases (hm ▸ h.next n : Next (x n) m) with
        | step => exact (h.reachable n).sound.balance_step s
        | host hagenda step =>
            rw [asked, hagenda]
            exact le_rfl
      rw [stretch_add_one, Nat.zero_add, List.flatMap_append, List.flatMap_singleton,
        List.countP_append, List.countP_append]
      omega

/-! ## Calls and notices -/

/-- A call that a session makes of its display is the next thing that happens. -/
theorem head?_of_mem_asked {call : Task} (hcall : call ∈ asked s m) :
    m.step.agenda.head? = some call := by
  cases hagenda : m.agenda with
  | nil =>
      rw [asked, hagenda] at hcall
      exact absurd hcall List.not_mem_nil
  | cons task rest =>
      by_cases hactor : task.actor? = some s
      · cases told_of_actor hagenda hactor with
        | silent hasked =>
            rw [hasked] at hcall
            exact absurd hcall List.not_mem_nil
        | calls hasked hnotice hadded =>
            rw [hasked] at hcall
            obtain rfl := List.mem_singleton.mp hcall
            obtain ⟨after, hstep⟩ : m.added <+: m.step.agenda := List.take_prefix ..
            rw [← hstep, hadded]
            rfl
      · rw [asked_of_not_actor hagenda hactor] at hcall
        exact absurd hcall List.not_mem_nil

/-- However a session is called back into, an observer that stays subscribed to its bus receives,
from one time at which the bus is at rest to another, the notices of the calls of the display and
what the host publishes on the bus itself: for each line as many events as it has been shown, for
each node as many as the display has been told of it, and as many ends as the display has been told
of.  All calls of the display in between must return, and no event may be consumed.  Since the
session was made, its display has at no time been told more often of an end than of a new node. -/
theorem notices_match_calls (h : Execution x)
    (hfresh : ∀ session, (x 0).world.session? s = some session → session.Fresh)
    (hkind : kind ≠ .contextClosed)
    (hstart : Quiet (.session s) (x i)) (hend : Quiet (.session s) (x (i + n)))
    (hsub : sub ∈ ((x i).world.bus (.session s)).subscriptions (.dialogue kind))
    (hfirm : sub.weak = false) (hlasts : sub.oneShot = false)
    (hkept : ∀ j < n, unsubscribes (.session s) (x (i + j)) = true →
      sub ∈ ((x (i + j + 1)).world.bus (.session s)).subscriptions (.dialogue kind))
    (hopen : ∀ j ≤ n, consumedIn (.session s) (x (i + j)) = false)
    (hreturn : CallsReturn s x i (i + n)) :
    (Event.ofType (.dialogue kind)
        ((stretch x i n).flatMap (received (.session s) sub.listener))).Perm
      (Event.ofType (.dialogue kind)
        (((stretch x i n).flatMap (asked s)).filterMap Task.notice? ++
          (stretch x i n).flatMap (forged (.session s)))) ∧
      (∀ j < n, ∀ call ∈ asked s (x (i + j)), (x (i + j + 1)).agenda.head? = some call) ∧
      ∀ k, ((stretch x 0 k).flatMap (asked s)).countP Task.showsOver ≤
        ((stretch x 0 k).flatMap (asked s)).countP Task.showsNode := by
  refine ⟨?_, fun j _ call hcall => ?_, fun k => ?_⟩
  · have hears : Hears (.session s) (.dialogue kind) sub.listener x i n := by
      refine ⟨fun j hj => ?_, hopen⟩
      exact ⟨sub, h.subscribed hsub hfirm hlasts hkept hj, rfl, hfirm⟩
    have htype : EventType.dialogue kind ≠ .dialogue .contextClosed := fun heq =>
      hkind (EventType.dialogue.inj heq)
    have hpublished := hreturn.published_perm h hstart hend htype
    rw [hears.received_eq_published h hstart hend, List.filterMap_flatMap]
    exact hpublished.trans ((List.flatMap_append_perm _ _ _).symm.filter _)
  · have hbusy : (x (i + j)).agenda ≠ [] := by
      intro hnil
      rw [asked, hnil] at hcall
      exact absurd hcall List.not_mem_nil
    rw [h.eq_step hbusy]
    exact head?_of_mem_asked hcall
  · have := h.balance hfresh k
    omega

/-- A host that goes on as soon as a line is shown, and again as soon as it learns of one. -/
def brisk : ℕ → Machine :=
  course { world := World.ofHandlers [("again", [(1, [.session "s" .proceed])]),
      ("on", [(1, [.session "s" .proceed])])] }
    [.newDisplay "c" "c" (.recording { line := some "again" } false),
      .newSession "s" "c" none (.graph (some
        (.array [.object [("title", .string "A"), ("body", .string "one\ntwo")]]))),
      .bus (.session "s") (.subscribe (.dialogue .lineDisplayed) "on" 0 false false),
      .session "s" (.start "A")]

theorem notices_match_calls_brisk :
    Execution brisk ∧ CallsReturn ⟨0⟩ brisk 7 71 ∧ (brisk 71).agenda = [] ∧
      ((stretch brisk 7 64).flatMap (asked ⟨0⟩)).length = 4 ∧
      (Event.ofType (.dialogue .lineDisplayed)
        ((stretch brisk 7 64).flatMap (received (.session ⟨0⟩) (.observer ⟨0⟩)))).length = 2 := by
  have h : Execution brisk := execution_course (initial_ofHandlers _) _
  have hnew : (brisk 0).world.session? ⟨0⟩ = none := rfl
  have hstart : (brisk 7).agenda = [] :=
    List.isEmpty_iff.mp (by decide +kernel : (brisk 7).agenda.isEmpty = true)
  have hend : (brisk 71).agenda = [] :=
    List.isEmpty_iff.mp (by decide +kernel : (brisk 71).agenda.isEmpty = true)
  have hsub : ⟨0, .observer ⟨0⟩, false, false⟩ ∈
      ((brisk 7).world.bus (.session ⟨0⟩)).subscriptions (.dialogue .lineDisplayed) := by
    decide +kernel
  have hkept : ∀ j < 64, unsubscribes (.session ⟨0⟩) (brisk (7 + j)) = false := by
    decide +kernel
  have hcalls : ∀ j < 71, (asked ⟨0⟩ (brisk j)).isEmpty = true ∨
      j = 9 ∨ j = 17 ∨ j = 24 ∨ j = 37 := by
    decide +kernel
  -- The second line and the end of the conversation come while the first line is being shown.
  have hreturn : CallsReturn ⟨0⟩ brisk 7 71 := by
    intro j _ hj hasked
    rcases hcalls j hj with hnone | rfl | rfl | rfl | rfl
    · exact absurd (List.isEmpty_iff.mp hnone) hasked
    · exact ⟨12, by omega, by omega, by decide +kernel, by decide +kernel⟩
    · exact ⟨58, by omega, by omega, by decide +kernel, by decide +kernel⟩
    · exact ⟨29, by omega, by omega, by decide +kernel, by decide +kernel⟩
    · exact ⟨40, by omega, by omega, by decide +kernel, by decide +kernel⟩
  obtain ⟨hnotices, -, -⟩ := notices_match_calls (i := 7) (n := 64) h
    (fun session hs => absurd (hnew.symm.trans hs) (by simp)) (by simp)
    (quiet_of_agenda_eq_nil hstart _) (quiet_of_agenda_eq_nil hend _) hsub rfl rfl
    (fun j hj hends => absurd ((hkept j hj).symm.trans hends) (by simp)) (by decide +kernel) hreturn
  exact ⟨h, hreturn, hend, by decide +kernel, hnotices.length_eq.trans (by decide +kernel)⟩

end Machine

end Parley
