import Parley.Proofs.Graph.Valid
import Parley.Proofs.Machine.Execution

/-!
# Conversation data that is refused

A session that is to load a conversation, and a manager that is to cache one, look at the data
before they touch anything.  So data with a violation costs no more than the failure: the session
keeps its graph, its current node and all cursors, and the manager its conversations in their
order (`validation_decides_loading`).
-/

namespace Parley

theorem Manager.add_eq_error {config : Config} {data : Json.Value} {failure : Failure}
    (h : Graph.load config.caseSensitiveTitles data = .error failure) (manager : Manager)
    (conversation : String) : manager.add config conversation data = .error failure := by
  rw [add, h]
  rfl

namespace Machine

variable {m : Machine} {w : World} {s : SessionId} {session : Session} {id : ManagerId}
  {manager : Manager} {rest : List Task} {caseSensitive : Bool} {data : Json.Value}
  {failure : Failure}

/-- The next step is a failure and nothing else. -/
structure OnlyFails (failure : Failure) (m : Machine) : Prop where
  step : m.step = { m with agenda := m.agenda.tail }.fail failure
  world : m.step.world = m.world

theorem onlyFails_of_exec {task : Task} (hagenda : m.agenda = task :: rest)
    (h : exec { m with agenda := rest } (task :: rest) task =
      { m with agenda := rest }.fail failure) : OnlyFails failure m := by
  have hstep : m.step = { m with agenda := m.agenda.tail }.fail failure := by
    rw [step_eq hagenda, h, hagenda]
    rfl
  exact ⟨hstep, by rw [hstep, world_fail]⟩

theorem onlyFails_load {start : Option String} (hs : m.world.session? s = some session)
    (hagenda : m.agenda = .load s data start :: rest)
    (hload : Graph.load caseSensitive data = .error failure) : OnlyFails failure m := by
  apply onlyFails_of_exec hagenda
  have hrefused := Graph.load_eq_error_of_load
    (m.world.configOf session).caseSensitiveTitles hload
  simp only [exec, load, hs, hrefused]

theorem onlyFails_add {conversation : String} (hcurrent : m.world.manager = some id)
    (hid : m.world.manager? id = some manager)
    (hagenda : m.agenda = .perform (.manager (.add conversation data)) :: rest)
    (hload : Graph.load caseSensitive data = .error failure) : OnlyFails failure m := by
  apply onlyFails_of_exec hagenda
  have hrefused := Manager.add_eq_error
    (Graph.load_eq_error_of_load (m.world.config manager.config).caseSensitiveTitles hload)
    manager conversation
  simp only [exec, perform, hcurrent, Option.bind_some, hid, Option.map_some, performManager,
    hrefused]

/-! ## Steps of the host -/

/-- A step of the host that only fails, after so many steps of the machine. -/
theorem performStep_of_failed {step : Step} {fuel n : ℕ} (hfuel : n ≤ fuel)
    (hfailed : Machine.step^[n] { world := w, agenda := [.perform step] } =
      { world := w, result := .error failure }) :
    Scenario.performStep fuel w step = some (w, ⟨.error failure, [], w.overview⟩) := by
  have hrun : run n { world := w, agenda := [.perform step] } =
      { world := w, result := .error failure } := by
    rw [run_eq_iterate, hfailed]
  have hmore : run fuel { world := w, agenda := [.perform step] } =
      { world := w, result := .error failure } := by
    rw [run_eq_of_le hfuel (by rw [hrun]; rfl), hrun]
  rw [Scenario.performStep, hmore]
  rfl

theorem performStep_load {name : String} {start : Option String} {fuel : ℕ} (hfuel : 2 ≤ fuel)
    (hname : w.sessionNames.get? name = some s) (hs : w.session? s = some session)
    (hload : Graph.load caseSensitive data = .error failure) :
    Scenario.performStep fuel w (.session name (.load data start)) =
      some (w, ⟨.error failure, [], w.overview⟩) := by
  apply performStep_of_failed hfuel
  have hcalled :
      Machine.step { world := w, agenda := [.perform (.session name (.load data start))] } =
        { world := w, agenda := [.load s data start, .leave s, .answer .nothing] } := by
    rw [step_eq rfl]
    simp only [exec, perform, withSession, hname, Option.bind_some, hs, Option.map_some]
    rfl
  rw [Function.iterate_succ_apply, hcalled]
  exact (onlyFails_load (m := { world := w, agenda := [.load s data start, .leave s,
    .answer .nothing] }) hs rfl hload).step

theorem performStep_add {conversation : String} {fuel : ℕ} (hfuel : 1 ≤ fuel)
    (hcurrent : w.manager = some id) (hid : w.manager? id = some manager)
    (hload : Graph.load caseSensitive data = .error failure) :
    Scenario.performStep fuel w (.manager (.add conversation data)) =
      some (w, ⟨.error failure, [], w.overview⟩) := by
  apply performStep_of_failed hfuel
  exact (onlyFails_add
    (m := { world := w, agenda := [.perform (.manager (.add conversation data))] })
    hcurrent hid rfl hload).step

/-! ## Validation -/

/-- A graph can be loaded from a value or not, and it cannot exactly if the value is no list, or an
element of it no object, or the title, the tags or the body of an element neither a text nor null;
the failure says which.  Where a session is to load such a value, or a manager to cache it, this
failure is all that happens, in the middle of other work just as at rest. -/
theorem validation_decides_loading (data : Json.Value) :
    (∀ caseSensitive, (∃ failure, Graph.load caseSensitive data = .error failure) ↔
        ∃ value shape, Record.Violates data value shape) ∧
      (∀ caseSensitive failure, Graph.load caseSensitive data = .error failure →
        ∃ value shape, Record.Violates data value shape ∧
          failure = .invalidData value.literal shape) ∧
      (Record.Valid data → ∃ values, data = .array values ∧ ∀ caseSensitive,
        Graph.load caseSensitive data =
          .ok (Graph.ofRecords caseSensitive (values.map Record.ofValue))) ∧
      ∀ caseSensitive failure, Graph.load caseSensitive data = .error failure →
        (∀ (m : Machine) s start rest, (m.world.session? s).isSome = true →
          m.agenda = .load s data start :: rest → OnlyFails failure m) ∧
        (∀ (m : Machine) id conversation rest, m.world.manager = some id →
          (m.world.manager? id).isSome = true →
          m.agenda = .perform (.manager (.add conversation data)) :: rest →
          OnlyFails failure m) ∧
        (∀ (w : World) name s start fuel, 2 ≤ fuel → w.sessionNames.get? name = some s →
          (w.session? s).isSome = true →
          Scenario.performStep fuel w (.session name (.load data start)) =
            some (w, ⟨.error failure, [], w.overview⟩)) ∧
        ∀ (w : World) id conversation fuel, 1 ≤ fuel → w.manager = some id →
          (w.manager? id).isSome = true →
          Scenario.performStep fuel w (.manager (.add conversation data)) =
            some (w, ⟨.error failure, [], w.overview⟩) := by
  refine ⟨fun _ => Graph.load_eq_error_iff, fun _ _ => Graph.violates_of_load_eq_error, ?_, ?_⟩
  · intro hvalid
    obtain ⟨values, hdata, -⟩ := Graph.load_of_valid true hvalid
    refine ⟨values, hdata, fun caseSensitive => ?_⟩
    obtain ⟨values', hdata', hload⟩ := Graph.load_of_valid caseSensitive hvalid
    obtain rfl := Json.Value.array.inj (hdata.symm.trans hdata')
    exact hload
  · intro caseSensitive failure hload
    refine ⟨?_, ?_, ?_, ?_⟩
    · intro m s start rest hs hagenda
      obtain ⟨session, hs⟩ := Option.isSome_iff_exists.mp hs
      exact onlyFails_load hs hagenda hload
    · intro m id conversation rest hcurrent hid hagenda
      obtain ⟨manager, hid⟩ := Option.isSome_iff_exists.mp hid
      exact onlyFails_add hcurrent hid hagenda hload
    · intro w name s start fuel hfuel hname hs
      obtain ⟨session, hs⟩ := Option.isSome_iff_exists.mp hs
      exact performStep_load hfuel hname hs hload
    · intro w id conversation fuel hfuel hcurrent hid
      obtain ⟨manager, hid⟩ := Option.isSome_iff_exists.mp hid
      exact performStep_add hfuel hcurrent hid hload

/-- A host whose session is at the second line of a node when it is to load a record with a number
for a title. -/
def mistaken : ℕ → Machine :=
  course { world := World.ofHandlers [] }
    [.newDisplay "c" "c" (.recording {} false),
      .newManager none,
      .manager (.add "k" (.array [.object [("title", .string "A")]])),
      .newSession "s" "c" none (.graph (some
        (.array [.object [("title", .string "A"), ("body", .string "one\ntwo")]]))),
      .session "s" (.start "A"),
      .session "s" .proceed]

theorem validation_decides_loading_mistaken :
    Record.Violates (.array [.object [("title", .int 1)]]) (.int 1) .optionalText ∧
      Scenario.performStep 2 (mistaken 50).world
          (.session "s" (.load (.array [.object [("title", .int 1)]]) none)) =
        some ((mistaken 50).world,
          ⟨.error (.invalidData "1" .optionalText), [], (mistaken 50).world.overview⟩) ∧
      Scenario.performStep 1 (mistaken 50).world
          (.manager (.add "k" (.array [.object [("title", .int 1)]]))) =
        some ((mistaken 50).world,
          ⟨.error (.invalidData "1" .optionalText), [], (mistaken 50).world.overview⟩) ∧
      (mistaken 50).world.overview =
        ⟨[("s", "IN_NODE", false, some ("A", 1))], [("c", false, some "s")]⟩ := by
  obtain ⟨-, -, -, hrefused⟩ :=
    validation_decides_loading (.array [.object [("title", .int 1)]])
  obtain ⟨-, -, hload, hadd⟩ := hrefused true (.invalidData "1" .optionalText) (by rfl)
  refine ⟨.field rfl List.mem_cons_self List.mem_cons_self rfl (by simp) (by simp), ?_, ?_, ?_⟩
  · exact hload _ "s" ⟨0⟩ none 2 le_rfl (by decide +kernel) (by decide +kernel)
  · exact hadd _ ⟨0⟩ "k" 1 le_rfl (by decide +kernel) (by decide +kernel)
  · decide +kernel

end Machine

end Parley
