import Parley.Proofs.Session.Due
import Parley.Proofs.Session.Whereabouts

/-!
# Starting anew

Once a node is started in it, a session has forgotten its past.  Two sessions, in any two courses of
events, that have been given the same script, under the same settings, are seen to do the same from
then on, if they get the same input (`start_forgets_past`): the same calls of their displays, the
same events, log entries, answers and failures, the same states, nodes and cursors.  Whatever nodes
they had been at, wherever their cursors were left, whether their conversations were over: none of
this is seen again.

## Strategy

What is seen of a session that is left to its input is a story that depends on the session and on
the input alone (`Execution.sights_eq_narrative`); this is one induction over the steps of the
machine, on which the session gets input, shows the next line that is due, or stands aside
(`Beat`).  The story in turn depends only on the script, the phase and the current node of the
session, which are the same from the start of the node on (`Session.SameScript.narrative`).
-/

namespace Parley

/-! ## Work on nodes -/

/-- Whether a step on a node edits one of its lines. -/
def NodeStep.editsLine : NodeStep → Bool
  | .line .. => true
  | _ => false

namespace NodeStep

variable {step : NodeStep} {node changed : Node} {answer : Answer}

/-- All but a few steps on a node leave it as it is. -/
theorem eq_of_run (hrun : (step.run node).value = .ok (changed, answer))
    (hmoves : step.movesCursor = false) (hedits : step.editsLine = false) : changed = node := by
  have hsame : ∀ {result : Answer}, (Except.ok (node, result) : Except Failure (Node × Answer)) =
      .ok (changed, answer) → changed = node := by
    intro result heq
    exact (Prod.mk.inj (Except.ok.inj heq)).1.symm
  cases step with
  | reset => exact absurd hmoves (by simp [movesCursor])
  | advance => exact absurd hmoves (by simp [movesCursor])
  | seek index => exact absurd hmoves (by simp [movesCursor])
  | line index edit => exact absurd hedits (by simp [editsLine])
  | currentLine =>
      cases hline : node.currentLine with
      | error failure =>
          simp only [run, hline] at hrun
          exact absurd hrun (by simp [Except.map])
      | ok line =>
          simp only [run, hline] at hrun
          exact hsame hrun
  | _ => exact hsame hrun

/-- Moving the cursor of a node changes nothing else of it. -/
theorem reset_of_run (hrun : (step.run node).value = .ok (changed, answer))
    (hedits : step.editsLine = false) : changed.reset = node.reset := by
  cases hmoves : step.movesCursor with
  | false => rw [eq_of_run hrun hmoves hedits]
  | true =>
      cases step with
      | reset =>
          obtain ⟨rfl, -⟩ := Prod.mk.inj (Except.ok.inj hrun)
          rfl
      | advance =>
          simp only [run, Node.advance] at hrun
          split at hrun
          · exact absurd hrun (by simp [Except.map])
          · obtain ⟨rfl, -⟩ := Prod.mk.inj (Except.ok.inj hrun)
            exact Session.reset_forward node
      | seek index =>
          simp only [run, Node.seek] at hrun
          split at hrun
          · obtain ⟨rfl, -⟩ := Prod.mk.inj (Except.ok.inj hrun)
            rfl
          · obtain ⟨rfl, -⟩ := Prod.mk.inj (Except.ok.inj hrun)
            rfl
      | _ => exact absurd hmoves (by simp [movesCursor])

end NodeStep

namespace Machine

variable {x y : ℕ → Machine} {m m' : Machine} {s t : SessionId} {session session' : Session}
  {config : Config} {due : List Line} {i j k n : ℕ}

/-- Whether the next step gives a session another script: loads another graph into it, or has the
host edit a line of it. -/
def rewrites (s : SessionId) (m : Machine) : Bool :=
  match m.agenda.head? with
  | some (.load t _ _) => t = s
  | some (.perform (.session name (.node _ step))) =>
    step.editsLine && m.world.sessionNames.get? name = some s
  | _ => false

/-- Whether the next step finishes a session. -/
def finishes (s : SessionId) (m : Machine) : Bool :=
  match m.agenda.head? with
  | some (.finish t _) => t = s
  | _ => false

/-- Unless a session gets another script, it keeps the one that it has. -/
theorem Passage.sameScript (h : Passage s m session session') (hkept : rewrites s m = false) :
    session.SameScript session' := by
  cases h with
  | aside h => exact .of_eq (congrArg Standing.graph h)
  | moved hmove h => exact h ▸ hmove.of.sameScript
  | loaded hhead hgraph h => exact absurd hkept (by simp [rewrites, hhead])
  | finished hhead h =>
      have hgraph : session'.graph = session.graph := congrArg Standing.graph h
      exact .of_eq hgraph
  | @edited _ _ step _ _ _ _ hhead hname hstored hrun h =>
      have hedits : step.editsLine = false := by simpa [rewrites, hhead, hname] using hkept
      exact h ▸ Session.Fits.sameScript ⟨_, hstored, NodeStep.reset_of_run hrun hedits⟩

/-- A line that can be found stays as it is, unless the host edits a line. -/
theorem Passage.line?_of_unedited {ref : LineRef} (h : Passage s m session session')
    (hedits : ∀ name title step,
      m.agenda.head? = some (.perform (.session name (.node title step))) →
      m.world.sessionNames.get? name = some s → step.editsLine = false)
    (hfound : (session.line? ref).isSome) : session'.line? ref = session.line? ref := by
  cases h with
  | aside h =>
      exact Session.SameScript.line? (.of_eq (congrArg Standing.graph h))
        (congrArg Standing.shelved h) ref
  | moved hmove h =>
      obtain ⟨graph, phase, hmoved⟩ := hmove.of.frame
      have hshelved := congrArg Session.shelved (h.trans hmoved)
      exact (h ▸ hmove.of.sameScript : session.SameScript session').line? hshelved ref
  | loaded hhead hgraph h => exact h ▸ Session.line?_replaceGraph hfound
  | finished hhead h =>
      exact Session.SameScript.line? (.of_eq (congrArg Standing.graph h))
        (congrArg Standing.shelved h) ref
  | edited hhead hname hstored hrun h =>
      have hreset := NodeStep.reset_of_run hrun (hedits _ _ _ hhead hname)
      exact h ▸ (Session.Fits.sameScript ⟨_, hstored, hreset⟩).line? rfl ref

/-- Unless a session gets input, or the host works on it, it stays where it is. -/
theorem Passage.akin (h : Passage s m session session')
    (hcue : m.agenda.head?.bind (Task.cue? s) = none) (hrewrites : rewrites s m = false)
    (hmeddles : meddles s m = false) (hfinishes : finishes s m = false) :
    session.Akin session' ∧ session'.shelved = session.shelved := by
  cases h with
  | aside h =>
      exact ⟨.of_eq (congrArg Standing.graph h) (congrArg Standing.phase h)
        (congrArg Standing.finished h), congrArg Standing.shelved h⟩
  | moved hmove h =>
      cases hmove with
      | start hhead => exact absurd hcue (by simp [hhead, Task.cue?])
      | proceed hhead => exact absurd hcue (by simp [hhead, Task.cue?])
      | follow hhead => exact absurd hcue (by simp [hhead, Task.cue?])
  | loaded hhead hgraph h => exact absurd hrewrites (by simp [rewrites, hhead])
  | finished hhead h => exact absurd hfinishes (by simp [finishes, hhead])
  | @edited _ _ step _ _ _ _ hhead hname hstored hrun h =>
      have hedits : step.editsLine = false := by simpa [rewrites, hhead, hname] using hrewrites
      have hmoves : step.movesCursor = false := by simpa [meddles, hhead, hname] using hmeddles
      obtain rfl := NodeStep.eq_of_run hrun hmoves hedits
      exact h ▸ ⟨Session.akin_setNode hstored, rfl⟩

/-! ## Sessions that are left to their input -/

/-- A step leaves a session to its input: it gives it no other script, moves none of its cursors,
does not finish it and finds it under the given settings, and no line that is due is lost to a
failure. -/
structure Undisturbed (s : SessionId) (config : Config) (m m' : Machine) : Prop where
  rewrites : rewrites s m = false
  meddles : meddles s m = false
  finishes : finishes s m = false
  config : (m.world.session? s).map m.world.configOf = some config
  due : Task.due s m.agenda.tail <:+ Task.due s m'.agenda

instance (s : SessionId) (config : Config) (m m' : Machine) :
    Decidable (Undisturbed s config m m') :=
  decidable_of_iff
    (Machine.rewrites s m = false ∧ Machine.meddles s m = false ∧
      Machine.finishes s m = false ∧
      (m.world.session? s).map m.world.configOf = some config ∧
      Task.due s m.agenda.tail <:+ Task.due s m'.agenda)
    ⟨fun ⟨h₁, h₂, h₃, h₄, h₅⟩ => ⟨h₁, h₂, h₃, h₄, h₅⟩,
      fun ⟨h₁, h₂, h₃, h₄, h₅⟩ => ⟨h₁, h₂, h₃, h₄, h₅⟩⟩

/-- How far a session has got: how it is now, and the lines that are still due. -/
structure Poised (s : SessionId) (m : Machine) (session : Session) (due : List Line) : Prop where
  session : m.world.session? s = some session
  own : ∀ ref ∈ Task.due s m.agenda, ref.session = s
  lines : (Task.due s m.agenda).map m.world.line = due

/-- What a step is to a session that is left to its input. -/
inductive Beat (s : SessionId) (config : Config) (m m' : Machine) (session : Session)
    (due : List Line) : Prop
  | cue {cue : Cue} (hcued : cued s m = some (cue, due.length))
      (hsight : sight s m = some (cue.sight config session))
      (h : Poised s m' ((cue.move config session).outcome session)
        ((cue.move config session).line?.toList ++ due))
  | shows {line : Line} {rest : List Line} {session' : Session} (hdue : due = line :: rest)
      (hcued : cued s m = none) (hsight : sight s m = some (session.showing line))
      (hakin : session.Akin session') (h : Poised s m' session' rest)
  | aside {session' : Session} (hcued : cued s m = none) (hsight : sight s m = none)
      (hakin : session.Akin session') (h : Poised s m' session' due)

theorem line_eq {ref : LineRef} (hs : m.world.session? s = some session) (href : ref.session = s) :
    m.world.line ref = (session.line? ref).getD {} := by
  rw [World.line, href, hs]
  rfl

/-- Lines that are due stay the same as long as the session keeps its script. -/
theorem Poised.map_line (h : Poised s m session due) (hs' : m'.world.session? s = some session')
    (hscript : session.SameScript session') (hshelved : session'.shelved = session.shelved)
    (refs : List LineRef) (hrefs : ∀ ref ∈ refs, ref ∈ Task.due s m.agenda) :
    refs.map m'.world.line = refs.map m.world.line := by
  refine List.map_congr_left fun ref href => ?_
  have hown := h.own ref (hrefs ref href)
  rw [line_eq hs' hown, line_eq h.session hown, hscript.line? hshelved]

theorem Poised.length_due (h : Poised s m session due) :
    (Task.due s m.agenda).length = due.length := by
  rw [← h.lines, List.length_map]

/-- Input is carried out, and the line that it leads to becomes due. -/
theorem Poised.beat_cue {cue : Cue} {rest : List Task} (h : Poised s m session due)
    (hagenda : m.agenda = cue.task s :: rest) (hconfig : m.world.configOf session = config)
    (hkept : Task.due s rest <:+ Task.due s m.step.agenda) :
    Beat s config m m.step session due := by
  have hbelow : Task.due s m.agenda = Task.due s rest := by
    rw [hagenda, Task.due_cons]
    cases cue <;> rfl
  have hcued := cued_of_cue hagenda
  rw [h.length_due] at hcued
  have hsight := sight_of_cue hagenda h.session
  have hs' := session?_of_cue hagenda h.session
  have hdue := due_of_cue hagenda h.session hkept
  rw [hconfig] at hsight hs' hdue
  have hmove : Session.Move.Of session (cue.move config session) := by
    cases cue with
    | start title => exact .start title
    | proceed => exact .proceed
    | follow key destination => exact .follow config key destination
  have hshelved : ((cue.move config session).outcome session).shelved = session.shelved := by
    obtain ⟨graph, phase, heq⟩ := hmove.frame
    rw [heq]
  have hold : (Task.due s rest).map m.step.world.line = due := by
    rw [h.map_line hs' hmove.sameScript hshelved _ fun ref href => hbelow ▸ href, ← hbelow, h.lines]
  refine .cue hcued hsight ⟨hs', fun ref href => ?_, ?_⟩
  · rw [hdue, List.mem_append] at href
    rcases href with hnew | hearlier
    · rw [Task.due_tasks] at hnew
      split at hnew
      · rw [List.mem_singleton.mp hnew]
      · exact absurd hnew List.not_mem_nil
    · exact h.own ref (hbelow ▸ hearlier)
  · rw [hdue, List.map_append, hold, Task.due_tasks]
    congr 1
    generalize cue.move config session = move at hs' ⊢
    cases move with
    | display moved key index =>
        rw [List.map_singleton, line_eq hs' rfl, Session.Move.line?_display s]
        rfl
    | _ => rfl

/-- A step that is no input shows the next line that is due, or is none of the session's. -/
theorem Poised.beat_other {task : Task} {rest : List Task} (h : Poised s m session due)
    (hsound : Sound m) (hagenda : m.agenda = task :: rest) (hcue : task.cue? s = none)
    (hleft : Undisturbed s config m m.step) : Beat s config m m.step session due := by
  obtain ⟨session', hs', hpassage⟩ := (hsound.passes s).passage session h.session
  have hnone : m.agenda.head?.bind (Task.cue? s) = none := by
    rw [hagenda]
    exact hcue
  obtain ⟨hakin, hshelved⟩ :=
    hpassage.akin hnone hleft.rewrites hleft.meddles hleft.finishes
  have hkept := hleft.due
  rw [hagenda, List.tail_cons] at hkept
  have hrest := hsound.due_step hagenda hcue hkept
  have hcued : cued s m = none := cued_eq_none hagenda hcue
  have hall : Task.due s m.agenda = (task.due? s).toList ++ Task.due s rest := by
    rw [hagenda, Task.due_cons]
  have hsub : ∀ ref ∈ Task.due s rest, ref ∈ Task.due s m.agenda := by
    intro ref href
    rw [hall]
    exact List.mem_append_right _ href
  have hlines := h.lines
  rw [hall, List.map_append] at hlines
  have hpoised : Poised s m.step session' ((Task.due s rest).map m.world.line) := by
    refine ⟨hs', fun ref href => h.own ref (hsub ref (hrest ▸ href)), ?_⟩
    rw [hrest]
    exact h.map_line hs' hakin.script hshelved _ hsub
  cases hdue : task.due? s with
  | none =>
      rw [hdue] at hlines
      refine .aside hcued (sight_eq_none hagenda hcue hdue) hakin ?_
      exact hlines ▸ hpoised
  | some line =>
      obtain rfl := Task.due?_eq_some hdue
      rw [hdue] at hlines
      exact .shows hlines.symm hcued (sight_present hagenda h.session) hakin hpoised

theorem Poised.beat (h : Poised s m session due) (hsound : Sound m) (hnext : Next m m')
    (hleft : Undisturbed s config m m') : Beat s config m m' session due := by
  have hrest : m.agenda = [] → Poised s m' session due → Beat s config m m' session due := by
    intro hagenda hpoised
    refine .aside ?_ ?_ (.of_eq rfl rfl rfl) hpoised
    · rw [cued, hagenda]
      rfl
    · rw [sight, hagenda]
      rfl
  cases hnext with
  | host hagenda step =>
      refine hrest hagenda ⟨h.session, by simp [Task.due, Task.due?], ?_⟩
      rw [← h.lines, hagenda]
      rfl
  | step =>
      cases hagenda : m.agenda with
      | nil =>
          refine hrest hagenda ?_
          rw [step_of_agenda_eq_nil hagenda]
          exact h
      | cons task rest =>
          cases hcue : task.cue? s with
          | none => exact h.beat_other hsound hagenda hcue hleft
          | some cue =>
              obtain rfl := Task.cue?_eq_some hcue
              have hconfig := hleft.config
              have hkept := hleft.due
              rw [h.session] at hconfig
              rw [hagenda, List.tail_cons] at hkept
              exact h.beat_cue hagenda (Option.some.inj hconfig) hkept

/-! ## Whole courses of events -/

/-- The input that a session gets in the next `n` steps. -/
def cues (s : SessionId) (x : ℕ → Machine) (i n : ℕ) : List (Cue × ℕ) :=
  (stretch x i n).filterMap (cued s)

/-- What is seen of a session in the next `n` steps. -/
def sights (s : SessionId) (x : ℕ → Machine) (i n : ℕ) : List Sight :=
  (stretch x i n).filterMap (sight s)

/-- What is seen of a session that is left to its input is its story. -/
theorem Execution.sights_eq_narrative (hx : Execution x) (hreset : config.resetOnOption = true)
    (hleft : ∀ k < n, Undisturbed s config (x (i + k)) (x (i + k + 1)))
    (h : Poised s (x i) session due) :
    depthOf (Task.due s (x (i + n)).agenda).length (cues s x i n) ≤ due.length ∧
      sights s x i n =
        narrative config (Task.due s (x (i + n)).agenda).length session due (cues s x i n) := by
  induction n generalizing i session due with
  | zero =>
      refine ⟨Nat.le_of_eq h.length_due, ?_⟩
      show [] = (due.take (due.length - _)).map session.showing
      rw [Nat.add_zero, h.length_due, Nat.sub_self, List.take_zero, List.map_nil]
  | succ n ih =>
      have hlast : i + (n + 1) = i + 1 + n := by omega
      have hlater : ∀ k < n, Undisturbed s config (x (i + 1 + k)) (x (i + 1 + k + 1)) := by
        intro k hk
        have hstep := hleft (k + 1) (by omega)
        rwa [show i + (k + 1) = i + 1 + k by omega] at hstep
      have hbeat := h.beat (hx.reachable i).sound (hx.next i) (hleft 0 (by omega))
      rw [hlast, cues, sights, stretch_succ, List.filterMap_cons, List.filterMap_cons]
      cases hbeat with
      | cue hcued hsight hpoised =>
          obtain ⟨-, hrest⟩ := ih hlater hpoised
          rw [hcued, hsight]
          refine ⟨Nat.le_refl _, ?_⟩
          show _ :: sights s x (i + 1) n = _
          rw [hrest, narrative, Nat.sub_self]
          rfl
      | shows hdue hcued hsight hakin hpoised =>
          obtain ⟨hdepth, hrest⟩ := ih hlater hpoised
          rw [hcued, hsight, hdue]
          refine ⟨Nat.le_succ_of_le hdepth, ?_⟩
          show _ :: sights s x (i + 1) n = narrative _ _ _ _ (cues s x (i + 1) n)
          rw [hrest, narrative_cons hdepth, hakin.narrative hreset]
      | aside hcued hsight hakin hpoised =>
          obtain ⟨hdepth, hrest⟩ := ih hlater hpoised
          rw [hcued, hsight]
          refine ⟨hdepth, ?_⟩
          show sights s x (i + 1) n = narrative _ _ _ _ (cues s x (i + 1) n)
          rw [hrest, hakin.narrative hreset]

/-- A session keeps its script for as long as it gets no other. -/
theorem Execution.sameScript (hx : Execution x) (hs : (x i).world.session? s = some session)
    (hij : i ≤ j) (hkept : ∀ k, i ≤ k → k < j → rewrites s (x k) = false) :
    ∃ session', (x j).world.session? s = some session' ∧ session.SameScript session' := by
  induction j, hij using Nat.le_induction with
  | base => exact ⟨session, hs, .of_eq rfl⟩
  | succ j hij ih =>
      obtain ⟨found, hfound, hscript⟩ := ih fun k hik hkj => hkept k hik (by omega)
      obtain ⟨session', hs', hpassage⟩ :=
        ((hx.reachable j).sound.passes_next (hx.next j) s).passage found hfound
      exact ⟨session', hs',
        hscript.trans (hpassage.sameScript (hkept j hij (Nat.lt_succ_self j)))⟩

/-- A session was given a script at some time, and no other since. -/
def Retains (script : Graph) (s : SessionId) (x : ℕ → Machine) (i : ℕ) : Prop :=
  ∃ j ≤ i, ∃ session graph, (x j).world.session? s = some session ∧
    session.graph = some graph ∧ script.SameScript graph ∧
    ∀ k, j ≤ k → k < i → rewrites s (x k) = false

theorem Execution.sameScript_of_retains (hx : Execution x) (hy : Execution y) {script : Graph}
    (h : Retains script s x i) (h' : Retains script t y j)
    (hs : (x i).world.session? s = some session) (hs' : (y j).world.session? t = some session') :
    session.SameScript session' := by
  obtain ⟨i₀, hi, first, graph, hfirst, hgraph, hscript, hkept⟩ := h
  obtain ⟨j₀, hj, first', graph', hfirst', hgraph', hscript', hkept'⟩ := h'
  obtain ⟨found, hfound, hsame⟩ := hx.sameScript hfirst hi hkept
  obtain ⟨found', hfound', hsame'⟩ := hy.sameScript hfirst' hj hkept'
  obtain rfl : found = session := Option.some.inj (hfound.symm.trans hs)
  obtain rfl : found' = session' := Option.some.inj (hfound'.symm.trans hs')
  have hgiven : first.SameScript first' := by
    rw [Session.SameScript, hgraph, hgraph']
    exact .some (hscript.symm.trans hscript')
  exact hsame.symm.trans (hgiven.trans hsame')

/-- In two courses of events two sessions have been given the same script, whatever they have been
doing with it since.  Neither is finished, no line of them is due, and from now on both are left to
their input, under the same settings, by which an option starts its destination from the first line.
They get the same input, each time with as many lines due, and the first of it starts a node, which
succeeds in one of them.  Then the same is seen of both: calls, events, log entries, answers,
failures, states, titles and cursors. -/
theorem start_forgets_past (hx : Execution x) (hy : Execution y) {l : ℕ} {script : Graph}
    {title : String} (hreset : config.resetOnOption = true)
    (hscript : Retains script s x i) (hscript' : Retains script t y j)
    (hs : (x i).world.session? s = some session) (hs' : (y j).world.session? t = some session')
    (hopen : session.finished = false) (hopen' : session'.finished = false)
    (hdue : Task.due s (x i).agenda = []) (hdue' : Task.due t (y j).agenda = [])
    (hleft : ∀ k < n, Undisturbed s config (x (i + k)) (x (i + k + 1)))
    (hleft' : ∀ k < l, Undisturbed t config (y (j + k)) (y (j + k + 1)))
    (hstart : ∃ moved key index, session.start title = .display moved key index)
    (hfirst : (cues s x i n).head?.map Prod.fst = some (.start title))
    (hcues : cues t y j l = cues s x i n)
    (hlast : (Task.due t (y (j + l)).agenda).length = (Task.due s (x (i + n)).agenda).length) :
    sights t y j l = sights s x i n := by
  have hpoised : Poised s (x i) session [] := ⟨hs, by simp [hdue], by simp [hdue]⟩
  have hpoised' : Poised t (y j) session' [] := ⟨hs', by simp [hdue'], by simp [hdue']⟩
  obtain ⟨hdepth, hstory⟩ := hx.sights_eq_narrative hreset hleft hpoised
  obtain ⟨-, hstory'⟩ := hy.sights_eq_narrative hreset hleft' hpoised'
  have hsame := hx.sameScript_of_retains hy hscript hscript' hs hs'
  rw [hstory, hstory', hcues, hlast]
  obtain ⟨first, hhead, hcue⟩ := Option.map_eq_some_iff.mp hfirst
  obtain ⟨rest, hrest⟩ := List.head?_eq_some_iff.mp hhead
  obtain ⟨cue, depth⟩ := first
  obtain rfl : cue = .start title := hcue
  -- No line is due when the node is started.
  rw [hrest] at hdepth ⊢
  obtain rfl : depth = 0 := Nat.le_zero.mp hdepth
  obtain ⟨moved, key, index, hmove⟩ := hstart
  exact hsame.narrative hopen hopen' hreset hmove rest

/-- Two nodes of two lines each. -/
def tale : Json.Value :=
  .array [.object [("title", .string "A"), ("body", .string "one\ntwo")],
    .object [("title", .string "B"), ("body", .string "three\nfour")]]

/-- A host that starts a node in a new session. -/
def novice : ℕ → Machine :=
  course { world := World.ofHandlers [] }
    [.newDisplay "c" "c" (.recording {} false), .newSession "s" "c" none (.graph (some tale)),
      .session "s" (.start "A"), .session "s" (.follow "go" "B"),
      .session "s" (.follow "stay" "nowhere"), .session "s" .proceed, .session "s" .proceed]

/-- A host that starts the node again after another conversation has come to its end, and then gives
its input on the display. -/
def veteran : ℕ → Machine :=
  course { world := World.ofHandlers [] }
    [.newDisplay "c" "c" (.recording {} false), .newSession "s" "c" none (.records tale (some "B")),
      .session "s" .proceed, .session "s" .proceed,
      .session "s" (.start "A"), .display "c" (.select "go" "B"),
      .display "c" (.select "stay" "nowhere"), .display "c" .proceed, .display "c" .proceed]

theorem start_forgets_past_veteran :
    Execution novice ∧ Execution veteran ∧
      ((novice 6).world.session? ⟨0⟩).map (·.phase) = some .idle ∧
      ((veteran 49).world.session? ⟨0⟩).map (·.phase) = some (.ended "B") ∧
      (cues ⟨0⟩ novice 6 68).length = 5 ∧ cues ⟨0⟩ veteran 49 88 = cues ⟨0⟩ novice 6 68 ∧
      sights ⟨0⟩ veteran 49 88 = sights ⟨0⟩ novice 6 68 := by
  have hx : Execution novice := execution_course (initial_ofHandlers _) _
  have hy : Execution veteran := execution_course (initial_ofHandlers _) _
  have hnovice : ((novice 4).world.session? ⟨0⟩).bind Session.graph =
      (Graph.load true tale).toOption.map Logged.value := by decide +kernel
  have hveteran : ((veteran 5).world.session? ⟨0⟩).bind Session.graph =
      (Graph.load true tale).toOption.map Logged.value := by decide +kernel
  obtain ⟨script, hscript⟩ : ∃ script, (Graph.load true tale).toOption.map Logged.value =
      some script := Option.isSome_iff_exists.mp (by decide +kernel)
  obtain ⟨first, hfirst, hgraph⟩ := Option.bind_eq_some_iff.mp (hnovice.trans hscript)
  obtain ⟨first', hfirst', hgraph'⟩ := Option.bind_eq_some_iff.mp (hveteran.trans hscript)
  have hkept : ∀ k < 6, 4 ≤ k → rewrites ⟨0⟩ (novice k) = false := by decide +kernel
  have hkept' : ∀ k < 49, 5 ≤ k → rewrites ⟨0⟩ (veteran k) = false := by decide +kernel
  have hretains : Retains script ⟨0⟩ novice 6 :=
    ⟨4, by omega, first, script, hfirst, hgraph, .refl script, fun k hk hlt => hkept k hlt hk⟩
  have hretains' : Retains script ⟨0⟩ veteran 49 :=
    ⟨5, by omega, first', script, hfirst', hgraph', .refl script, fun k hk hlt => hkept' k hlt hk⟩
  have hready : ((novice 6).world.session? ⟨0⟩).map (fun session =>
      (session.finished, session.phase, (session.start "A").line?.isSome)) =
        some (false, .idle, true) := by decide +kernel
  have hready' : ((veteran 49).world.session? ⟨0⟩).map (fun session =>
      (session.finished, session.phase)) = some (false, .ended "B") := by decide +kernel
  obtain ⟨session, hs, hvalues⟩ := Option.map_eq_some_iff.mp hready
  obtain ⟨session', hs', hvalues'⟩ := Option.map_eq_some_iff.mp hready'
  obtain ⟨hopen, hidle, hstart⟩ : session.finished = false ∧ session.phase = .idle ∧
      ∃ moved key index, session.start "A" = .display moved key index := by
    obtain ⟨hopen, hvalues⟩ := Prod.mk.inj hvalues
    obtain ⟨hidle, hstart⟩ := Prod.mk.inj hvalues
    refine ⟨hopen, hidle, ?_⟩
    cases hmove : session.start "A" with
    | display moved key index => exact ⟨moved, key, index, rfl⟩
    | _ =>
        rw [hmove] at hstart
        exact absurd hstart (by simp [Session.Move.line?])
  obtain ⟨hopen', hended⟩ := Prod.mk.inj hvalues'
  have hcues : cues ⟨0⟩ veteran 49 88 = cues ⟨0⟩ novice 6 68 := by decide +kernel
  have hlength : (cues ⟨0⟩ novice 6 68).length = 5 := by decide +kernel
  have hleft : ∀ k < 68, Undisturbed ⟨0⟩ {} (novice (6 + k)) (novice (6 + k + 1)) := by
    decide +kernel
  have hleft' : ∀ k < 88, Undisturbed ⟨0⟩ {} (veteran (49 + k)) (veteran (49 + k + 1)) := by
    decide +kernel
  have hsights := start_forgets_past hx hy rfl hretains hretains' hs hs' hopen hopen'
    (by decide +kernel) (by decide +kernel) hleft hleft' hstart (by decide +kernel) hcues
    (by decide +kernel)
  exact ⟨hx, hy, by rw [hs, ← hidle]; rfl, by rw [hs', ← hended]; rfl, hlength, hcues, hsights⟩

end Machine

end Parley
