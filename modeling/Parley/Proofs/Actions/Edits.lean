import Parley.Proofs.Actions.Multicast
import Parley.Proofs.Session.Anew

/-!
# Edits of lines

A host edits the lines of a node by steps of its own, each of one line (`edit?`).  Nothing else
changes a line (`Sound.line_step`).  Adding an action puts it behind the others, so a loop over the
actions of the line comes to it; removing actions cuts those loops off from their line, and
nothing else does (`Sound.frame_step`).
-/

namespace Parley

namespace LineStep

/-- The actions that an edit adds. -/
def adds : LineStep → List Action
  | addAction action => [action]
  | _ => []

/-- Whether an edit removes actions. -/
def removes : LineStep → Bool
  | removeAction _ => true
  | _ => false

theorem adds_of_removes {edit : LineStep} (h : edit.removes = true) : edit.adds = [] := by
  cases edit with
  | addAction action => exact absurd h (by simp [removes])
  | _ => rfl

/-- An edit that removes no actions puts those it adds behind the others. -/
theorem actions_apply {edit : LineStep} (h : edit.removes = false) (line : Line) :
    (edit.apply line).actions = line.actions ++ edit.adds := by
  cases edit with
  | removeAction tag => exact absurd h (by simp [removes])
  | addAction action => rfl
  | _ => exact (List.append_nil _).symm

end LineStep

/-- A line is there. -/
def World.HasLine (w : World) (ref : LineRef) : Prop :=
  ((w.session? ref.session).bind fun session => session.line? ref).isSome = true

instance (w : World) (ref : LineRef) : Decidable (w.HasLine ref) :=
  inferInstanceAs (Decidable (_ = true))

namespace Session

variable {session : Session} {key : String} {node stored : Node} {ref : LineRef}

/-- The node that a host means, with its key: the one of a title, or the current one. -/
def nodeOf? (session : Session) : Option String → Option (String × Node)
  | some title => session.find? title
  | none => session.phase.key?.bind fun key => session.currentNode?.map (key, ·)

theorem stored_of_nodeOf? {title : Option String} (h : session.nodeOf? title = some (key, node)) :
    session.graph.bind (·.nodes.get? key) = some node := by
  cases title with
  | none =>
      obtain ⟨here, hhere, hnode⟩ := Option.bind_eq_some_iff.mp h
      obtain ⟨found, hcurrent, hpair⟩ := Option.map_eq_some_iff.mp hnode
      obtain ⟨rfl, rfl⟩ := Prod.mk.inj hpair
      simpa [currentNode?, hhere] using hcurrent
  | some title =>
      obtain ⟨graph, hgraph, hnode⟩ := Option.bind_eq_some_iff.mp h
      obtain ⟨found, hget, hpair⟩ := Option.map_eq_some_iff.mp hnode
      obtain ⟨rfl, rfl⟩ := Prod.mk.inj hpair
      exact Option.bind_eq_some_iff.mpr ⟨graph, hgraph, hget⟩

/-- A node that is put back changes its own lines only. -/
theorem line?_setNode (hstored : session.graph.bind (·.nodes.get? key) = some stored) :
    (session.setNode key node).line? ref =
      if ref.graph = session.generation ∧ ref.key = key then node.lines[ref.index]?
      else session.line? ref := by
  obtain ⟨graph, hgraph, hget⟩ := Option.bind_eq_some_iff.mp hstored
  rw [line?, graphAt?_setNode, line?]
  by_cases hnow : ref.graph = session.generation
  · rw [if_pos hnow, graph_setNode hgraph, hnow, graphAt?_generation, hgraph]
    by_cases hkey : ref.key = key
    · simp [Graph.modify, Table.get?_modify, hkey, hget]
    · simp [Graph.modify, Table.get?_modify, hkey, Ne.symm hkey]
  · rw [if_neg hnow, if_neg fun h => hnow h.1]

/-- A line that is edited changes, and no other line does. -/
theorem line?_modifyLine (hstored : session.graph.bind (·.nodes.get? key) = some stored) (n : ℕ)
    (f : Line → Line) :
    (session.setNode key (stored.modifyLine n f)).line? ref =
      if ref.graph = session.generation ∧ ref.key = key ∧ ref.index = n then
        (session.line? ref).map f
      else session.line? ref := by
  obtain ⟨s, graph, here, index⟩ := ref
  rw [line?_setNode hstored]
  dsimp only
  by_cases hnode : graph = session.generation ∧ here = key
  · obtain ⟨rfl, rfl⟩ := hnode
    rw [if_pos ⟨rfl, rfl⟩, line?_of_stored hstored, Node.modifyLine, List.getElem?_modify]
    by_cases hindex : index = n
    · simp [hindex]
    · simp [hindex, Ne.symm hindex]
  · rw [if_neg hnode, if_neg fun h => hnode ⟨h.1, h.2.1⟩]

end Session

namespace Machine

variable {m : Machine} {s : SessionId} {session : Session} {line ref : LineRef} {edit : LineStep}
  {task : Task} {nested frame rest : List Task} {n : ℕ}

/-! ## One edit -/

theorem withNode_eq (m : Machine) (session : Session) (title : Option String)
    (f : String → Node → Machine) :
    m.withNode session title f =
      match session.nodeOf? title with
      | some (key, node) => f key node
      | none => m.fail .unknownName := by
  cases title <;> rfl

/-- The line that the host edits with the next step, and how. -/
def edit? (m : Machine) : Option (LineRef × LineStep) :=
  match m.agenda.head? with
  | some (.perform (.session name (.node title (.line index edit)))) => do
    let s ← m.world.sessionNames.get? name
    let session ← m.world.session? s
    let (key, node) ← session.nodeOf? title
    let n ← node.lineNumber? index
    return (⟨s, session.generation, key, n⟩, edit)
  | _ => none

/-- What the next step makes of the loops over lines: a removal cuts those over its line off. -/
def loosening (m : Machine) : Task → Task :=
  match m.edit? with
  | some (ref, edit) => if edit.removes then cutOff ref (m.world.line ref).actions else id
  | none => id

/-- A line after the next step. -/
def edited (m : Machine) (ref : LineRef) (line : Line) : Line :=
  match m.edit? with
  | some (other, edit) => if other = ref then edit.apply line else line
  | none => line

theorem keepsFrames_loosening (m : Machine) : Task.KeepsFrames m.loosening := by
  unfold loosening
  split
  · split
    exacts [Task.keepsFrames_cutOff _ _, Task.keepsFrames_id]
  · exact Task.keepsFrames_id

/-- An edit is carried out, or fails. -/
inductive Edits (m : Machine) (edit : LineStep) (rest : List Task) : Prop
  | refused (hedit : m.edit? = none) (failure : Failure)
      (hstep : m.step = { m with agenda := rest }.fail failure)
  | done {s : SessionId} {session : Session} {key : String} {node : Node} {n : ℕ}
      (hs : m.world.session? s = some session)
      (hstored : session.graph.bind (·.nodes.get? key) = some node) (hsize : n < node.size)
      (hedit : m.edit? = some (⟨s, session.generation, key, n⟩, edit))
      (hagenda : m.step.agenda = rest.map m.loosening)
      (hworld : m.step.world =
        m.world.modifySession s fun _ => session.setNode key (node.modifyLine n edit.apply))

theorem lineNumber?_lt {node : Node} {index : ℤ} (h : node.lineNumber? index = some n) :
    n < node.size := by
  rw [Node.lineNumber?] at h
  generalize (if index < 0 then index + node.size else index) = number at h
  split at h
  · rename_i hline
    obtain rfl := Option.some.inj h
    simp only [Node.hasLine, Bool.and_eq_true, decide_eq_true_eq] at hline
    omega
  · exact absurd h (by simp)

@[simp] theorem logAll_nil (m : Machine) : m.logAll [] = m := by
  rw [logAll, emit, TraceEntry.ofLog, List.map_nil, List.append_nil]

theorem performNodeStep_line_of_none {key : String} {node : Node} {index : ℤ}
    (h : node.lineNumber? index = none) :
    m.performNodeStep s session key node (.line index edit) = m.fail .noSuchLine := by
  have hrun : (NodeStep.line index edit).run node = ⟨.error .noSuchLine, []⟩ := by
    rw [NodeStep.run, h]
    rfl
  rw [performNodeStep, hrun]
  dsimp only
  rw [logAll_nil]

theorem performNodeStep_line_of_some (m : Machine) (s : SessionId) (session : Session)
    (key : String) (edit : LineStep) {node : Node} {index : ℤ}
    (h : node.lineNumber? index = some n) :
    (m.performNodeStep s session key node (.line index edit)).agenda =
        m.agenda.map (if edit.removes then
          cutOff ⟨s, session.generation, key, n⟩ ((node.lines[n]?).elim [] Line.actions)
          else id) ∧
      (m.performNodeStep s session key node (.line index edit)).world =
        m.world.modifySession s fun _ => session.setNode key (node.modifyLine n edit.apply) := by
  have hrun : (NodeStep.line index edit).run node =
      ⟨.ok (node.modifyLine n edit.apply, edit.answer (node.lines.getD n {})), []⟩ := by
    rw [NodeStep.run, h]
    rfl
  rw [performNodeStep, hrun]
  dsimp only
  rw [logAll_nil]
  cases edit with
  | removeAction tag =>
      rw [removesActions?, h]
      exact ⟨rfl, rfl⟩
  | _ => exact ⟨(List.map_id _).symm, rfl⟩

theorem edits_step {name : String} {title : Option String} {index : ℤ}
    (hagenda : m.agenda = .perform (.session name (.node title (.line index edit))) :: rest) :
    Edits m edit rest := by
  have hedit : m.edit? = (do
      let s ← m.world.sessionNames.get? name
      let session ← m.world.session? s
      let (key, node) ← session.nodeOf? title
      let n ← node.lineNumber? index
      return (⟨s, session.generation, key, n⟩, edit)) := by
    rw [edit?, hagenda]
    rfl
  have hstep := step_eq hagenda
  dsimp only [exec, perform, withSession] at hstep
  cases hname : m.world.sessionNames.get? name with
  | none =>
      rw [hname] at hstep hedit
      exact .refused hedit _ hstep
  | some s =>
      rw [hname] at hstep hedit
      cases hs : m.world.session? s with
      | none =>
          simp only [Option.bind_some, hs, Option.map_none] at hstep
          exact .refused (by simp [hedit, hs]) _ hstep
      | some session =>
          simp only [Option.bind_some, hs, Option.map_some, performSession, withNode_eq] at hstep
          cases hnode : session.nodeOf? title with
          | none =>
              rw [hnode] at hstep
              exact .refused (by simp [hedit, hs, hnode]) _ hstep
          | some found =>
              obtain ⟨key, node⟩ := found
              have hstored := Session.stored_of_nodeOf? hnode
              rw [hnode] at hstep
              dsimp only at hstep
              cases hnumber : node.lineNumber? index with
              | none =>
                  rw [performNodeStep_line_of_none hnumber] at hstep
                  exact .refused (by simp [hedit, hs, hnode, hnumber]) _ hstep
              | some n =>
                  have hwhole : m.edit? = some (⟨s, session.generation, key, n⟩, edit) := by
                    simp [hedit, hs, hnode, hnumber]
                  have hline : (m.world.line ⟨s, session.generation, key, n⟩).actions =
                      (node.lines[n]?).elim [] Line.actions := by
                    rw [World.line, hs, Option.bind_some, Session.line?_of_stored hstored]
                    cases node.lines[n]? <;> rfl
                  obtain ⟨hcut, hworld⟩ := performNodeStep_line_of_some { m with agenda := rest } s
                    session key edit hnumber
                  rw [← hstep] at hcut hworld
                  refine .done hs hstored (lineNumber?_lt hnumber) hwhole (hcut.trans ?_) hworld
                  rw [loosening, hwhole, ← hline]

/-- A host edits a line by a step of that kind only. -/
theorem head?_of_edit? (h : m.edit? = some (ref, edit)) : ∃ name title index,
    m.agenda.head? = some (.perform (.session name (.node title (.line index edit)))) := by
  unfold edit? at h
  split at h
  · rename_i name title index found hhead
    obtain ⟨s, -, h⟩ := Option.bind_eq_some_iff.mp h
    obtain ⟨session, -, h⟩ := Option.bind_eq_some_iff.mp h
    obtain ⟨node, -, h⟩ := Option.bind_eq_some_iff.mp h
    obtain ⟨n, -, h⟩ := Option.bind_eq_some_iff.mp h
    obtain ⟨-, rfl⟩ := Prod.mk.inj (Option.some.inj h)
    exact ⟨name, title, index, hhead⟩
  · exact absurd h (by simp)

theorem edited_done (hs : m.world.session? s = some session) {key : String} {node : Node}
    (hstored : session.graph.bind (·.nodes.get? key) = some node)
    (hedit : m.edit? = some (⟨s, session.generation, key, n⟩, edit))
    (hworld : m.step.world =
      m.world.modifySession s fun _ => session.setNode key (node.modifyLine n edit.apply))
    (hline : m.world.HasLine ref) :
    m.step.world.HasLine ref ∧ m.step.world.line ref = m.edited ref (m.world.line ref) := by
  obtain ⟨line, hfound⟩ := Option.isSome_iff_exists.mp hline
  have hlook : m.step.world.session? ref.session =
      if s = ref.session then some (session.setNode key (node.modifyLine n edit.apply))
      else m.world.session? ref.session := by
    rw [hworld, World.session?_modifySession]
    split
    · rename_i hown
      rw [← hown, hs]
      rfl
    · rfl
  rw [World.HasLine, World.line, World.line, edited, hedit]
  dsimp only
  by_cases hown : s = ref.session
  · subst hown
    rw [hs, Option.bind_some] at hfound
    rw [hlook, if_pos rfl, hs, Option.bind_some, Option.bind_some, hfound,
      Session.line?_modifyLine hstored, hfound]
    by_cases href : ref.graph = session.generation ∧ ref.key = key ∧ ref.index = n
    · have hsame : (⟨ref.session, session.generation, key, n⟩ : LineRef) = ref := by
        rw [← href.1, ← href.2.1, ← href.2.2]
      rw [if_pos href, if_pos hsame]
      exact ⟨rfl, rfl⟩
    · have hother : (⟨ref.session, session.generation, key, n⟩ : LineRef) ≠ ref := by
        intro heq
        exact href ⟨(congrArg LineRef.graph heq).symm, (congrArg LineRef.key heq).symm,
          (congrArg LineRef.index heq).symm⟩
      rw [if_neg href, if_neg hother]
      exact ⟨rfl, rfl⟩
  · rw [hlook, if_neg hown, if_neg fun h => hown (congrArg LineRef.session h)]
    exact ⟨hline, rfl⟩

/-- A line that is there stays there, and only an edit of it changes it. -/
theorem Sound.line_step (h : Sound m) (hline : m.world.HasLine ref) :
    m.step.world.HasLine ref ∧ m.step.world.line ref = m.edited ref (m.world.line ref) := by
  by_cases hedit : ∃ name title index edit,
      m.agenda.head? = some (.perform (.session name (.node title (.line index edit))))
  · obtain ⟨name, title, index, edit, hhead⟩ := hedit
    obtain ⟨rest, hagenda⟩ := List.head?_eq_some_iff.mp hhead
    cases edits_step hagenda with
    | refused hedit failure hstep =>
        rw [hstep, world_fail, edited, hedit]
        exact ⟨hline, rfl⟩
    | done hs hstored hsize hedit hbelow hworld =>
        exact edited_done hs hstored hedit hworld hline
  · simp only [not_exists] at hedit
    obtain ⟨found, hfound⟩ := Option.isSome_iff_exists.mp hline
    obtain ⟨session, hs, hfound⟩ := Option.bind_eq_some_iff.mp hfound
    have hnone : m.edit? = none := by
      by_contra hsome
      obtain ⟨⟨other, edit⟩, hother⟩ := Option.ne_none_iff_exists'.mp hsome
      obtain ⟨name, title, index, hhead⟩ := head?_of_edit? hother
      exact hedit name title index edit hhead
    obtain ⟨session', hs', hpassage⟩ := (h.passes ref.session).passage session hs
    have hkept : session'.line? ref = session.line? ref := by
      refine hpassage.line?_of_unedited (fun name title step hhead hname => ?_) (by simp [hfound])
      cases step with
      | line index edit => exact absurd hhead (hedit name title index edit)
      | _ => rfl
    rw [edited, hnone, line_eq hs' rfl, line_eq hs rfl, hkept]
    exact ⟨by simp [World.HasLine, hs', hkept, hfound], rfl⟩

/-- What is below the task of a step is cut off from a line by a removal, and by nothing else. -/
theorem Sound.frame_step (h : Sound m) (hagenda : m.agenda = task :: (nested ++ frame)) :
    (∃ left, m.step.agenda = left ++ frame.map m.loosening) ∨
      ∃ (m' : Machine) (failure : Failure), m'.agenda = frame.map m.loosening ∧
        m.step = m'.fail failure := by
  by_cases hcuts : task.cutsLoops = false
  · have hid : m.loosening = id := by
      unfold loosening
      split
      · rename_i ref edit hedit
        obtain ⟨name, title, index, hhead⟩ := head?_of_edit? hedit
        rw [hagenda, List.head?_cons, Option.some.injEq] at hhead
        cases edit with
        | removeAction tag => exact absurd hcuts (by simp [hhead, Task.cutsLoops])
        | _ => rfl
      · rfl
    obtain ⟨f, -, hf, hstep⟩ := h.nested_step hagenda
    rw [hid]
    exact hf hcuts ▸ hstep
  · rw [Bool.not_eq_false] at hcuts
    unfold Task.cutsLoops at hcuts
    split at hcuts
    · cases edits_step hagenda with
      | refused hedit failure hstep =>
          have hid : m.loosening = id := by rw [loosening, hedit]
          rw [hid, List.map_id, hstep]
          by_cases hcaught : ∃ b, .dispatch b ∈ nested
          · obtain ⟨b, hb⟩ := hcaught
            rw [agenda_fail]
            exact .inl (exists_unwind_append hb _)
          · rw [not_exists] at hcaught
            exact .inr ⟨_, failure, rfl, fail_of_append nested rfl hcaught failure⟩
      | done hs hstored hsize hedit hbelow hworld =>
          exact .inl ⟨nested.map m.loosening, by rw [hbelow, List.map_append]⟩
    · exact absurd hcuts (by simp)

/-! ## What is added -/

/-- The actions that the next step adds to a line. -/
def addsTo (line : LineRef) (m : Machine) : List Action :=
  match m.edit? with
  | some (ref, edit) => if ref = line then edit.adds else []
  | none => []

/-- Whether the next step removes actions from a line. -/
def removesFrom (line : LineRef) (m : Machine) : Bool :=
  match m.edit? with
  | some (ref, edit) => ref = line && edit.removes
  | none => false

/-- The actions that some machines add to a line before any of them removes actions from it. -/
def additions (line : LineRef) (ms : List Machine) : List Action :=
  (ms.takeWhile fun m => !m.removesFrom line).flatMap (addsTo line)

theorem loosening_frozen (m : Machine) (sink : Sink) (left : List Action) :
    m.loosening (.actions sink (.frozen left)) = .actions sink (.frozen left) := by
  rw [loosening]
  cases m.edit? with
  | none => rfl
  | some found =>
      dsimp only
      split <;> rfl

/-- A loop that follows its line goes on doing so, or is cut off with what the line has. -/
theorem loosening_live (m : Machine) (sink : Sink) (line : LineRef) (k : ℕ) :
    m.loosening (.actions sink (.live line k)) = .actions sink
      (if m.removesFrom line then .frozen ((m.world.line line).actions.drop k)
        else .live line k) := by
  rw [loosening, removesFrom]
  cases m.edit? with
  | none => rfl
  | some found =>
      obtain ⟨ref, edit⟩ := found
      dsimp only
      by_cases href : ref = line
      · subst href
        by_cases hremoves : edit.removes = true <;> simp [hremoves, cutOff]
      · by_cases hremoves : edit.removes = true <;> simp [hremoves, cutOff, href, Ne.symm href]

/-- The actions of a line after a step that removes none of them. -/
theorem Sound.actions_step (h : Sound m) (hline : m.world.HasLine line)
    (hkeeps : m.removesFrom line = false) :
    (m.step.world.line line).actions = (m.world.line line).actions ++ m.addsTo line := by
  rw [(h.line_step hline).2, edited, addsTo]
  rw [removesFrom] at hkeeps
  cases hedit : m.edit? with
  | none => simp
  | some found =>
      obtain ⟨ref, edit⟩ := found
      rw [hedit] at hkeeps
      dsimp only at hkeeps ⊢
      split
      · rename_i href
        exact LineStep.actions_apply (by simpa [href] using hkeeps) _
      · exact (List.append_nil _).symm

theorem addsTo_of_removesFrom (h : m.removesFrom line = true) : m.addsTo line = [] := by
  rw [removesFrom] at h
  rw [addsTo]
  split at h
  · simp only [Bool.and_eq_true, decide_eq_true_eq] at h
    simp [LineStep.adds_of_removes h.2]
  · exact absurd h (by simp)

end Machine

end Parley
