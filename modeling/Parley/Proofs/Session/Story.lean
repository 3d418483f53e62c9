import Parley.Proofs.Session.Akin
import Parley.Trace

/-!
# The course of a conversation

What those around a session get to see of it, input by input: the calls of its display, the events
that it publishes, what it logs and answers, and where it is afterwards (`Sight`).  A move and the
line that it leads to are seen apart, since the line is shown only after the display has been told
of the node; while it is on its way it is due, and more input may come (`narrative`).

Akin sessions tell the same story (`Session.Akin.narrative`), and so do any two open sessions over
one script from the moment on at which the same node is started in both (`SameScript.narrative`).
-/

namespace Parley

/-- Input to a session. -/
inductive Cue where
  | start (title : String)
  | proceed
  | follow (key destination : String)
  deriving DecidableEq, Repr

/-- Something that a session does to those around it. -/
inductive Sign where
  /-- It tells its display of a new node. -/
  | node (title : String)
  /-- It gives its display a line to show. -/
  | line (line : Line)
  /-- It tells its display that the conversation is over. -/
  | over
  /-- It publishes an event. -/
  | event (event : Event Line)
  /-- It answers its caller in the end. -/
  | answer (a : Answer)

/-- What is seen of one step of a session. -/
structure Sight where
  signs : List Sign
  log : List TraceEntry
  /-- What the step gives back, or the failure that it ends in. -/
  result : Except Failure Answer
  state : String
  /-- The title of the current node, and its cursor. -/
  current : Option (String × Nat)

namespace Session

variable {session session' moved moved' : Session} {config : Config} {cue : Cue}
  {move move' : Move} {key title : String} {index : Nat}

/-- The title of the current node, and its cursor. -/
def bookmark (session : Session) : Option (String × Nat) :=
  session.currentNode?.map fun node => (node.title, node.cursor)

theorem Akin.bookmark (h : Akin session session') : session'.bookmark = session.bookmark := by
  rw [Session.bookmark, h.current, Session.bookmark]

/-! ## What is seen of a move -/

namespace Move

/-- The line that a move leads to. -/
def line? : Move → Option Line
  | .display moved key index =>
    some (((moved.graph.bind (·.nodes.get? key)).bind (·.lines[index]?)).getD {})
  | _ => none

theorem line?_display (s : SessionId) (moved : Session) (key : String) (index : Nat) :
    (Move.display moved key index).line? =
      some ((moved.line? ⟨s, moved.generation, key, index⟩).getD {}) := by
  have hgraph := moved.graphAt?_generation
  rw [Session.line?, hgraph, line?, Option.bind_assoc]
  rfl

/-- The title of the node that a session is at. -/
def titleOf (session : Session) : String :=
  session.currentNode?.elim "" Node.title

def signs (cue : Cue) : Move → List Sign
  | .display moved .. =>
    match cue with
    | .start _ =>
      [.node (titleOf moved),
        .event { type := .dialogue .nodeEntered, data := [("node", .node (titleOf moved))] },
        .answer (.flag true)]
    | _ => []
  | .ended _ => [.over, .event { type := .dialogue .dialogueOver }]
  | _ => []

def log (cue : Cue) : Move → List TraceEntry
  | .refuse entry => TraceEntry.ofLog [entry]
  | .display moved .. =>
    match cue with
    | .start _ =>
      TraceEntry.ofLog [⟨.info, "Starting conversation node '" ++ titleOf moved ++ "'"⟩]
    | _ => []
  | .ended _ => TraceEntry.ofLog [⟨.info, "Conversation over"⟩]
  | _ => []

def result (cue : Cue) : Move → Except Failure Answer
  | .refuse _ =>
    match cue with
    | .start _ => .ok (.flag false)
    | _ => .ok .nothing
  | .fail _ failure => .error failure
  | _ => .ok .nothing

theorem Akin.line? (h : Move.Akin move move') : move'.line? = move.line? := by
  cases h with
  | display h key index =>
      have hline : ∀ session : Session,
          ((session.graph.bind (·.nodes.get? key)).bind (·.lines[index]?)) =
            ((session.graph.bind (·.nodes.get? key)).map Node.lines).bind (·[index]?) := by
        intro session
        rw [Option.bind_map]
        rfl
      rw [Move.line?, Move.line?, hline, hline, h.script.lines key]
  | _ => rfl

theorem Akin.signs (h : Move.Akin move move') (cue : Cue) :
    move'.signs cue = move.signs cue := by
  cases h with
  | display h key index => cases cue <;> simp [Move.signs, titleOf, h.current]
  | _ => rfl

theorem Akin.log (h : Move.Akin move move') (cue : Cue) : move'.log cue = move.log cue := by
  cases h with
  | display h key index => cases cue <;> simp [Move.log, titleOf, h.current]
  | _ => rfl

theorem Akin.result (h : Move.Akin move move') (cue : Cue) :
    move'.result cue = move.result cue := by
  cases h <;> rfl

end Move

end Session

/-! ## Input by input -/

namespace Cue

/-- The move that a session makes on some input. -/
def move (config : Config) (session : Session) : Cue → Session.Move
  | start title => session.start title
  | proceed => session.proceed
  | follow key destination => session.follow config key destination

/-- What is seen of a session on some input. -/
def sight (config : Config) (session : Session) (cue : Cue) : Sight where
  signs := (cue.move config session).signs cue
  log := (cue.move config session).log cue
  result := (cue.move config session).result cue
  state := ((cue.move config session).outcome session).phase.name
  current := ((cue.move config session).outcome session).bookmark

end Cue

/-- What is seen of a session that shows a line. -/
def Session.showing (session : Session) (line : Line) : Sight where
  signs := [.line line, .event { type := .dialogue .lineDisplayed, data := [("line", .line line)] }]
  log := []
  result := .ok .nothing
  state := session.phase.name
  current := session.bookmark

/-- What is seen of a session that gets some input.  The lines that are due at first are given with
the next one in front, and each input comes with the number of lines that are due when it comes;
`left` of them are still due in the end. -/
def narrative (config : Config) (left : Nat) : Session → List Line → List (Cue × Nat) → List Sight
  | session, due, [] => (due.take (due.length - left)).map session.showing
  | session, due, (cue, depth) :: cues =>
    (due.take (due.length - depth)).map session.showing ++ cue.sight config session ::
      narrative config left ((cue.move config session).outcome session)
        ((cue.move config session).line?.toList ++ due.drop (due.length - depth)) cues

/-- The number of lines that are due when the next input comes, or in the end. -/
def depthOf (left : Nat) (cues : List (Cue × Nat)) : Nat :=
  cues.head?.elim left Prod.snd

/-- If lines are to be shown before the next input, the first of them is shown first. -/
theorem narrative_cons {config : Config} {left : Nat} {session : Session} {line : Line}
    {due : List Line} {cues : List (Cue × Nat)} (h : depthOf left cues ≤ due.length) :
    narrative config left session (line :: due) cues =
      session.showing line :: narrative config left session due cues := by
  have hone : (line :: due).length - depthOf left cues = due.length - depthOf left cues + 1 := by
    rw [List.length_cons]
    omega
  cases cues with
  | nil =>
      change (line :: due).length - left = due.length - left + 1 at hone
      rw [narrative, hone, List.take_succ_cons, List.map_cons, narrative]
  | cons next cues =>
      obtain ⟨cue, depth⟩ := next
      change (line :: due).length - depth = due.length - depth + 1 at hone
      rw [narrative, hone, List.take_succ_cons, List.map_cons, List.drop_succ_cons,
        List.cons_append, narrative]

namespace Session

variable {session session' moved : Session} {config : Config} {cue : Cue} {left : Nat}

theorem Akin.move (h : Akin session session') (hreset : config.resetOnOption = true) (cue : Cue) :
    Move.Akin (cue.move config session) (cue.move config session') := by
  cases cue with
  | start title => exact h.start title
  | proceed => exact h.proceed
  | follow key destination => exact h.follow hreset key destination

theorem Move.Akin.sight (hmove : Move.Akin (cue.move config session) (cue.move config session'))
    (h : ((cue.move config session).outcome session).Akin
      ((cue.move config session').outcome session')) :
    cue.sight config session' = cue.sight config session := by
  rw [Cue.sight, hmove.signs, hmove.log, hmove.result, h.phase, h.bookmark, Cue.sight]

theorem Akin.showing (h : Akin session session') : session'.showing = session.showing := by
  funext line
  rw [Session.showing, h.phase, h.bookmark, Session.showing]

/-- Akin sessions tell the same story. -/
theorem Akin.narrative (h : Akin session session') (hreset : config.resetOnOption = true)
    (due : List Line) (cues : List (Cue × Nat)) :
    Parley.narrative config left session' due cues =
      Parley.narrative config left session due cues := by
  induction cues generalizing session session' due with
  | nil => rw [Parley.narrative, h.showing, Parley.narrative]
  | cons next cues ih =>
      obtain ⟨cue, depth⟩ := next
      have hmove := h.move hreset cue
      have houtcome := hmove.outcome h
      rw [Parley.narrative, h.showing, hmove.sight houtcome, hmove.line?, ih houtcome,
        Parley.narrative]

/-- Once the same node is started in them, two open sessions over one script tell the same story,
wherever they were before. -/
theorem SameScript.narrative (h : SameScript session session') (hopen : session.finished = false)
    (hopen' : session'.finished = false) (hreset : config.resetOnOption = true) {title key : String}
    {index : Nat} (hstart : session.start title = .display moved key index)
    (cues : List (Cue × Nat)) :
    Parley.narrative config left session' [] ((.start title, 0) :: cues) =
      Parley.narrative config left session [] ((.start title, 0) :: cues) := by
  have hmove : Move.Akin ((Cue.start title).move config session)
      ((Cue.start title).move config session') := h.start hopen hopen' hstart
  have houtcome : (((Cue.start title).move config session).outcome session).Akin
      (((Cue.start title).move config session').outcome session') := by
    generalize (Cue.start title).move config session' = move' at hmove ⊢
    rw [show (Cue.start title).move config session = _ from hstart] at hmove ⊢
    cases hmove with
    | display h key index => exact h
  rw [Parley.narrative, hmove.sight houtcome, hmove.line?, houtcome.narrative hreset,
    Parley.narrative]
  rfl

end Session

end Parley
