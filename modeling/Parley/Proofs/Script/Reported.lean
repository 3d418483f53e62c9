import Mathlib.Data.Nat.Notation
import Parley.Proofs.Script.Layout

/-!
# The reports of a body

Which reports reading a body makes is told level by level (`entriesAt_assemble`): an error for
each block in front of the first paragraph, a debug entry for every row of white space, a warning
for each item of a paragraph that cannot be read, and nothing else.  The reports of the rows that
are left are due on top of those that the first row makes (`due_cons`), whatever the level; the
induction on the rows is the same for all levels.
-/

namespace Parley.Script

open Parley.Text

/-! ## The reports that are due -/

/-- The report of each item that cannot be read. -/
def rejected {α : Type} (read : List Char → Option α) (noun title : String)
    (items : List (List Char)) : List LogEntry :=
  (items.filter fun item => (read item).isNone).map (malformed noun title)

def Row.rejected (title : String) (row : Row) : List LogEntry :=
  Script.rejected parseOption "option" title row.optionItems ++
    Script.rejected parseAction "action" title row.actionItems

@[simp] theorem Row.rejected_blank (title : String) : Row.blank.rejected title = [] := rfl

/-- The reports of the items of a paragraph; the actions of the spoken row come before its
options. -/
def Paragraph.rejected (title : String) (paragraph : Paragraph) : List LogEntry :=
  Script.rejected parseAction "action" title paragraph.inlineActions ++
    Script.rejected parseOption "option" title paragraph.inlineOptions ++
    paragraph.trailing.flatMap (Row.rejected title)

/-- The report of a block in front of the first spoken row. -/
def Row.orphaned? (title : String) (number : ℕ) : Row → Option LogEntry
  | .options _ => (orphan "options" title number).log.head?
  | .actions _ => (orphan "actions" title number).log.head?
  | _ => none

/-- The report of a row of white space. -/
def Row.skipped? (title : String) (number : ℕ) : Row → Option LogEntry
  | .blank => some ⟨.debug,
      "Empty line on line " ++ toString number ++ " of '" ++ title ++ "'; skipping."⟩
  | _ => none

/-- The reports of some rows, the first of which has the given number. -/
def reports (report? : ℕ → Row → Option LogEntry) (number : ℕ) (rows : List Row) :
    List LogEntry :=
  (rows.zipIdx number).filterMap fun (row, n) => report? n row

/-- The entries of one level. -/
def entriesAt (level : Level) (log : List LogEntry) : List LogEntry :=
  log.filter fun entry => entry.level = level

variable {level : Level}

@[simp] theorem entriesAt_nil (level : Level) : entriesAt level [] = [] := rfl

@[simp] theorem entriesAt_append (level : Level) (log more : List LogEntry) :
    entriesAt level (log ++ more) = entriesAt level log ++ entriesAt level more :=
  List.filter_append ..

theorem entriesAt_cons (level : Level) (entry : LogEntry) (log : List LogEntry) :
    entriesAt level (entry :: log) =
      if entry.level = level then entry :: entriesAt level log else entriesAt level log := by
  simp [entriesAt, List.filter_cons]

theorem entriesAt_eq_self {log : List LogEntry} (h : ∀ entry ∈ log, entry.level = level) :
    entriesAt level log = log :=
  List.filter_eq_self.mpr fun entry hentry => by simp [h entry hentry]

theorem entriesAt_eq_nil {log : List LogEntry} (h : ∀ entry ∈ log, entry.level ≠ level) :
    entriesAt level log = [] :=
  List.filter_eq_nil_iff.mpr fun entry hentry => by simp [h entry hentry]

@[simp] theorem reports_nil (report? : ℕ → Row → Option LogEntry) (number : ℕ) :
    reports report? number [] = [] := rfl

theorem reports_cons (report? : ℕ → Row → Option LogEntry) (number : ℕ) (row : Row)
    (rows : List Row) : reports report? number (row :: rows) =
      (report? number row).toList ++ reports report? (number + 1) rows := by
  simp only [reports, List.zipIdx_cons, List.filterMap_cons]
  cases report? number row <;> rfl

/-- If the rows of a kind are reported, there are as many reports as rows of that kind. -/
theorem length_reports {report? : ℕ → Row → Option LogEntry} {kind : Row → Bool}
    (h : ∀ n row, (report? n row).isSome = kind row) (number : ℕ) (rows : List Row) :
    (reports report? number rows).length = rows.countP kind := by
  induction rows generalizing number with
  | nil => rfl
  | cons row rows ih =>
      rw [reports_cons, List.length_append, ih, List.countP_cons, ← h number row, Nat.add_comm]
      cases report? number row <;> rfl

theorem isSome_orphaned? (title : String) (number : ℕ) (row : Row) :
    (row.orphaned? title number).isSome = row.isBlock := by
  cases row <;> rfl

theorem isSome_skipped? (title : String) (number : ℕ) (row : Row) :
    (row.skipped? title number).isSome = row.isBlank := by
  cases row <;> rfl

/-! ## What is read and reported of a spoken row -/

theorem level_of_mem_rejected {α : Type} {read : List Char → Option α} {noun title : String}
    {items : List (List Char)} {entry : LogEntry}
    (h : entry ∈ rejected read noun title items) : entry.level = .warning := by
  obtain ⟨item, -, rfl⟩ := List.mem_map.mp h
  rfl

theorem entriesAt_rejected {α : Type} (read : List Char → Option α) (noun title : String)
    (items : List (List Char)) : entriesAt level (rejected read noun title items) =
      if level = .warning then rejected read noun title items else [] := by
  split
  · rename_i hlevel
    exact entriesAt_eq_self fun entry hentry => (level_of_mem_rejected hentry).trans hlevel.symm
  · rename_i hlevel
    exact entriesAt_eq_nil fun entry hentry heq =>
      hlevel (heq.symm.trans (level_of_mem_rejected hentry))

/-- The options of a spoken row are those of its group that can be read, and so are the actions;
the others are reported. -/
theorem parseLine_spec (text : List Char) (rows : List Row) (title : String) :
    (parseLine text title).value.options =
        (Paragraph.inlineOptions ⟨text, rows⟩).filterMap parseOption ∧
      (parseLine text title).value.actions =
        (Paragraph.inlineActions ⟨text, rows⟩).filterMap parseAction ∧
      (parseLine text title).log =
        rejected parseAction "action" title (Paragraph.inlineActions ⟨text, rows⟩) ++
          rejected parseOption "option" title (Paragraph.inlineOptions ⟨text, rows⟩) := by
  simp only [parseLine, Paragraph.inlineOptions, Paragraph.inlineActions, Paragraph.captured?,
    Paragraph.metadata?]
  cases hbar : cutFirst '|' (cutSpeaker text).2 with
  | none => exact ⟨rfl, rfl, rfl⟩
  | some parts =>
      obtain ⟨words, metadata⟩ := parts
      cases hactions : group? "actions" metadata <;> cases hoptions : group? "options" metadata <;>
        simp [parseMetadata, hactions, hoptions, gatherActions, gatherOptions, gather, rejected]

/-! ## The reports of a row -/

/-- What a row adds to the log; blocks are read only while a line is open. -/
def Row.noted (title : String) (number : ℕ) (opened : Bool) : Row → List LogEntry
  | .spoken text => (parseLine text title).log
  | .blank => (Row.blank.skipped? title number).toList
  | block => if opened then block.rejected title else (block.orphaned? title number).toList

/-- Each row makes its reports, and a spoken one opens a line. -/
theorem log_assemble_cons (title : String) (number : ℕ) (current : Option Line) (row : Row)
    (rows : List Row) : ∃ next, next.isSome = (current.isSome || row.isSpoken) ∧
      (assemble title number current (row :: rows)).log =
        row.noted title number current.isSome ++ (assemble title (number + 1) next rows).log := by
  cases row with
  | options items =>
      cases current with
      | none => exact ⟨none, rfl, rfl⟩
      | some line =>
          exact ⟨_, rfl, by simp [assemble, Row.noted, Row.rejected, Row.optionItems,
            Row.actionItems, gatherOptions, gather, rejected]; rfl⟩
  | actions items =>
      cases current with
      | none => exact ⟨none, rfl, rfl⟩
      | some line =>
          exact ⟨_, rfl, by simp [assemble, Row.noted, Row.rejected, Row.optionItems,
            Row.actionItems, gatherActions, gather, rejected]; rfl⟩
  | blank => exact ⟨current, by cases current <;> rfl, by cases current <;> rfl⟩
  | spoken text =>
      refine ⟨some (parseLine text title).value, by cases current <;> rfl, ?_⟩
      cases current <;> simp [assemble, Row.noted]

theorem entriesAt_parseLine (text : List Char) (title : String) :
    entriesAt level (parseLine text title).log =
      if level = .warning then (parseLine text title).log else [] := by
  obtain ⟨-, -, hlog⟩ := parseLine_spec text [] title
  rw [hlog, entriesAt_append, entriesAt_rejected, entriesAt_rejected]
  split <;> rfl

theorem entriesAt_row_rejected (row : Row) (title : String) :
    entriesAt level (row.rejected title) = if level = .warning then row.rejected title else [] := by
  rw [Row.rejected, entriesAt_append, entriesAt_rejected, entriesAt_rejected]
  split <;> rfl

/-! ## The reports of all rows -/

/-- The reports of a level that are due for some rows, the first of which has the given number, if
a line is open or not.  Blocks in front of the first spoken row are orphans as long as no line is
open, and belong to the open line otherwise. -/
def due (title : String) (number : ℕ) (opened : Bool) (rows : List Row) : Level → List LogEntry
  | .error => if opened then [] else reports (Row.orphaned? title) number (leading rows)
  | .warning => (if opened then (leading rows).flatMap (Row.rejected title) else []) ++
      (paragraphs rows).flatMap (Paragraph.rejected title)
  | .debug => reports (Row.skipped? title) number rows
  | .info => []

@[simp] theorem due_nil (title : String) (number : ℕ) (opened : Bool) (level : Level) :
    due title number opened [] level = [] := by
  cases level <;> cases opened <;> rfl

/-- A spoken row makes the reports of its own items; those of the blocks after it are due once it
has opened its line. -/
theorem rejected_paragraph (text : List Char) (rows : List Row) (title : String) :
    Paragraph.rejected title ⟨text, rows⟩ =
      (parseLine text title).log ++ rows.flatMap (Row.rejected title) := by
  obtain ⟨-, -, hlog⟩ := parseLine_spec text rows title
  rw [hlog]
  rfl

theorem due_cons (title : String) (number : ℕ) (opened : Bool) (row : Row) (rows : List Row)
    (level : Level) : due title number opened (row :: rows) level =
      entriesAt level (row.noted title number opened) ++
        due title (number + 1) (opened || row.isSpoken) rows level := by
  cases row with
  | spoken text =>
      cases level <;> cases opened <;>
        simp [due, Row.noted, Row.isSpoken, leading, paragraphs, reports_cons, entriesAt_parseLine,
          rejected_paragraph, Row.skipped?]
  | _ =>
      cases level <;> cases opened <;>
        simp [due, Row.noted, Row.isSpoken, leading, paragraphs, reports_cons, entriesAt_cons,
          entriesAt_row_rejected, Row.orphaned?, Row.skipped?, orphan]

theorem entriesAt_assemble (title : String) (number : ℕ) (current : Option Line)
    (rows : List Row) (level : Level) :
    entriesAt level (assemble title number current rows).log =
      due title number current.isSome rows level := by
  induction rows generalizing number current with
  | nil => cases current <;> simp [assemble]
  | cons row rows ih =>
      obtain ⟨next, hnext, hlog⟩ := log_assemble_cons title number current row rows
      rw [hlog, entriesAt_append, ih, hnext, due_cons]

end Parley.Script
