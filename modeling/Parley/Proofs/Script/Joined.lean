import Parley.Proofs.Script.BodyRoundTrip
import Parley.Proofs.Script.Reported

/-!
# Bodies put one after the other

A body may be cut at any line break and read in two parts (`value_parseBody_append`).  The
parts depend on each other in one place only: the blocks with which the second part begins
belong to the last line of the first part.  Read alone, the second part reports them as
orphans.  Rows of white space count nowhere.

## Strategy

`assemble` carries the line that was opened last.  Everything else it returns does not depend
on that line: `value_assemble_some` takes it out of the recursion, together with the blocks
that it still receives, which are those in front of the first spoken row.  The rest is an
induction on the rows of the first part (`value_assemble_append`).
-/

namespace Parley.Script

open Parley.Text

/-! ## Rows that are added to a line -/

/-- The options that a row adds to the line before it. -/
def Row.addedOptions : Row → List Choice
  | .options items => items.filterMap parseOption
  | _ => []

/-- The actions that a row adds to the line before it. -/
def Row.addedActions : Row → List Action
  | .actions items => items.filterMap parseAction
  | _ => []

/-- A line with the options and actions of further rows after its own. -/
def attach (line : Line) (rows : List Row) : Line :=
  (line.addOptions (rows.flatMap Row.addedOptions)).addActions (rows.flatMap Row.addedActions)

/-- Two lists of lines, one after the other, with the options and actions of `loose` rows
between them at the last line of the first list. -/
def continued (first : List Line) (loose : List Row) (second : List Line) : List Line :=
  match first.getLast? with
  | none => second
  | some last => first.dropLast ++ attach last loose :: second

@[simp] theorem attach_nil (line : Line) : attach line [] = line := by
  simp [attach]

theorem attach_cons (line : Line) (row : Row) (rows : List Row) :
    attach line (row :: rows) = attach (attach line [row]) rows := by
  simp [attach, Line.addOptions, Line.addActions]

@[simp] theorem attach_options (line : Line) (items : List (List Char)) :
    attach line [.options items] = line.addOptions (items.filterMap parseOption) := by
  simp [attach, Row.addedOptions, Row.addedActions]

@[simp] theorem attach_actions (line : Line) (items : List (List Char)) :
    attach line [.actions items] = line.addActions (items.filterMap parseAction) := by
  simp [attach, Row.addedOptions, Row.addedActions]

@[simp] theorem attach_blank (line : Line) : attach line [.blank] = line := by
  simp [attach, Row.addedOptions, Row.addedActions]

/-- Lines in front of the last one stay as they are. -/
theorem continued_append {first : List Line} (hne : first ≠ []) (before : List Line)
    (loose : List Row) (second : List Line) :
    continued (before ++ first) loose second = before ++ continued first loose second := by
  have hlast : first.getLast? = some (first.getLast hne) := List.getLast?_eq_some_getLast hne
  simp [continued, List.getLast?_append, hlast, List.dropLast_append_of_ne_nil hne]

/-! ## Assembling two parts -/

/-- The numbers of the rows show in reports only. -/
theorem value_assemble_number (title : String) (number other : Nat) (current : Option Line)
    (rows : List Row) :
    (assemble title number current rows).value = (assemble title other current rows).value := by
  induction rows generalizing number other current with
  | nil => rfl
  | cons row rows ih =>
      cases row <;> cases current <;>
        simp only [assemble, Logged.value_bind, Logged.value_pure] <;>
        rw [ih (number + 1) (other + 1)]

/-- The open line receives the blocks up to the next spoken row; the lines after it are those
that are read without it. -/
theorem value_assemble_some (title : String) (number : Nat) (line : Line) (rows : List Row) :
    (assemble title number (some line) rows).value =
      attach line (leading rows) :: (assemble title number none rows).value := by
  induction rows generalizing number line with
  | nil => simp [assemble, leading]
  | cons row rows ih =>
      cases row with
      | options items =>
          calc (assemble title number (some line) (.options items :: rows)).value
              = (assemble title (number + 1)
                  (some (line.addOptions (items.filterMap parseOption))) rows).value := rfl
            _ = attach (line.addOptions (items.filterMap parseOption)) (leading rows) ::
                  (assemble title (number + 1) none rows).value := ih ..
            _ = attach line (.options items :: leading rows) ::
                  (assemble title number none (.options items :: rows)).value := by
                rw [attach_cons, attach_options]; rfl
      | actions items =>
          calc (assemble title number (some line) (.actions items :: rows)).value
              = (assemble title (number + 1)
                  (some (line.addActions (items.filterMap parseAction))) rows).value := rfl
            _ = attach (line.addActions (items.filterMap parseAction)) (leading rows) ::
                  (assemble title (number + 1) none rows).value := ih ..
            _ = attach line (.actions items :: leading rows) ::
                  (assemble title number none (.actions items :: rows)).value := by
                rw [attach_cons, attach_actions]; rfl
      | blank =>
          calc (assemble title number (some line) (.blank :: rows)).value
              = (assemble title (number + 1) (some line) rows).value := rfl
            _ = attach line (leading rows) ::
                  (assemble title (number + 1) none rows).value := ih ..
            _ = attach line (.blank :: leading rows) ::
                  (assemble title number none (.blank :: rows)).value := by
                rw [attach_cons, attach_blank]; rfl
      | spoken text =>
          show line :: (assemble title (number + 1) _ rows).value =
            attach line [] :: (assemble title (number + 1) _ rows).value
          rw [attach_nil]

/-- Rows are read in two parts like bodies. -/
theorem value_assemble_append (title : String) (number other : Nat) (current : Option Line)
    (rows more : List Row) :
    (assemble title number current (rows ++ more)).value =
      continued (assemble title number current rows).value (leading more)
        (assemble title other none more).value := by
  induction rows generalizing number current with
  | nil =>
      rw [List.nil_append, value_assemble_number title number other]
      cases current with
      | none => rfl
      | some line => exact value_assemble_some ..
  | cons row rows ih =>
      cases row with
      | options items => cases current <;> exact ih ..
      | actions items => cases current <;> exact ih ..
      | blank => cases current <;> exact ih ..
      | spoken text =>
          -- The line of this row is the last one, or there is a later one: either way the
          -- loose blocks do not reach the line that was open before.
          have hne : (assemble title (number + 1) (some (parseLine text title).value)
              rows).value ≠ [] := by
            rw [value_assemble_some]
            simp
          calc (assemble title number current (.spoken text :: rows ++ more)).value
              = current.toList ++ (assemble title (number + 1)
                  (some (parseLine text title).value) (rows ++ more)).value := by
                cases current <;> rfl
            _ = current.toList ++ continued (assemble title (number + 1)
                  (some (parseLine text title).value) rows).value (leading more)
                  (assemble title other none more).value := by rw [ih]
            _ = continued (assemble title number current (.spoken text :: rows)).value
                  (leading more) (assemble title other none more).value := by
                rw [← continued_append hne]
                cases current <;> rfl

/-! ## Rows of white space -/

/-- The rows of a body that hold more than white space. -/
def inked (body : List Char) : List (List Char) :=
  (pieces '\n' body).filter fun row => !row.all isBlank

theorem classify_trim_of_blank {row : List Char} (h : row.all isBlank = true) :
    Row.classify (trim row) = .blank := by
  rw [trim_eq_nil_iff.mpr h]
  rfl

theorem value_assemble_filter (title : String) (number : Nat) (current : Option Line)
    (rows : List (List Char)) :
    (assemble title number current (classified (rows.filter fun row => !row.all isBlank))).value =
      (assemble title number current (classified rows)).value := by
  induction rows generalizing number current with
  | nil => rfl
  | cons row rows ih =>
      rw [classified_cons]
      by_cases hrow : row.all isBlank = true
      · rw [List.filter_cons_of_neg (by simp [hrow]), classify_trim_of_blank hrow, ih,
          value_assemble_number title number (number + 1)]
        cases current <;> rfl
      · rw [List.filter_cons_of_pos (by simp [hrow]), classified_cons]
        cases Row.classify (trim row) <;> cases current <;>
          simp only [assemble, Logged.value_bind, Logged.value_pure, ih]

/-! ## Bodies -/

theorem rows_append (first second : List Char) :
    rows (first ++ '\n' :: second) = rows first ++ rows second := by
  rw [rows, pieces_append_separator, List.map_append, ← rows, ← rows]

theorem value_parseBody_eq_of_inked {body other : List Char} (h : inked body = inked other)
    (title : String) : (parseBody body title).value = (parseBody other title).value := by
  calc (parseBody body title).value
      = (assemble title 1 none (classified (inked body))).value := by
        rw [value_parseBody_eq, inked, value_assemble_filter]
    _ = (assemble title 1 none (classified (inked other))).value := by rw [h]
    _ = (parseBody other title).value := by
        rw [value_parseBody_eq, inked, value_assemble_filter]

theorem errors_parseBody (body : List Char) (title : String) :
    entriesAt .error (parseBody body title).log =
      reports (Row.orphaned? title) 1 (leading (rows body)) := by
  cases body with
  | nil => rfl
  | cons c cs => exact entriesAt_assemble ..

/-- A body cut at a line break is read in two parts.  The second part follows the first, and
the blocks with which it begins, whose orphans are all the errors reported of it alone, belong
to the last line of the first part, if there is one.  Bodies that differ in rows of white space
are read alike. -/
theorem value_parseBody_append (first second : List Char) (title : String) :
    (parseBody (first ++ '\n' :: second) title).value =
        continued (parseBody first title).value (leading (rows second))
          (parseBody second title).value ∧
      entriesAt .error (parseBody second title).log =
        reports (Row.orphaned? title) 1 (leading (rows second)) ∧
      ∀ body other, inked body = inked other →
        (parseBody body title).value = (parseBody other title).value := by
  refine ⟨?_, errors_parseBody second title, fun body other h =>
    value_parseBody_eq_of_inked h title⟩
  calc (parseBody (first ++ '\n' :: second) title).value
      = (assemble title 1 none (rows first ++ rows second)).value := by
        rw [value_parseBody_eq, ← rows_append]
        rfl
    _ = continued (assemble title 1 none (rows first)).value (leading (rows second))
          (assemble title 1 none (rows second)).value := value_assemble_append ..
    _ = continued (parseBody first title).value (leading (rows second))
          (parseBody second title).value := by
        rw [value_parseBody_eq first, value_parseBody_eq second]
        rfl

/-- A body cut between a line and its blocks, one of which holds an item that cannot be read;
and the second part with a row of white space put in. -/
theorem value_parseBody_append_gate :
    (parseBody ("Guard: Halt! | options([[A friend|gate]])".toList ++ '\n' ::
        "[[A foe|end]], [[nobody]]\n \r\n[draw|1]\nSilence.".toList) "yard").value =
      [⟨"Guard", "Halt!", [⟨"A friend", "gate"⟩, ⟨"A foe", "end"⟩], [⟨"draw", "1"⟩]⟩,
        ⟨"", "Silence.", [], []⟩] ∧
    entriesAt .error
        (parseBody "[[A foe|end]], [[nobody]]\n \r\n[draw|1]\nSilence.".toList "yard").log =
      [⟨.error, "Cannot have options without a preceding line of dialogue (line 1 of 'yard')."⟩,
        ⟨.error, "Cannot have actions without a preceding line of dialogue (line 3 of 'yard')."⟩] ∧
    (parseBody "[draw|1]\nSilence.\n[wait]".toList "yard").value =
      (parseBody "[draw|1]\nSilence.\n\t\r\n[wait]\n".toList "yard").value := by
  obtain ⟨happend, herrors, hblank⟩ := value_parseBody_append
    "Guard: Halt! | options([[A friend|gate]])".toList
    "[[A foe|end]], [[nobody]]\n \r\n[draw|1]\nSilence.".toList "yard"
  refine ⟨happend.trans ?_, herrors.trans ?_, hblank _ _ ?_⟩
  · decide +kernel
  · decide +kernel
  · decide +kernel

end Parley.Script
