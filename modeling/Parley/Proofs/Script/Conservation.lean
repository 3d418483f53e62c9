import Parley.Proofs.Script.Joined

/-!
# What becomes of the rows and items of a body

Reading a body drops nothing in silence (`parseBody_conserves`).  Each row opens a line, adds to
the line before it, or is reported; each item of a row or group that belongs to a line is read
into that line, in the order in which it is written, or is reported.

## Strategy

A body is laid out in paragraphs, each a spoken row with the rows up to the next one.  Each
paragraph becomes one line (`value_assemble_paragraphs`), which has the options and actions of the
paragraph that can be read (`options_actions_attach`).  The reports are those that are due level by
level (`entriesAt_assemble`), so what is left is to count rows.
-/

namespace Parley.Script

open Parley.Text

/-! ## Lines -/

/-- Each paragraph becomes one line. -/
theorem value_assemble_paragraphs (title : String) (number : ℕ) (rows : List Row) :
    (assemble title number none rows).value = (paragraphs rows).map fun paragraph =>
      attach (parseLine paragraph.spoken title).value paragraph.trailing := by
  induction rows generalizing number with
  | nil => rfl
  | cons row rows ih =>
      cases row with
      | spoken text =>
          calc (assemble title number none (.spoken text :: rows)).value
              = (assemble title (number + 1)
                  (some (parseLine text title).value) rows).value := by
                simp [assemble]
            _ = attach (parseLine text title).value (leading rows) ::
                  (assemble title (number + 1) none rows).value := value_assemble_some ..
            _ = _ := by rw [ih, paragraphs, List.map_cons]
      | options items => exact ih (number + 1)
      | actions items => exact ih (number + 1)
      | blank => exact ih (number + 1)

theorem addedOptions_eq (row : Row) :
    row.addedOptions = row.optionItems.filterMap parseOption := by
  cases row <;> rfl

theorem addedActions_eq (row : Row) :
    row.addedActions = row.actionItems.filterMap parseAction := by
  cases row <;> rfl

/-- The line of a paragraph has the options and actions of the paragraph that can be read. -/
theorem options_actions_attach (paragraph : Paragraph) (title : String) :
    (attach (parseLine paragraph.spoken title).value paragraph.trailing).options =
        paragraph.optionItems.filterMap parseOption ∧
      (attach (parseLine paragraph.spoken title).value paragraph.trailing).actions =
        paragraph.actionItems.filterMap parseAction := by
  obtain ⟨hoptions, hactions, -⟩ := parseLine_spec paragraph.spoken paragraph.trailing title
  constructor
  · rw [Paragraph.optionItems, List.filterMap_append, List.filterMap_flatMap,
      ← funext addedOptions_eq, ← hoptions]
    rfl
  · rw [Paragraph.actionItems, List.filterMap_append, List.filterMap_flatMap,
      ← funext addedActions_eq, ← hactions]
    rfl

/-! ## The whole body -/

/-- Every row of a body opens a line, is a block that belongs to the line before it, or is
reported: a block without a line before it by an error, a row of white space by a debug entry.
The options and actions of each line are the items of its paragraph that can be read, in the order
in which they are written; each of the others is reported by one warning, and nothing else is. -/
theorem parseBody_conserves {body : List Char} (h : body ≠ []) (title : String) :
    body.count '\n' + 1 = (parseBody body title).value.length +
        (following (rows body)).countP Row.isBlock +
        (entriesAt .error (parseBody body title).log).length +
        (entriesAt .debug (parseBody body title).log).length ∧
      entriesAt .error (parseBody body title).log =
        reports (Row.orphaned? title) 1 (leading (rows body)) ∧
      entriesAt .debug (parseBody body title).log = reports (Row.skipped? title) 1 (rows body) ∧
      (parseBody body title).value.map Line.options =
        (paragraphs (rows body)).map (fun paragraph =>
          paragraph.optionItems.filterMap parseOption) ∧
      (parseBody body title).value.map Line.actions =
        (paragraphs (rows body)).map (fun paragraph =>
          paragraph.actionItems.filterMap parseAction) ∧
      entriesAt .warning (parseBody body title).log =
        (paragraphs (rows body)).flatMap (Paragraph.rejected title) ∧
      entriesAt .info (parseBody body title).log = [] := by
  have hbody : parseBody body title = assemble title 1 none (rows body) := by
    rw [parseBody, if_neg (by simpa using h)]
  rw [hbody]
  have hreports := entriesAt_assemble title 1 none (rows body)
  have herrors : _ = reports (Row.orphaned? title) 1 (leading (rows body)) := hreports .error
  have hdebugs : _ = reports (Row.skipped? title) 1 (rows body) := hreports .debug
  refine ⟨?_, herrors, hdebugs, ?_, ?_, hreports .warning, hreports .info⟩
  · rw [herrors, hdebugs, length_reports (isSome_orphaned? title),
      length_reports (isSome_skipped? title), value_assemble_paragraphs, List.length_map,
      length_paragraphs, ← length_rows, length_eq_counts]
  · rw [value_assemble_paragraphs, List.map_map]
    exact List.map_congr_left fun paragraph _ => (options_actions_attach paragraph title).1
  · rw [value_assemble_paragraphs, List.map_map]
    exact List.map_congr_left fun paragraph _ => (options_actions_attach paragraph title).2

/-- A body with an orphan, a blank row, and items of a group and of a block that cannot be read. -/
def motley : List Char :=
  "[bow]\n\nEve: Hi | options([[Ask|B]], [[Wait]])\n[[Go, now|END]], [[]]\n[nod|2]".toList

theorem parseBody_conserves_motley :
    motley ≠ [] ∧ motley.count '\n' + 1 = 5 ∧
      (parseBody motley "Hall").value.map Line.options = [[⟨"Ask", "B"⟩, ⟨"Go, now", "END"⟩]] ∧
      (parseBody motley "Hall").value.map Line.actions = [[⟨"nod", "2"⟩]] ∧
      (entriesAt .warning (parseBody motley "Hall").log).map LogEntry.text =
        ["Malformed option '[[Wait]]' in node 'Hall'; dropping.",
          "Malformed option '[[]]' in node 'Hall'; dropping."] ∧
      (entriesAt .error (parseBody motley "Hall").log).length = 1 ∧
      (entriesAt .debug (parseBody motley "Hall").log).length = 1 := by
  have hne : motley ≠ [] := by decide +kernel
  obtain ⟨-, herrors, hdebugs, hoptions, hactions, hwarnings, -⟩ := parseBody_conserves hne "Hall"
  rw [herrors, hdebugs, hoptions, hactions, hwarnings]
  exact ⟨hne, by decide +kernel, by decide +kernel, by decide +kernel, by decide +kernel,
    by decide +kernel, by decide +kernel⟩

end Parley.Script
