import Parley.Script.Body

/-!
# The layout of a body

A body is laid out in paragraphs: a spoken row with the rows after it, up to the next spoken one.
In front of the first paragraph stand rows that belong to no line.  Options and actions are written
in the groups of a spoken row and in blocks, which are rows of their own.
-/

namespace Parley.Script

open Parley.Text

/-! ## Kinds of rows -/

def Row.isSpoken : Row → Bool
  | .spoken _ => true
  | _ => false

/-- Whether a row is a block of options or actions. -/
def Row.isBlock : Row → Bool
  | .options _ | .actions _ => true
  | _ => false

def Row.isBlank : Row → Bool
  | .blank => true
  | _ => false

def Row.optionItems : Row → List (List Char)
  | .options items => items
  | _ => []

def Row.actionItems : Row → List (List Char)
  | .actions items => items
  | _ => []

/-! ## Paragraphs -/

/-- The rows in front of the first spoken one. -/
def leading (rows : List Row) : List Row :=
  rows.takeWhile fun row => !row.isSpoken

/-- The rows from the first spoken one on; the blocks among them have a line to belong to. -/
def following (rows : List Row) : List Row :=
  rows.dropWhile fun row => !row.isSpoken

/-- A spoken row and the rows after it, up to the next spoken one. -/
structure Paragraph where
  spoken : List Char
  trailing : List Row
  deriving DecidableEq, Repr

def paragraphs : List Row → List Paragraph
  | [] => []
  | .spoken text :: rest => ⟨text, leading rest⟩ :: paragraphs rest
  | _ :: rest => paragraphs rest

namespace Paragraph

/-- What follows the bar of the spoken row. -/
def metadata? (paragraph : Paragraph) : Option (List Char) :=
  (cutFirst '|' (cutSpeaker paragraph.spoken).2).map Prod.snd

/-- The contents of a group of the spoken row. -/
def captured? (paragraph : Paragraph) (name : String) : Option (List Char) :=
  paragraph.metadata?.bind (group? name)

/-- The options as they are written in the spoken row. -/
def inlineOptions (paragraph : Paragraph) : List (List Char) :=
  (paragraph.captured? "options").elim [] splitOptions

/-- The actions as they are written in the spoken row. -/
def inlineActions (paragraph : Paragraph) : List (List Char) :=
  (paragraph.captured? "actions").elim [] splitActions

/-- The options as they are written, first those of the spoken row. -/
def optionItems (paragraph : Paragraph) : List (List Char) :=
  paragraph.inlineOptions ++ paragraph.trailing.flatMap Row.optionItems

/-- The actions as they are written, first those of the spoken row. -/
def actionItems (paragraph : Paragraph) : List (List Char) :=
  paragraph.inlineActions ++ paragraph.trailing.flatMap Row.actionItems

end Paragraph

/-! ## How many rows there are -/

/-- A body has one row more than line breaks. -/
theorem length_rows (body : List Char) : (rows body).length = body.count '\n' + 1 := by
  rw [rows, List.length_map]
  induction body with
  | nil => rfl
  | cons c body ih =>
      by_cases hc : c = '\n'
      · rw [pieces, if_pos hc, List.length_cons, ih, hc, List.count_cons_self]
      · obtain ⟨piece, rest, hpieces⟩ := List.exists_cons_of_ne_nil (pieces_ne_nil '\n' body)
        rw [List.count_cons_of_ne hc, ← ih, pieces, if_neg hc, hpieces]
        rfl

theorem length_paragraphs (rows : List Row) :
    (paragraphs rows).length = rows.countP Row.isSpoken := by
  induction rows with
  | nil => rfl
  | cons row rows ih =>
      cases row <;> simp [paragraphs, ih, List.countP_cons, Row.isSpoken]

/-- Every row is spoken, blank, or a block before or after the first spoken row. -/
theorem length_eq_counts (rows : List Row) :
    rows.length = rows.countP Row.isSpoken + (following rows).countP Row.isBlock +
      (leading rows).countP Row.isBlock + rows.countP Row.isBlank := by
  have hkinds : rows.length =
      rows.countP Row.isSpoken + rows.countP Row.isBlock + rows.countP Row.isBlank := by
    induction rows with
    | nil => rfl
    | cons row rows ih =>
        cases row <;> simp [List.countP_cons, Row.isSpoken, Row.isBlock, Row.isBlank] <;> omega
  have hblocks : rows.countP Row.isBlock =
      (leading rows).countP Row.isBlock + (following rows).countP Row.isBlock := by
    rw [leading, following, ← List.countP_append, List.takeWhile_append_dropWhile]
  omega

end Parley.Script
