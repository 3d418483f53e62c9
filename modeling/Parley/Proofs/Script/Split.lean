import Parley.Proofs.Text.Trim
import Parley.Script.Separator

/-!
# Where a list is split

`splitAfter` decides at every comma, from everything before it and everything after it,
whether the comma separates two items.  This file says what comes out when the text is known
in parts.

* A part none of whose commas separates is kept whole (`splitAfter_append`).
* A separating comma ends the part before it (`splitAfter_append_separator`).
* Conversely, no comma inside a part that came out is a separator in its place
  (`exists_context_of_mem_splitAfter`).

`separates` is the test at one comma.  As in `splitAfter`, what comes before is given last
character first.
-/

namespace Parley.Script

open Parley.Text

variable {closing : List Char} {opens : List Char → Bool}

/-- Whether a comma between `seen` (last character first) and `rest` separates two items. -/
def separates (closing : List Char) (opens : List Char → Bool) (seen rest : List Char) :
    Bool :=
  endsWith closing seen && opens (trimStart rest)

/-- No comma of `part` separates where the part stands, after `seen` (last character first)
and before `rest`. -/
def Unsplit (closing : List Char) (opens : List Char → Bool) (seen part rest : List Char) :
    Prop :=
  ∀ x y, part = x ++ ',' :: y → separates closing opens (x.reverse ++ seen) (y ++ rest) = false

theorem Unsplit.of_not_mem {part : List Char} (h : ',' ∉ part) (seen rest : List Char) :
    Unsplit closing opens seen part rest := by
  rintro x y rfl
  exact absurd (by simp) h

theorem unsplit_cons_iff {seen part rest : List Char} {c : Char} :
    Unsplit closing opens seen (c :: part) rest ↔
      (c = ',' → separates closing opens seen (part ++ rest) = false) ∧
        Unsplit closing opens (c :: seen) part rest := by
  constructor
  · intro h
    refine ⟨?_, ?_⟩
    · rintro rfl
      exact h [] part rfl
    · rintro x y rfl
      simpa using h (c :: x) y rfl
  · rintro ⟨hfirst, hrest⟩ (_ | ⟨d, x⟩) y hxy
    · obtain ⟨rfl, rfl⟩ := List.cons.inj hxy
      exact hfirst rfl
    · obtain ⟨rfl, rfl⟩ := List.cons.inj hxy
      simpa using hrest x y rfl

theorem unsplit_append_iff {seen part more rest : List Char} :
    Unsplit closing opens seen (part ++ more) rest ↔
      Unsplit closing opens seen part (more ++ rest) ∧
        Unsplit closing opens (part.reverse ++ seen) more rest := by
  induction part generalizing seen with
  | nil => exact ⟨fun h => ⟨.of_not_mem (by simp) _ _, h⟩, fun h => h.2⟩
  | cons c part ih =>
      rw [List.cons_append, unsplit_cons_iff, unsplit_cons_iff, ih, List.append_assoc, and_assoc]
      simp

/-! ## What starts with an opening -/

@[simp] theorem startsWith_nil (text : List Char) : startsWith [] text = true := by
  simp [startsWith]

@[simp] theorem startsWith_cons_nil (c : Char) (opening : List Char) :
    startsWith (c :: opening) [] = false := rfl

@[simp] theorem startsWith_cons_cons (c d : Char) (opening text : List Char) :
    startsWith (c :: opening) (d :: text) = (c == d && startsWith opening text) := rfl

/-! ## What ends with a closing bracket -/

theorem endsWith_bracket_iff {bracket : Char} {seen : List Char} :
    endsWith [bracket] seen = true ↔ (seen.dropWhile isBlank).head? = some bracket := by
  unfold endsWith
  cases seen.dropWhile isBlank with
  | nil => simp
  | cons c rest =>
      simp only [List.reverse_singleton, List.isPrefixOf_cons_cons, List.isPrefixOf_nil_left,
        Bool.and_true, beq_iff_eq, List.head?_cons, Option.some.injEq]
      exact eq_comm

theorem endsWith_bracket_cons {bracket c : Char} (hc : isBlank c = false) (seen : List Char) :
    endsWith [bracket] (c :: seen) = true ↔ c = bracket := by
  rw [endsWith_bracket_iff, List.dropWhile_cons_of_neg (by simp [hc])]
  simp

theorem endsWith_cons_of_blank {closing : List Char} {c : Char} (hc : isBlank c = true)
    (seen : List Char) : endsWith closing (c :: seen) = endsWith closing seen := by
  unfold endsWith
  rw [List.dropWhile_cons_of_pos hc]

theorem endsWith_append_of_blank {closing blanks : List Char}
    (h : ∀ c ∈ blanks, isBlank c = true) (seen : List Char) :
    endsWith closing (blanks ++ seen) = endsWith closing seen := by
  unfold endsWith
  rw [List.dropWhile_append_of_pos h]

/-- A text that has opened a bracket and not closed it does not end with a closing one. -/
theorem endsWith_of_open {closing text : List Char} (h : ']' ∉ text) (seen : List Char) :
    endsWith (closing ++ [']']) (('[' :: text).reverse ++ seen) = false := by
  unfold endsWith
  rw [List.reverse_append, List.reverse_singleton, List.singleton_append, List.reverse_cons,
    List.append_assoc, List.singleton_append, List.dropWhile_append]
  split
  · rw [List.dropWhile_cons_of_neg (by decide)]
    rfl
  · cases hdrop : text.reverse.dropWhile isBlank with
    | nil => simp_all
    | cons c rest =>
        have hc : c ∈ text := by
          have : c ∈ text.reverse.dropWhile isBlank := by simp [hdrop]
          exact List.mem_reverse.mp ((List.dropWhile_sublist _).subset this)
        have hne : ']' ≠ c := by
          rintro rfl
          exact h hc
        rw [List.cons_append, List.isPrefixOf_cons_cons, beq_false_of_ne hne, Bool.false_and]

/-- No comma separates while a bracket is open. -/
theorem unsplit_of_open (closing : List Char) {text : List Char} (h : ']' ∉ text)
    (seen rest : List Char) : Unsplit (closing ++ [']']) opens seen ('[' :: text) rest := by
  rintro (_ | ⟨d, x⟩) y hxy
  · simp at hxy
  · obtain ⟨rfl, rfl⟩ := List.cons.inj hxy
    rw [separates, endsWith_of_open (fun hmem => h (List.mem_append_left _ hmem)),
      Bool.false_and]

/-! ## Putting a text in front -/

/-- Put a text in front of the first of several parts. -/
def appendFirst (text : List Char) : List (List Char) → List (List Char)
  | [] => [text]
  | part :: rest => (text ++ part) :: rest

@[simp] theorem appendFirst_cons (text part : List Char) (rest : List (List Char)) :
    appendFirst text (part :: rest) = (text ++ part) :: rest := rfl

theorem appendFirst_nil_left {parts : List (List Char)} (h : parts ≠ []) :
    appendFirst [] parts = parts := by
  cases parts with
  | nil => exact absurd rfl h
  | cons part rest => rfl

theorem consFirst_appendFirst (c : Char) (text : List Char) (parts : List (List Char)) :
    consFirst c (appendFirst text parts) = appendFirst (c :: text) parts := by
  cases parts <;> rfl

/-! ## Splitting a text given in parts -/

theorem splitAfter_separator {seen rest : List Char}
    (h : separates closing opens seen rest = true) :
    splitAfter closing opens seen (',' :: rest) =
      [] :: splitAfter closing opens (',' :: seen) rest := by
  unfold separates at h
  rw [Bool.and_eq_true] at h
  rw [splitAfter, if_pos (by simp [h.1, h.2])]

theorem splitAfter_cons {seen rest : List Char} {c : Char}
    (h : c = ',' → separates closing opens seen rest = false) :
    splitAfter closing opens seen (c :: rest) =
      consFirst c (splitAfter closing opens (c :: seen) rest) := by
  rw [splitAfter, if_neg]
  rintro hsep
  simp only [Bool.and_eq_true, decide_eq_true_eq] at hsep
  obtain ⟨⟨rfl, hcloses⟩, hopens⟩ := hsep
  have := h rfl
  simp [separates, hcloses, hopens] at this

/-- A part none of whose commas separates is kept whole. -/
theorem splitAfter_append {seen part rest : List Char}
    (h : Unsplit closing opens seen part rest) :
    splitAfter closing opens seen (part ++ rest) =
      appendFirst part (splitAfter closing opens (part.reverse ++ seen) rest) := by
  induction part generalizing seen with
  | nil => exact (appendFirst_nil_left (splitAfter_ne_nil closing opens seen rest)).symm
  | cons c part ih =>
      obtain ⟨hfirst, hrest⟩ := unsplit_cons_iff.mp h
      rw [List.cons_append, splitAfter_cons hfirst, ih hrest, consFirst_appendFirst]
      simp

/-- The last part is kept whole. -/
theorem splitAfter_eq_singleton {seen part : List Char}
    (h : Unsplit closing opens seen part []) :
    splitAfter closing opens seen part = [part] := by
  have := splitAfter_append h
  rwa [List.append_nil, splitAfter, appendFirst_cons, List.append_nil] at this

/-- A separating comma ends the part before it. -/
theorem splitAfter_append_separator {seen part rest : List Char}
    (h : Unsplit closing opens seen part (',' :: rest))
    (hsep : separates closing opens (part.reverse ++ seen) rest = true) :
    splitAfter closing opens seen (part ++ ',' :: rest) =
      part :: splitAfter closing opens (',' :: (part.reverse ++ seen)) rest := by
  rw [splitAfter_append h, splitAfter_separator hsep, appendFirst_cons, List.append_nil]

/-! ## The parts of a split text -/

/-- The part that is being read when the text begins, and the parts after it, each with what
stands around it. -/
theorem exists_splitAfter_eq_cons (seen text : List Char) :
    ∃ first others, splitAfter closing opens seen text = first :: others ∧
      (∃ right, text = first ++ right ∧ Unsplit closing opens seen first right) ∧
      ∀ part ∈ others, ∃ left right, text = left ++ (part ++ right) ∧
        Unsplit closing opens (left.reverse ++ seen) part right := by
  induction text generalizing seen with
  | nil => exact ⟨[], [], rfl, ⟨[], rfl, .of_not_mem (by simp) _ _⟩, by simp⟩
  | cons c text ih =>
      obtain ⟨first, others, hsplit, ⟨right, hright, hfirst⟩, hothers⟩ := ih (c :: seen)
      have hlater : ∀ part ∈ others, ∃ left right, c :: text = left ++ (part ++ right) ∧
          Unsplit closing opens (left.reverse ++ seen) part right := by
        intro part hpart
        obtain ⟨left, right, hcontext, hcommas⟩ := hothers part hpart
        exact ⟨c :: left, right, by rw [hcontext]; rfl, by simpa using hcommas⟩
      by_cases hsep : c = ',' ∧ separates closing opens seen text = true
      · obtain ⟨rfl, hsep⟩ := hsep
        refine ⟨[], first :: others, by rw [splitAfter_separator hsep, hsplit],
          ⟨',' :: text, rfl, .of_not_mem (by simp) _ _⟩, ?_⟩
        rintro part (_ | ⟨_, hpart⟩)
        · exact ⟨[','], right, by rw [hright]; rfl, hfirst⟩
        · exact hlater part hpart
      · have hcomma : c = ',' → separates closing opens seen text = false := by
          rintro rfl
          simpa using hsep
        refine ⟨c :: first, others, by rw [splitAfter_cons hcomma, hsplit]; rfl,
          ⟨right, by rw [hright]; rfl, ?_⟩, hlater⟩
        exact unsplit_cons_iff.mpr ⟨hright ▸ hcomma, hfirst⟩

/-- No comma inside a part separates: `left` and `right` are what stands around the part. -/
theorem exists_context_of_mem_splitAfter {seen text part : List Char}
    (h : part ∈ splitAfter closing opens seen text) :
    ∃ left right, text = left ++ (part ++ right) ∧
      Unsplit closing opens (left.reverse ++ seen) part right := by
  obtain ⟨first, others, hsplit, ⟨right, hright, hfirst⟩, hothers⟩ :=
    exists_splitAfter_eq_cons seen text
  rw [hsplit] at h
  rcases List.mem_cons.mp h with rfl | h
  · exact ⟨[], right, hright, hfirst⟩
  · exact hothers part h

end Parley.Script
