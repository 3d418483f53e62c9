import Parley.Proofs.Script.LegibleTags

/-!
# The cuts of a split text

Splitting a text takes away the commas that separate, and nothing else.  The parts joined with
commas are the text again (`join_splitBetween`), and the commas between them, the cuts, are exactly
those that separate in the whole text (`mem_cuts_splitBetween`).

A part separates no further.  A comma of a part has less before it and less after it than in the
whole text.  But what closes before a comma in the part also closes there in the whole text, and
so does what opens after it (`separates_append`); so a comma that would split the part would have
split the whole text already (`splitBetween_part`).
-/

namespace Parley.Script

open Parley.Text

variable {closing : List Char} {opens : List Char → Bool}

/-! ## Nothing is lost -/

theorem join_consFirst (glue : List Char) (c : Char) (parts : List (List Char)) :
    join glue (consFirst c parts) = c :: join glue parts := by
  cases parts with
  | nil => rfl
  | cons part rest => cases rest <;> rfl

theorem join_nil_cons (c : Char) {parts : List (List Char)} (h : parts ≠ []) :
    join [c] ([] :: parts) = c :: join [c] parts := by
  cases parts with
  | nil => exact absurd rfl h
  | cons part rest => rfl

theorem join_splitAfter (closing : List Char) (opens : List Char → Bool) (seen text : List Char) :
    join [','] (splitAfter closing opens seen text) = text := by
  induction text generalizing seen with
  | nil => rfl
  | cons c rest ih =>
      by_cases hsep : c = ',' ∧ separates closing opens seen rest = true
      · obtain ⟨rfl, hsep⟩ := hsep
        rw [splitAfter_separator hsep, join_nil_cons _ (splitAfter_ne_nil _ _ _ _), ih]
      · rw [splitAfter_cons (by simpa using hsep), join_consFirst, ih]

theorem join_splitBetween (closing : List Char) (opens : List Char → Bool) (text : List Char) :
    join [','] (splitBetween closing opens text) = text :=
  join_splitAfter closing opens [] text

/-! ## The cuts -/

/-- The places of the separators between some parts, if the first part begins at `start`. -/
def cutsFrom (start : ℕ) : List (List Char) → List ℕ
  | [] => []
  | [_] => []
  | part :: next :: rest =>
    (start + part.length) :: cutsFrom (start + part.length + 1) (next :: rest)

/-- The places of the separators in the text that some parts make up. -/
def cuts (parts : List (List Char)) : List ℕ :=
  cutsFrom 0 parts

theorem cutsFrom_nil_cons (start : ℕ) {parts : List (List Char)} (h : parts ≠ []) :
    cutsFrom start ([] :: parts) = start :: cutsFrom (start + 1) parts := by
  cases parts with
  | nil => exact absurd rfl h
  | cons part rest => rfl

/-- A longer first part moves the cuts behind it. -/
theorem cutsFrom_consFirst (start : ℕ) (c : Char) (parts : List (List Char)) :
    cutsFrom start (consFirst c parts) = cutsFrom (start + 1) parts := by
  cases parts with
  | nil => rfl
  | cons part rest =>
      cases rest with
      | nil => rfl
      | cons next rest =>
          have hplace : start + (c :: part).length = start + 1 + part.length := by
            rw [List.length_cons]
            omega
          rw [consFirst, cutsFrom, cutsFrom, hplace]

/-- The cuts in a text that continues `seen`, counted from the start of `seen`. -/
theorem mem_cutsFrom_splitAfter (seen text : List Char) (i : ℕ) :
    i ∈ cutsFrom seen.length (splitAfter closing opens seen text) ↔
      ∃ left right, text = left ++ ',' :: right ∧ i = seen.length + left.length ∧
        separates closing opens (left.reverse ++ seen) right = true := by
  induction text generalizing seen with
  | nil => simp [splitAfter, cutsFrom]
  | cons c rest ih =>
      -- What the later cuts say of `rest`, they say of `c :: rest`.
      have hlater : (∃ left right, rest = left ++ ',' :: right ∧
            i = (c :: seen).length + left.length ∧
            separates closing opens (left.reverse ++ c :: seen) right = true) ↔
          ∃ d left right, c :: rest = d :: left ++ ',' :: right ∧
            i = seen.length + (d :: left).length ∧
            separates closing opens ((d :: left).reverse ++ seen) right = true := by
        constructor
        · rintro ⟨left, right, rfl, rfl, hsep⟩
          exact ⟨c, left, right, rfl, by simp only [List.length_cons]; omega, by simpa using hsep⟩
        · rintro ⟨d, left, right, heq, rfl, hsep⟩
          obtain ⟨rfl, rfl⟩ := List.cons.inj heq
          exact ⟨left, right, rfl, by simp only [List.length_cons]; omega, by simpa using hsep⟩
      by_cases hsep : c = ',' ∧ separates closing opens seen rest = true
      · obtain ⟨rfl, hsep⟩ := hsep
        rw [splitAfter_separator hsep, cutsFrom_nil_cons _ (splitAfter_ne_nil _ _ _ _),
          List.mem_cons, ← List.length_cons (a := ','), ih, hlater]
        constructor
        · rintro (rfl | ⟨d, left, right, heq⟩)
          · exact ⟨[], rest, rfl, rfl, hsep⟩
          · exact ⟨d :: left, right, heq⟩
        · rintro ⟨_ | ⟨d, left⟩, right, heq, hplace, hsep'⟩
          · exact .inl hplace
          · exact .inr ⟨d, left, right, heq, hplace, hsep'⟩
      · rw [splitAfter_cons (by simpa using hsep), cutsFrom_consFirst,
          ← List.length_cons (a := c), ih, hlater]
        constructor
        · rintro ⟨d, left, right, heq⟩
          exact ⟨d :: left, right, heq⟩
        · rintro ⟨_ | ⟨d, left⟩, right, heq, hplace, hsep'⟩
          · obtain ⟨rfl, rfl⟩ := List.cons.inj heq
            exact absurd ⟨rfl, hsep'⟩ hsep
          · exact ⟨d, left, right, heq, hplace, hsep'⟩

/-- The character at a place of a text is a comma that separates: the text before it ends with
`closing` and the text after it is accepted by `opens`, white space aside. -/
structure SeparatesAt (closing : List Char) (opens : List Char → Bool) (text : List Char)
    (i : ℕ) : Prop where
  comma : text[i]? = some ','
  closes : closing <:+ trimEnd (text.take i)
  opens : opens (trimStart (text.drop (i + 1))) = true

theorem endsWith_reverse_iff {text : List Char} :
    endsWith closing text.reverse = true ↔ closing <:+ trimEnd text := by
  have htrim : trimEnd text = (text.reverse.dropWhile isBlank).reverse := by
    rw [← dropEnd_reverse, List.reverse_reverse]
    rfl
  rw [endsWith, List.isPrefixOf_iff_prefix, htrim, ← List.reverse_prefix, List.reverse_reverse]

theorem separatesAt_iff {text : List Char} {i : ℕ} :
    SeparatesAt closing opens text i ↔
      ∃ left right, text = left ++ ',' :: right ∧ i = left.length ∧
        separates closing opens left.reverse right = true := by
  constructor
  · rintro ⟨hcomma, hcloses, hopens⟩
    obtain ⟨hi, hget⟩ := List.getElem?_eq_some_iff.mp hcomma
    refine ⟨text.take i, text.drop (i + 1), ?_, ?_, ?_⟩
    · rw [← hget, ← List.drop_eq_getElem_cons, List.take_append_drop]
    · rw [List.length_take_of_le hi.le]
    · rw [separates, endsWith_reverse_iff.mpr hcloses, hopens]
      rfl
  · rintro ⟨left, right, rfl, rfl, hsep⟩
    rw [separates, Bool.and_eq_true] at hsep
    refine ⟨by simp, ?_, ?_⟩
    · rw [List.take_left]
      exact endsWith_reverse_iff.mp hsep.1
    · rw [← List.singleton_append, ← List.append_assoc, List.drop_left' (by simp)]
      exact hsep.2

/-- The cuts are the commas that separate in the whole text. -/
theorem mem_cuts_splitBetween (text : List Char) (i : ℕ) :
    i ∈ cuts (splitBetween closing opens text) ↔ SeparatesAt closing opens text i := by
  rw [separatesAt_iff, cuts, splitBetween, ← List.length_nil (α := Char), mem_cutsFrom_splitAfter]
  simp only [List.length_nil, Nat.zero_add, List.append_nil]

/-! ## Parts are not split further -/

/-- What follows a text that opens makes no difference to that. -/
def Lasting (opens : List Char → Bool) : Prop :=
  opens [] = false ∧ ∀ text more, opens text = true → opens (text ++ more) = true

theorem lasting_startsWith {opening : List Char} (h : opening ≠ []) :
    Lasting (startsWith opening) := by
  refine ⟨?_, fun text more htext => ?_⟩
  · cases opening with
    | nil => exact absurd rfl h
    | cons c opening => rfl
  · rw [startsWith, List.isPrefixOf_iff_prefix] at htext ⊢
    exact htext.trans (List.prefix_append _ _)

theorem lasting_startsWithTagKey : Lasting startsWithTagKey :=
  ⟨rfl, fun _ more htext => startsWithTagKey_append htext more⟩

/-- What stands further in front makes no difference to how a text ends. -/
theorem endsWith_append (hclosing : closing ≠ []) {seen : List Char}
    (h : endsWith closing seen = true) (more : List Char) :
    endsWith closing (seen ++ more) = true := by
  unfold endsWith at h ⊢
  rw [List.isPrefixOf_iff_prefix] at h ⊢
  have hne : seen.dropWhile isBlank ≠ [] := by
    intro hnil
    rw [hnil, List.prefix_nil, List.reverse_eq_nil_iff] at h
    exact hclosing h
  rw [List.dropWhile_append, if_neg (by simpa using hne)]
  exact h.trans (List.prefix_append _ _)

theorem trimStart_append {text : List Char} (h : trimStart text ≠ []) (more : List Char) :
    trimStart (text ++ more) = trimStart text ++ more := by
  unfold trimStart at h ⊢
  rw [List.dropWhile_append, if_neg (by simpa using h)]

/-- A comma that separates does so in any text around. -/
theorem separates_append (hclosing : closing ≠ []) (hopens : Lasting opens)
    {seen rest : List Char} (h : separates closing opens seen rest = true)
    (before after : List Char) :
    separates closing opens (seen ++ before) (rest ++ after) = true := by
  rw [separates, Bool.and_eq_true] at h ⊢
  have hne : trimStart rest ≠ [] := by
    intro hnil
    rw [hnil, hopens.1] at h
    exact absurd h.2 (by simp)
  rw [trimStart_append hne]
  exact ⟨endsWith_append hclosing h.1 before, hopens.2 _ after h.2⟩

theorem splitBetween_part (hclosing : closing ≠ []) (hopens : Lasting opens)
    {text part : List Char} (h : part ∈ splitBetween closing opens text) :
    splitBetween closing opens part = [part] := by
  obtain ⟨left, right, -, hunsplit⟩ := exists_context_of_mem_splitAfter h
  refine splitAfter_eq_singleton fun x y hxy => ?_
  rw [List.append_nil, List.append_nil, Bool.eq_false_iff]
  intro hsep
  have hwhole := separates_append hclosing hopens hsep left.reverse right
  have hnot := hunsplit x y hxy
  rw [List.append_nil] at hnot
  exact absurd (hwhole.symm.trans hnot) (by simp)

/-- A split loses nothing and cuts exactly where a comma separates.  The parts of a list of
options, of actions or of tags are not split further. -/
theorem splits_at_separators :
    (∀ closing opens text,
      join [','] (splitBetween closing opens text) = text ∧
        ∀ i, i ∈ cuts (splitBetween closing opens text) ↔ SeparatesAt closing opens text i) ∧
      ∀ split ∈ [splitOptions, splitActions, splitTags], ∀ text, ∀ part ∈ split text,
        split part = [part] := by
  refine ⟨fun closing opens text =>
    ⟨join_splitBetween closing opens text, mem_cuts_splitBetween text⟩, ?_⟩
  intro split hsplit text part hpart
  simp only [List.mem_cons, List.not_mem_nil, or_false] at hsplit
  rcases hsplit with rfl | rfl | rfl
  · exact splitBetween_part (by simp) (lasting_startsWith (by simp)) hpart
  · exact splitBetween_part (by simp) (lasting_startsWith (by simp)) hpart
  · exact splitBetween_part (by simp) lasting_startsWithTagKey hpart

/-- A menu of two options, with a comma in the label of the first. -/
def menu : List Char :=
  "[[Yes, please|A]] , [[No|B]]".toList

theorem splits_at_separators_menu :
    SeparatesAt [']', ']'] (startsWith ['[', '[']) menu 18 ∧
      "[[Yes, please|A]] ".toList ∈ splitOptions menu ∧
      splitOptions "[[Yes, please|A]] ".toList = ["[[Yes, please|A]] ".toList] := by
  obtain ⟨hexact, hparts⟩ := splits_at_separators
  have hpart : "[[Yes, please|A]] ".toList ∈ splitOptions menu := by decide +kernel
  refine ⟨((hexact _ _ menu).2 18).mp (by decide +kernel), hpart, ?_⟩
  exact hparts splitOptions (by simp) menu _ hpart

end Parley.Script
