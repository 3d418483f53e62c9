import Parley.Text.Cut

/-!
# Cutting a text that was put together

The lemmas beside the cuts say that nothing is lost in a cut.  This file says the converse: a
text that was put together around a separator is cut at that separator, provided the part
that the cut searches first is free of it.
-/

namespace Parley.Text

variable {sep : Char}

/-! ## One cut -/

theorem cutFirst_append_cons {before : List Char} (h : sep ∉ before) (after : List Char) :
    cutFirst sep (before ++ sep :: after) = some (before, after) := by
  induction before with
  | nil => simp [cutFirst]
  | cons c before ih =>
      rw [List.mem_cons, not_or] at h
      rw [List.cons_append, cutFirst, if_neg (Ne.symm h.1), ih h.2]
      rfl

theorem cutLast_append_cons {after : List Char} (h : sep ∉ after) (before : List Char) :
    cutLast sep (before ++ sep :: after) = some (before, after) := by
  induction before with
  | nil => simp [cutLast, cutLast_eq_none_iff.mpr h]
  | cons c before ih => rw [List.cons_append, cutLast, ih]

/-! ## All cuts -/

theorem pieces_of_not_mem {cs : List Char} (h : sep ∉ cs) : pieces sep cs = [cs] := by
  induction cs with
  | nil => rfl
  | cons c cs ih =>
      rw [List.mem_cons, not_or] at h
      rw [pieces, if_neg (Ne.symm h.1), ih h.2]

/-- Every separator cuts, so the pieces on its two sides do not depend on each other. -/
theorem pieces_append_separator (before after : List Char) :
    pieces sep (before ++ sep :: after) = pieces sep before ++ pieces sep after := by
  induction before with
  | nil => simp [pieces]
  | cons c before ih =>
      by_cases hc : c = sep
      · simp [pieces, hc, ih]
      · obtain ⟨piece, rest, hpieces⟩ := List.exists_cons_of_ne_nil (pieces_ne_nil sep before)
        simp [pieces, hc, ih, hpieces]

theorem pieces_append_cons {piece : List Char} (h : sep ∉ piece) (rest : List Char) :
    pieces sep (piece ++ sep :: rest) = piece :: pieces sep rest := by
  rw [pieces_append_separator, pieces_of_not_mem h, List.singleton_append]

theorem join_cons_cons (glue text next : List Char) (rest : List (List Char)) :
    join glue (text :: next :: rest) = text ++ glue ++ join glue (next :: rest) := rfl

/-- Texts free of the separator are the pieces of what they join to. -/
theorem pieces_join {texts : List (List Char)} (hne : texts ≠ [])
    (h : ∀ text ∈ texts, sep ∉ text) : pieces sep (join [sep] texts) = texts := by
  induction texts with
  | nil => exact absurd rfl hne
  | cons text rest ih =>
      have htext : sep ∉ text := h text List.mem_cons_self
      cases rest with
      | nil => exact pieces_of_not_mem htext
      | cons next rest =>
          have hrest := ih (by simp) fun t ht => h t (List.mem_cons_of_mem _ ht)
          rw [join_cons_cons, List.append_assoc, List.singleton_append,
            pieces_append_cons htext, hrest]

theorem not_mem_of_mem_pieces {cs piece : List Char} (h : piece ∈ pieces sep cs) :
    sep ∉ piece := by
  induction cs generalizing piece with
  | nil =>
      obtain rfl : piece = [] := by simpa [pieces] using h
      simp
  | cons c cs ih =>
      by_cases hc : c = sep
      · rw [pieces, if_pos hc] at h
        rcases List.mem_cons.mp h with rfl | h
        · simp
        · exact ih h
      · rw [pieces, if_neg hc] at h
        cases hp : pieces sep cs with
        | nil => exact absurd hp (pieces_ne_nil sep cs)
        | cons first rest =>
            rw [hp] at h ih
            rcases List.mem_cons.mp h with rfl | h
            · have : sep ∉ first := ih List.mem_cons_self
              simp [Ne.symm hc, this]
            · exact ih (List.mem_cons_of_mem _ h)

/-! ## What follows a marker -/

/-- A marker is not found across a character that it does not contain. -/
theorem after?_append_cons {marker text : List Char} {c : Char} (hmarker : c ∉ marker)
    (hne : marker ≠ []) (htext : ¬ marker <:+: text) (rest : List Char) :
    after? marker (text ++ c :: rest) = after? marker rest := by
  induction text with
  | nil =>
      rw [List.nil_append, after?, if_neg]
      intro hstarts
      obtain ⟨m, ms, rfl⟩ := List.exists_cons_of_ne_nil hne
      rw [List.isPrefixOf_iff_prefix, List.cons_prefix_cons] at hstarts
      exact hmarker (by simp [hstarts.1])
  | cons d ds ih =>
      have hds : ¬ marker <:+: ds := fun h => htext (h.trans (List.suffix_cons d ds).isInfix)
      rw [List.cons_append, after?, if_neg, ih hds]
      intro hstarts
      obtain ⟨tail, htail⟩ := List.isPrefixOf_iff_prefix.mp hstarts
      rw [← List.cons_append] at htail
      -- The marker either lies within the text or reaches as far as `c`.
      rcases List.append_eq_append_iff.mp htail with ⟨as, hd, -⟩ | ⟨as, hm, htail⟩
      · exact htext ⟨[], as, by simp [hd]⟩
      · cases as with
        | nil => exact htext ⟨[], [], by simp [hm]⟩
        | cons a as =>
            obtain rfl : c = a := by
              simp only [List.cons_append, List.cons.injEq] at htail
              exact htail.1
            exact hmarker (by simp [hm])

/-- A marker that ends with a bracket is found at the first bracket or only after it. -/
theorem after?_append_bracket {name text : List Char} {bracket : Char} (hname : bracket ∉ name)
    (htext : bracket ∉ text) (rest : List Char) :
    after? (name ++ [bracket]) (text ++ bracket :: rest) =
      if name <:+ text then some rest else after? (name ++ [bracket]) rest := by
  induction text with
  | nil =>
      cases name with
      | nil => simp [after?]
      | cons n ns =>
          have hn : n ≠ bracket := fun e => hname (by simp [e])
          simp [after?, hn]
  | cons d ds ih =>
      have hds : bracket ∉ ds := fun h => htext (List.mem_cons_of_mem _ h)
      have hstarts : (name ++ [bracket]).isPrefixOf (d :: (ds ++ bracket :: rest)) = true ↔
          name = d :: ds := by
        rw [List.isPrefixOf_iff_prefix, ← List.cons_append]
        constructor
        · rintro ⟨tail, htail⟩
          rw [List.append_assoc, List.singleton_append] at htail
          have hcut := cutFirst_append_cons hname tail
          rw [htail, cutFirst_append_cons htext] at hcut
          exact (Prod.mk.inj (Option.some.inj hcut)).1.symm
        · rintro rfl
          exact ⟨rest, by simp⟩
      rw [List.cons_append, after?]
      by_cases heq : name = d :: ds
      · rw [if_pos (hstarts.mpr heq), if_pos (List.suffix_cons_iff.mpr (Or.inl heq))]
        simp [heq]
      · rw [if_neg (mt hstarts.mp heq), ih hds]
        simp only [List.suffix_cons_iff, heq, false_or]

end Parley.Text
