import Parley.Text.Blank
import Parley.Text.Word

/-!
# How the classes of characters lie to each other

White space and word characters are given by tables; that no character is in both is a fact
about these tables.
-/

namespace Parley.Text

/-- No white space is a letter or has a numeric value. -/
theorem inRanges_letterRanges_of_blankRanges :
    ∀ r ∈ blankRanges, ∀ k < r.2 + 1 - r.1, inRanges (r.1 + k) letterRanges = false := by
  decide +kernel

theorem not_isWord_of_isBlank {c : Char} (h : isBlank c = true) : isWord c = false := by
  obtain ⟨r, hr, hlo, hhi⟩ := exists_range_of_inRanges h
  have hletter := inRanges_letterRanges_of_blankRanges r hr (c.toNat - r.1) (by omega)
  rw [Nat.add_sub_cancel' hlo] at hletter
  have hunderscore : c ≠ '_' := by
    rintro rfl
    simp [isBlank, inRanges, blankRanges] at h
  simp [isWord, hletter, hunderscore]

theorem not_isBlank_of_isWord {c : Char} (h : isWord c = true) : isBlank c = false := by
  cases hc : isBlank c with
  | false => rfl
  | true => rw [not_isWord_of_isBlank hc] at h; exact h.symm

@[simp] theorem isWord_space : isWord ' ' = false := by decide +kernel

@[simp] theorem isWord_comma : isWord ',' = false := by decide +kernel

@[simp] theorem isWord_opening : isWord '[' = false := by decide +kernel

@[simp] theorem isWord_closing : isWord ']' = false := by decide +kernel

end Parley.Text
