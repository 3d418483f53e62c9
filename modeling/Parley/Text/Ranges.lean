/-!
# Character classes as interval lists

A class of characters is given by the list of its maximal intervals of code points, in
ascending order.  Because the list ascends, a look-up stops at the first interval that
starts beyond the code point it looks for.
-/

namespace Parley.Text

/-- Whether `n` lies in one of the closed intervals of an ascending list. -/
def inRanges (n : Nat) : List (Nat × Nat) → Bool
  | [] => false
  | (lo, hi) :: rest => if n < lo then false else n ≤ hi || inRanges n rest

@[simp] theorem inRanges_nil (n : Nat) : inRanges n [] = false := rfl

/-- A member of the class lies in one of the listed intervals. -/
theorem exists_range_of_inRanges {n : Nat} {ranges : List (Nat × Nat)}
    (h : inRanges n ranges = true) : ∃ r ∈ ranges, r.1 ≤ n ∧ n ≤ r.2 := by
  induction ranges with
  | nil => simp at h
  | cons r rest ih =>
    obtain ⟨lo, hi⟩ := r
    by_cases hlo : n < lo
    · simp [inRanges, hlo] at h
    · by_cases hhi : n ≤ hi
      · exact ⟨(lo, hi), by simp, by simpa using hlo, hhi⟩
      · simp only [inRanges, hlo, if_false, hhi, decide_false, Bool.false_or] at h
        obtain ⟨r, hr, hn⟩ := ih h
        exact ⟨r, by simp [hr], hn⟩

end Parley.Text
