/-!
# Stripping characters from the ends of a text

Text is handled as a list of characters.  `dropEnd p` removes the longest final stretch of
characters in `p`, `strip p` removes such a stretch from both ends.
-/

namespace Parley.Text

/-- The text without its longest final stretch of characters satisfying `p`. -/
def dropEnd (p : Char → Bool) : List Char → List Char
  | [] => []
  | c :: cs =>
    match dropEnd p cs with
    | [] => if p c then [] else [c]
    | d :: ds => c :: d :: ds

/-- The text without the characters satisfying `p` at its two ends. -/
def strip (p : Char → Bool) (cs : List Char) : List Char :=
  dropEnd p (cs.dropWhile p)

@[simp] theorem dropEnd_nil (p : Char → Bool) : dropEnd p [] = [] := rfl

@[simp] theorem strip_nil (p : Char → Bool) : strip p [] = [] := rfl

theorem dropEnd_cons (p : Char → Bool) (c : Char) (cs : List Char) :
    dropEnd p (c :: cs) =
      if dropEnd p cs = [] then (if p c then [] else [c]) else c :: dropEnd p cs := by
  rw [dropEnd]
  cases h : dropEnd p cs <;> simp

/-- A text that ends in a character outside the class is kept whole. -/
theorem dropEnd_append_singleton {p : Char → Bool} {c : Char} (h : p c = false)
    (cs : List Char) : dropEnd p (cs ++ [c]) = cs ++ [c] := by
  induction cs with
  | nil => simp [dropEnd, h]
  | cons d ds ih => simp [dropEnd_cons, ih]

/-- Stripping the end removes everything exactly from texts made of class members. -/
theorem dropEnd_eq_nil_iff {p : Char → Bool} {cs : List Char} :
    dropEnd p cs = [] ↔ ∀ c ∈ cs, p c = true := by
  induction cs with
  | nil => simp
  | cons c cs ih =>
    rw [dropEnd_cons, List.forall_mem_cons, ← ih]
    by_cases h : dropEnd p cs = [] <;> by_cases hc : p c = true <;> simp [h, hc]

end Parley.Text
