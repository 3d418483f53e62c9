import Mathlib.Data.List.DropRight
import Mathlib.Data.List.TakeWhile
import Parley.Text.Blank

/-!
# What stripping leaves

Stripping removes characters of a class from the two ends of a text and nothing else.  A
text whose first and last characters lie outside the class is left as it is
(`strip_eq_self`), and characters of the class put around a text make no difference
(`strip_append_append`).  Both are stated for any class: items are stripped of brackets and
spaces, everything else of white space.
-/

namespace Parley.Text

variable {p : Char → Bool}

/-! ## The end of a text -/

theorem dropEnd_append {as bs : List Char} (h : dropEnd p bs ≠ []) :
    dropEnd p (as ++ bs) = as ++ dropEnd p bs := by
  induction as with
  | nil => rfl
  | cons a as ih =>
      have hne : as ++ dropEnd p bs ≠ [] := by simp [h]
      rw [List.cons_append, dropEnd_cons, ih, if_neg hne, List.cons_append]

theorem dropEnd_append_of_all {as bs : List Char} (h : ∀ c ∈ bs, p c = true) :
    dropEnd p (as ++ bs) = dropEnd p as := by
  induction as with
  | nil => exact dropEnd_eq_nil_iff.mpr h
  | cons a as ih => rw [List.cons_append, dropEnd_cons, dropEnd_cons, ih]

theorem dropEnd_append_cons {c : Char} (hc : p c = false) (as bs : List Char) :
    dropEnd p (as ++ c :: bs) = as ++ c :: dropEnd p bs := by
  have htail : dropEnd p (c :: bs) = c :: dropEnd p bs := by
    rw [dropEnd_cons, hc]
    split
    · rename_i hnil
      simp [hnil]
    · rfl
  rw [dropEnd_append (by rw [htail]; simp), htail]

theorem dropEnd_eq_self {cs : List Char} (h : ∀ c, cs.getLast? = some c → p c = false) :
    dropEnd p cs = cs := by
  rcases List.eq_nil_or_concat cs with rfl | ⟨as, c, rfl⟩
  · rfl
  · rw [List.concat_eq_append] at h ⊢
    exact dropEnd_append_singleton (h c (by simp)) as

/-- Stripping the end is stripping the start of the text read backwards. -/
theorem dropEnd_reverse (p : Char → Bool) (cs : List Char) :
    dropEnd p cs.reverse = (cs.dropWhile p).reverse := by
  induction cs with
  | nil => rfl
  | cons c cs ih =>
      rw [List.reverse_cons]
      by_cases hc : p c = true
      · rw [dropEnd_append_of_all (by simpa using hc), ih, List.dropWhile_cons_of_pos hc]
      · rw [dropEnd_append_singleton (by simpa using hc), List.dropWhile_cons_of_neg hc,
          List.reverse_cons]

/-- What is left ends outside the class. -/
theorem getLast?_dropEnd {cs : List Char} {c : Char}
    (h : (dropEnd p cs).getLast? = some c) : p c = false := by
  induction cs with
  | nil => simp at h
  | cons d ds ih =>
      rw [dropEnd_cons] at h
      split at h
      · split at h
        · simp at h
        · rename_i hd
          obtain rfl : d = c := by simpa using h
          simpa using hd
      · rename_i hne
        rw [List.getLast?_cons] at h
        cases hlast : (dropEnd p ds).getLast? with
        | none => exact absurd (List.getLast?_eq_none_iff.mp hlast) hne
        | some e =>
            rw [hlast] at h
            obtain rfl : e = c := by simpa using h
            exact ih hlast

/-- What is removed from the end is of the class. -/
theorem exists_eq_dropEnd_append (p : Char → Bool) (cs : List Char) :
    ∃ end_, cs = dropEnd p cs ++ end_ ∧ ∀ c ∈ end_, p c = true := by
  induction cs with
  | nil => exact ⟨[], rfl, by simp⟩
  | cons d ds ih =>
      obtain ⟨end_, heq, hall⟩ := ih
      rw [dropEnd_cons]
      by_cases hnil : dropEnd p ds = []
      · rw [if_pos hnil]
        rw [hnil, List.nil_append] at heq
        by_cases hd : p d = true
        · rw [if_pos hd]
          exact ⟨d :: ds, rfl, by simpa [hd, ← heq] using fun c hc => hall c (heq ▸ hc)⟩
        · rw [if_neg hd]
          exact ⟨ds, rfl, fun c hc => hall c (heq ▸ hc)⟩
      · rw [if_neg hnil]
        exact ⟨end_, by rw [List.cons_append, ← heq], hall⟩

/-! ## Both ends -/

theorem strip_append_left {as : List Char} (has : ∀ c ∈ as, p c = true) (cs : List Char) :
    strip p (as ++ cs) = strip p cs := by
  unfold strip
  rw [List.dropWhile_append_of_pos has]

theorem strip_append_right {bs : List Char} (hbs : ∀ c ∈ bs, p c = true) (cs : List Char) :
    strip p (cs ++ bs) = strip p cs := by
  unfold strip
  rw [List.dropWhile_append]
  split
  · rename_i hnil
    rw [List.isEmpty_iff] at hnil
    rw [List.dropWhile_eq_nil_iff.mpr hbs, hnil]
  · exact dropEnd_append_of_all hbs

theorem strip_append_append {as bs : List Char} (has : ∀ c ∈ as, p c = true)
    (hbs : ∀ c ∈ bs, p c = true) (cs : List Char) :
    strip p (as ++ (cs ++ bs)) = strip p cs := by
  rw [strip_append_left has, strip_append_right hbs]

theorem strip_eq_self {cs : List Char} (hfirst : ∀ c, cs.head? = some c → p c = false)
    (hlast : ∀ c, cs.getLast? = some c → p c = false) : strip p cs = cs := by
  have hstart : cs.dropWhile p = cs := by
    cases cs with
    | nil => rfl
    | cons c cs => simp [hfirst c rfl]
  rw [strip, hstart, dropEnd_eq_self hlast]

/-- What is left starts outside the class. -/
theorem head?_strip {cs : List Char} {c : Char} (h : (strip p cs).head? = some c) :
    p c = false := by
  obtain ⟨end_, heq, -⟩ := exists_eq_dropEnd_append p (cs.dropWhile p)
  have hhead : (cs.dropWhile p).head? = some c := by
    rw [heq, List.head?_append]
    unfold strip at h
    simp [h]
  have := List.head?_dropWhile_not p cs
  rw [hhead] at this
  exact this

theorem getLast?_strip {cs : List Char} {c : Char} (h : (strip p cs).getLast? = some c) :
    p c = false :=
  getLast?_dropEnd h

/-- A text is what stripping leaves, between two stretches of the class. -/
theorem exists_eq_append_strip (p : Char → Bool) (cs : List Char) :
    ∃ start end_, cs = start ++ (strip p cs ++ end_) ∧ (∀ c ∈ start, p c = true) ∧
      ∀ c ∈ end_, p c = true := by
  obtain ⟨end_, heq, hend⟩ := exists_eq_dropEnd_append p (cs.dropWhile p)
  refine ⟨cs.takeWhile p, end_, ?_, ?_, hend⟩
  · calc cs = cs.takeWhile p ++ cs.dropWhile p := List.takeWhile_append_dropWhile.symm
      _ = cs.takeWhile p ++ (strip p cs ++ end_) := by rw [heq]; rfl
  · intro c hc
    exact List.mem_takeWhile_imp hc

@[simp] theorem strip_strip (cs : List Char) : strip p (strip p cs) = strip p cs :=
  strip_eq_self (fun _ h => head?_strip h) fun _ h => getLast?_strip h

theorem strip_dropEnd (cs : List Char) : strip p (dropEnd p cs) = strip p cs := by
  obtain ⟨end_, heq, hend⟩ := exists_eq_dropEnd_append p cs
  conv => rhs; rw [heq, strip_append_right hend]

theorem strip_append_cons {c : Char} (hc : p c = false) (as bs : List Char) :
    strip p (as ++ c :: bs) = as.dropWhile p ++ c :: dropEnd p bs := by
  have hstart : (as ++ c :: bs).dropWhile p = as.dropWhile p ++ c :: bs := by
    rw [List.dropWhile_append]
    split
    · rename_i hnil
      rw [List.isEmpty_iff.mp hnil, List.dropWhile_cons_of_neg (by simp [hc])]
      rfl
    · rfl
  rw [strip, hstart, dropEnd_append_cons hc]

theorem mem_of_mem_strip {cs : List Char} {c : Char} (h : c ∈ strip p cs) : c ∈ cs := by
  obtain ⟨start, end_, heq, -⟩ := exists_eq_append_strip p cs
  rw [heq]
  simp [h]

theorem strip_eq_nil_iff {cs : List Char} : strip p cs = [] ↔ ∀ c ∈ cs, p c = true := by
  constructor
  · intro h
    obtain ⟨start, end_, heq, hstart, hend⟩ := exists_eq_append_strip p cs
    rw [h, List.nil_append] at heq
    intro c hc
    rw [heq] at hc
    rcases List.mem_append.mp hc with hc | hc
    exacts [hstart c hc, hend c hc]
  · intro h
    simpa using strip_append_left h []

/-! ## White space -/

theorem trim_eq_nil_iff {cs : List Char} : trim cs = [] ↔ cs.all isBlank = true := by
  rw [trim, strip_eq_nil_iff, List.all_eq_true]

/-- A text is trimmed if there is no white space at its ends. -/
def IsTrimmed (cs : List Char) : Prop :=
  trim cs = cs

instance (cs : List Char) : Decidable (IsTrimmed cs) :=
  inferInstanceAs (Decidable (trim cs = cs))

namespace IsTrimmed

theorem trim (cs : List Char) : IsTrimmed (Text.trim cs) :=
  strip_strip cs

variable {cs : List Char}

theorem eq (h : IsTrimmed cs) : Text.trim cs = cs := h

theorem head?_not_blank (h : IsTrimmed cs) {c : Char} (hc : cs.head? = some c) :
    isBlank c = false :=
  head?_strip (show (Text.trim cs).head? = some c by rw [h.eq, hc])

theorem getLast?_not_blank (h : IsTrimmed cs) {c : Char} (hc : cs.getLast? = some c) :
    isBlank c = false :=
  getLast?_strip (show (Text.trim cs).getLast? = some c by rw [h.eq, hc])

theorem of_ends (hfirst : ∀ c, cs.head? = some c → isBlank c = false)
    (hlast : ∀ c, cs.getLast? = some c → isBlank c = false) : IsTrimmed cs :=
  strip_eq_self hfirst hlast

/-- Only the empty text is trimmed and blank. -/
theorem eq_nil_of_all (h : IsTrimmed cs) (hblank : cs.all isBlank = true) : cs = [] := by
  rw [← h.eq, trim_eq_nil_iff.mpr hblank]

end IsTrimmed

end Parley.Text
