import Parley.Proofs.Text.Cut
import Parley.Proofs.Text.Trim
import Parley.Script.Spoken

/-!
# The two sides of the bar

What stands in front of the bar of a spoken row is said, what stands after it are groups.  The
two sides are read apart from each other exactly if the colon that ends the speaker is not
looked for among the groups (`parseLine_bar_iff`): the speaker is cut off before the bar is
looked for, so a row of narration whose groups hold a colon loses its bar, and with it
everything up to the colon, to the speaker.
-/

namespace Parley.Script

open Parley.Text

variable {row words groups : List Char} {title : String}

/-- The line of a row whose words and groups were read apart from each other. -/
def readApart (words groups : List Char) (title : String) : Logged Line := do
  let line ← parseLine words title
  let (options, actions) ← parseMetadata groups title
  return { line with options, actions }

/-! ## The speaker of a row -/

theorem cutSpeaker_of_not_mem (h : ':' ∉ row) : cutSpeaker row = ([], row) := by
  rw [cutSpeaker, cutFirst_eq_none_iff.mpr h]

theorem cutSpeaker_append_cons (h : ':' ∉ row) (rest : List Char) :
    cutSpeaker (row ++ ':' :: rest) = (trim row, rest) := by
  rw [cutSpeaker, cutFirst_append_cons h]

/-- The first colon of a text that holds one. -/
theorem exists_first_colon (h : ':' ∈ row) :
    ∃ before after, row = before ++ ':' :: after ∧ ':' ∉ before := by
  cases hcut : cutFirst ':' row with
  | none => exact absurd h (cutFirst_eq_none_iff.mp hcut)
  | some parts => exact ⟨parts.1, parts.2, eq_append_of_cutFirst hcut⟩

/-- Further text does not move the end of the speaker, unless it brings the first colon. -/
theorem cutSpeaker_append (row more : List Char) (h : ':' ∈ more → ':' ∈ row) :
    cutSpeaker (row ++ more) = ((cutSpeaker row).1, (cutSpeaker row).2 ++ more) := by
  by_cases hrow : ':' ∈ row
  · obtain ⟨before, after, rfl, hbefore⟩ := exists_first_colon hrow
    rw [cutSpeaker_append_cons hbefore, List.append_assoc, List.cons_append,
      cutSpeaker_append_cons hbefore]
  · have hmore : ':' ∉ row ++ more := by
      rw [List.mem_append, not_or]
      exact ⟨hrow, mt h hrow⟩
    rw [cutSpeaker_of_not_mem hrow, cutSpeaker_of_not_mem hmore]

theorem mem_of_mem_cutSpeaker {c : Char} (h : c ∈ (cutSpeaker row).1 ∨ c ∈ (cutSpeaker row).2) :
    c ∈ row := by
  by_cases hrow : ':' ∈ row
  · obtain ⟨before, after, rfl, hbefore⟩ := exists_first_colon hrow
    rw [cutSpeaker_append_cons hbefore] at h
    rcases h with h | h
    · exact List.mem_append_left _ (mem_of_mem_strip h)
    · exact List.mem_append_right _ (List.mem_cons_of_mem _ h)
  · rw [cutSpeaker_of_not_mem hrow] at h
    simpa using h

@[simp] theorem speaker_parseLine (row : List Char) (title : String) :
    (parseLine row title).value.speaker = String.ofList (cutSpeaker row).1 := by
  rcases hcut : cutSpeaker row with ⟨speaker, rest⟩
  simp only [parseLine, hcut]
  cases cutFirst '|' rest <;> rfl

/-! ## Rows with a bar -/

theorem parseLine_of_no_bar (h : '|' ∉ (cutSpeaker row).2) :
    parseLine row title = pure
      { speaker := String.ofList (cutSpeaker row).1
        text := String.ofList (trim (cutSpeaker row).2) } := by
  simp only [parseLine, cutFirst_eq_none_iff.mpr h]

/-- The words in front of a bar are read as they would be without it, and the groups after it
on their own. -/
theorem parseLine_append_bar (hwords : '|' ∉ words) (h : ':' ∈ groups → ':' ∈ words) :
    parseLine (words ++ '|' :: groups) title = readApart words groups title := by
  have hrest : '|' ∉ (cutSpeaker words).2 := fun hbar => hwords (mem_of_mem_cutSpeaker (.inr hbar))
  have hspeaker := cutSpeaker_append words ('|' :: groups) (by simpa using h)
  calc parseLine (words ++ '|' :: groups) title
      = (do
          let (options, actions) ← parseMetadata groups title
          return ⟨String.ofList (cutSpeaker words).1,
            String.ofList (trim (cutSpeaker words).2), options, actions⟩) := by
        simp only [parseLine, hspeaker, cutFirst_append_cons hrest]
    _ = readApart words groups title := by
        simp only [readApart, parseLine_of_no_bar hrest, pure_bind]

/-- Without a colon in front of it the bar is part of the speaker that a later colon ends. -/
theorem bar_mem_cutSpeaker (hwords : ':' ∉ words) (hgroups : ':' ∈ groups) :
    '|' ∈ (cutSpeaker (words ++ '|' :: groups)).1 := by
  obtain ⟨before, after, rfl, hbefore⟩ := exists_first_colon hgroups
  have hcolon : ':' ∉ words ++ '|' :: before := by simp [hwords, hbefore]
  have hcut : cutSpeaker (words ++ '|' :: (before ++ ':' :: after)) =
      (trim (words ++ '|' :: before), after) := by
    rw [← cutSpeaker_append_cons hcolon, List.append_assoc, List.cons_append]
  rw [hcut, trim, strip_append_cons (by decide)]
  simp

theorem speaker_ne_of_colon_after_bar (hbar : '|' ∉ words) (hwords : ':' ∉ words)
    (hgroups : ':' ∈ groups) (title : String) :
    (parseLine (words ++ '|' :: groups) title).value.speaker ≠
      (parseLine words title).value.speaker := by
  intro heq
  rw [speaker_parseLine, speaker_parseLine, String.ofList_inj] at heq
  have hmem := bar_mem_cutSpeaker hwords hgroups
  rw [heq] at hmem
  exact hbar (mem_of_mem_cutSpeaker (.inl hmem))

/-- The groups after a bar leave the words in front of it alone, and are read alone, exactly if
they bring no colon to a row that has none in front of the bar. -/
theorem parseLine_bar_iff (hwords : '|' ∉ words) :
    parseLine (words ++ '|' :: groups) title = readApart words groups title ↔
      (':' ∈ groups → ':' ∈ words) := by
  constructor
  · intro heq hgroups
    by_contra hcolon
    apply speaker_ne_of_colon_after_bar hwords hcolon hgroups title
    rw [heq]
    rfl
  · exact parseLine_append_bar hwords

/-- A speaker, a time of day in the words and a colon in a label. -/
theorem parseLine_bar_iff_meeting :
    '|' ∉ "Eve: Meet me at 10:30. ".toList ∧
      parseLine ("Eve: Meet me at 10:30. ".toList ++ '|' :: " options([[Ask: why|B]])".toList) "" =
        readApart "Eve: Meet me at 10:30. ".toList " options([[Ask: why|B]])".toList "" :=
  ⟨by decide, (parseLine_bar_iff (by decide)).mpr (by decide)⟩

/-- Narration with a colon in a label: the bar and the start of the label become the speaker,
the end of the label becomes the words, and the option is gone without a report. -/
theorem label_read_as_speaker :
    (parseLine "Well | options([[Ask: why|B]])".toList "").value =
        ⟨"Well | options([[Ask", "why", [], []⟩ ∧
      (parseLine "Well | options([[Ask: why|B]])".toList "").log = [] ∧
      (parseLine "Well ".toList "").value = ⟨"", "Well", [], []⟩ ∧
      (parseMetadata " options([[Ask: why|B]])".toList "").value = ([⟨"Ask: why", "B"⟩], []) := by
  decide +kernel

end Parley.Script
