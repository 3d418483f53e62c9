import Mathlib.Data.List.Chain
import Parley.Proofs.Script.Split
import Parley.Proofs.Table
import Parley.Proofs.Text.Classes
import Parley.Proofs.Text.Cut
import Parley.Script.Tags

/-!
# Legible tags

`Legible` says which tags can be read back once they are written.  Keys are non-empty and made
of word characters, values are trimmed and free of commas, and no value that ends with a bracket
is followed by one that starts like another tag.

Tags that were read, from whatever text, are legible (`legible_parseTags`).  The last condition
holds because the comma between the two values was not taken for a separator of blocks: trimming
the values takes nothing away that the test for separators looks at.
-/

namespace Parley.Script

open Parley.Text

/-! ## The start of a tag -/

theorem startsWithTagKey_append {text : List Char} (h : startsWithTagKey text = true)
    (more : List Char) : startsWithTagKey (text ++ more) = true := by
  cases text with
  | nil => simp [startsWithTagKey] at h
  | cons c rest =>
      simp only [startsWithTagKey, Bool.and_eq_true, List.cons_append] at h ⊢
      refine ⟨h.1, ?_⟩
      rw [List.dropWhile_append]
      split
      · rename_i hnil
        rw [List.isEmpty_iff.mp hnil] at h
        simp at h
      -- The bracket behind the key is there already, so the key cannot grow.
      · cases hdrop : rest.dropWhile isWord with
        | nil => rw [hdrop] at h; simp at h
        | cons d ds => rw [hdrop] at h; simpa using h.2

/-- What follows a text does not make it start like a tag, if it begins with a character
that can stand neither in a key nor after one. -/
theorem startsWithTagKey_append_cons {c : Char} (hword : isWord c = false) (hopen : c ≠ '[')
    (text rest : List Char) : startsWithTagKey (text ++ c :: rest) = startsWithTagKey text := by
  cases text with
  | nil => simp [startsWithTagKey, hword]
  | cons d text =>
      simp only [startsWithTagKey, List.cons_append]
      rw [List.dropWhile_append]
      split
      · rename_i hnil
        rw [List.isEmpty_iff.mp hnil, List.dropWhile_cons_of_neg (by simp [hword])]
        simp [Ne.symm hopen]
      · rename_i hne
        cases hdrop : text.dropWhile isWord with
        | nil => simp [hdrop] at hne
        | cons e es => simp

theorem tagKey_key {key : List Char} (hword : ∀ c ∈ key, isWord c = true) (word : List Char)
    (hne : word ++ key ≠ []) (rest : List Char) :
    tagKey word (key ++ '[' :: rest) = some (word.reverse ++ key, rest) := by
  induction key generalizing word with
  | nil =>
      have hw : word.isEmpty = false := by simpa using hne
      simp [tagKey, hw]
  | cons c key ih =>
      have hc : isWord c = true := hword c List.mem_cons_self
      have hopen : c ≠ '[' := by
        rintro rfl
        simp at hc
      rw [List.cons_append, tagKey, if_neg hopen, if_pos hc,
        ih (fun d hd => hword d (List.mem_cons_of_mem _ hd)) (c :: word) (by simp)]
      simp

/-- The key is a stretch of word characters before a bracket. -/
theorem eq_append_of_tagKey {word text key rest : List Char}
    (hword : ∀ c ∈ word, isWord c = true) (h : tagKey word text = some (key, rest)) :
    key ≠ [] ∧ (∀ c ∈ key, isWord c = true) ∧
      ∃ before, word.reverse ++ text = before ++ (key ++ '[' :: rest) := by
  induction text generalizing word with
  | nil => simp [tagKey] at h
  | cons c text ih =>
      rw [tagKey] at h
      by_cases hopen : c = '['
      · rw [if_pos hopen] at h
        by_cases hempty : word.isEmpty = true
        · rw [if_pos hempty] at h
          obtain ⟨hne, hkey, before, hbefore⟩ := ih (by simp) h
          exact ⟨hne, hkey, word.reverse ++ c :: before, by simpa using hbefore⟩
        · rw [if_neg hempty] at h
          obtain ⟨rfl, rfl⟩ := Prod.mk.inj (Option.some.inj h)
          refine ⟨by simpa using hempty, by simpa using hword, [], by simp [hopen]⟩
      · rw [if_neg hopen] at h
        by_cases hc : isWord c = true
        · rw [if_pos hc] at h
          have hword' : ∀ d ∈ c :: word, isWord d = true := by simpa [hc] using hword
          obtain ⟨hne, hkey, before, hbefore⟩ := ih hword' h
          exact ⟨hne, hkey, before, by simpa using hbefore⟩
        · rw [if_neg hc] at h
          obtain ⟨hne, hkey, before, hbefore⟩ := ih (by simp) h
          exact ⟨hne, hkey, word.reverse ++ c :: before, by simpa using hbefore⟩

/-! ## Legible tags -/

/-- Two neighbouring values between which a comma would be taken for the end of a block. -/
def BreaksBlock (value next : List Char) : Prop :=
  value.getLast? = some ']' ∧ startsWithTagKey next = true

/-- A list of values that can be read back. -/
structure LegibleValues (values : List (List Char)) : Prop where
  trimmed : ∀ value ∈ values, IsTrimmed value
  comma : ∀ value ∈ values, ',' ∉ value
  /-- A single empty value would be read as none. -/
  single : values ≠ [[]]
  steady : values.IsChain fun value next => ¬ BreaksBlock value next

/-- A key that can be read back. -/
structure LegibleKey (key : List Char) : Prop where
  ne_nil : key ≠ []
  word : ∀ c ∈ key, isWord c = true

/-- A tag that can be read back. -/
def LegibleTag (tag : String × List String) : Prop :=
  LegibleKey tag.1.toList ∧ LegibleValues (tag.2.map String.toList)

/-- Tags that can be read back. -/
structure Legible (tags : Tags) : Prop where
  tag : ∀ tag ∈ tags.entries, LegibleTag tag
  nodup : tags.keys.Nodup

/-! ## What was read is legible -/

theorem join_append_cons_cons (glue : List Char) (before : List (List Char))
    (text next : List Char) (after : List (List Char)) :
    ∃ left right, join glue (before ++ text :: next :: after) =
      left ++ (text ++ (glue ++ (next ++ right))) := by
  have hnext : ∃ right, join glue (next :: after) = next ++ right := by
    cases after with
    | nil => exact ⟨[], by simp [join]⟩
    | cons last after => exact ⟨glue ++ join glue (last :: after), by simp [join]⟩
  induction before with
  | nil =>
      obtain ⟨right, hright⟩ := hnext
      exact ⟨[], right, by simp [join_cons_cons, hright]⟩
  | cons first before ih =>
      obtain ⟨left, right, ih⟩ := ih
      refine ⟨first ++ (glue ++ left), right, ?_⟩
      cases before with
      | nil =>
          rw [List.nil_append] at ih
          rw [List.cons_append, List.nil_append, join_cons_cons, ih]
          simp
      | cons second before =>
          rw [List.cons_append] at ih
          rw [List.cons_append, List.cons_append, join_cons_cons, ih]
          simp

/-- A comma that would break a block after its neighbours are trimmed breaks it before. -/
theorem separates_of_breaksBlock {value next : List Char}
    (h : BreaksBlock (trim value) (trim next)) (before after : List Char) :
    separates [']'] startsWithTagKey ((before ++ value).reverse) (next ++ after) = true := by
  obtain ⟨start, end_, hvalue, -, hend⟩ := exists_eq_append_strip isBlank value
  obtain ⟨start', end_', hnext, hstart', -⟩ := exists_eq_append_strip isBlank next
  rw [← trim] at hvalue hnext
  obtain ⟨text, hlast⟩ := List.getLast?_eq_some_iff.mp h.1
  -- Trimming took away nothing but blanks, which the test for a bracket passes over.
  have hcloses : endsWith [']'] ((before ++ value).reverse) = true := by
    have hblank : ∀ c ∈ end_.reverse, isBlank c = true := fun c hc =>
      hend c (List.mem_reverse.mp hc)
    have hreverse : (before ++ value).reverse =
        end_.reverse ++ ']' :: (before ++ (start ++ text)).reverse := by
      rw [hvalue, hlast]
      simp
    rw [endsWith_bracket_iff, hreverse, List.dropWhile_append_of_pos hblank]
    rfl
  have hopens : startsWithTagKey (trimStart (next ++ after)) = true := by
    have hkeep : ((trim next ++ end_') ++ after).dropWhile isBlank =
        trim next ++ (end_' ++ after) := by
      cases hfirst : trim next with
      | nil => simp [hfirst, startsWithTagKey, BreaksBlock] at h
      | cons c rest =>
          have hc : isBlank c = false :=
            head?_strip (show (trim next).head? = some c by rw [hfirst]; rfl)
          simp [hc]
    rw [trimStart]
    conv => lhs; rw [hnext]
    rw [List.append_assoc, List.dropWhile_append_of_pos hstart', hkeep]
    exact startsWithTagKey_append h.2 _
  rw [separates, hcloses, hopens]
  rfl

/-- The values between the brackets of a block, if there are any. -/
theorem legibleValues_trim_pieces {seen before inner tail rest : List Char}
    (hblank : inner.all isBlank = false)
    (h : Unsplit [']'] startsWithTagKey seen (before ++ (inner ++ ']' :: tail)) rest) :
    LegibleValues ((pieces ',' inner).map trim) := by
  refine ⟨?_, ?_, ?_, ?_⟩
  · intro value hvalue
    obtain ⟨piece, -, rfl⟩ := List.mem_map.mp hvalue
    exact .trim piece
  · intro value hvalue
    obtain ⟨piece, hpiece, rfl⟩ := List.mem_map.mp hvalue
    exact fun hcomma => not_mem_of_mem_pieces hpiece (mem_of_mem_strip hcomma)
  -- A single empty value would mean that there is nothing but blanks between the brackets.
  · intro hsingle
    obtain ⟨piece, hpieces, htrim⟩ := List.map_eq_singleton_iff.mp hsingle
    have hinner : inner = piece := by
      have := join_pieces ',' inner
      rw [hpieces] at this
      exact this.symm
    rw [trim_eq_nil_iff, ← hinner, hblank] at htrim
    exact absurd htrim (by simp)
  -- A comma between two values that break the block would have split it when it was read.
  · rw [List.isChain_map, List.isChain_iff_forall_rel_of_append_cons_cons]
    intro value next earlier later hpieces hbreaks
    obtain ⟨left, right, hjoin⟩ := join_append_cons_cons [','] earlier value next later
    rw [← hpieces, join_pieces, List.singleton_append] at hjoin
    have hunsplit := h (before ++ (left ++ value)) (next ++ (right ++ ']' :: tail))
      (by rw [hjoin]; simp)
    have hsep := separates_of_breaksBlock hbreaks (seen.reverse ++ (before ++ left))
      (right ++ ']' :: (tail ++ rest))
    have hseen : (seen.reverse ++ (before ++ left) ++ value).reverse =
        (before ++ (left ++ value)).reverse ++ seen := by simp
    have hafter : next ++ (right ++ ']' :: (tail ++ rest)) =
        next ++ (right ++ ']' :: tail) ++ rest := by simp
    rw [hseen, hafter, hunsplit] at hsep
    exact absurd hsep (by simp)

theorem map_toList_tagValues (inner : List Char) : (tagValues inner).map String.toList =
    if inner.all isBlank then [] else (pieces ',' inner).map trim := by
  unfold tagValues
  split <;> simp

theorem LegibleValues.nil : LegibleValues [] :=
  ⟨by simp, by simp, by simp, .nil⟩

/-- A tag read from a block of a split text is legible. -/
theorem legibleTag_of_parseTagBlock {seen block rest : List Char}
    {tag : String × List String} (h : parseTagBlock block = some tag)
    (hunsplit : Unsplit [']'] startsWithTagKey seen block rest) : LegibleTag tag := by
  simp only [parseTagBlock, Option.bind_eq_bind, Option.bind_eq_some_iff, Prod.exists] at h
  obtain ⟨key, text, hkey, inner, tail, hcut, htag⟩ := h
  obtain rfl : (String.ofList key, tagValues inner) = tag := by simpa using htag
  obtain ⟨hne, hword, before, hblock⟩ := eq_append_of_tagKey (by simp) hkey
  obtain ⟨rfl, -⟩ := eq_append_of_cutLast hcut
  refine ⟨⟨by simpa using hne, by simpa using hword⟩, ?_⟩
  rw [map_toList_tagValues]
  split
  · exact .nil
  · rename_i hblank
    have hwhole : block = (before ++ (key ++ ['['])) ++ (inner ++ ']' :: tail) := by
      simpa using hblock
    exact legibleValues_trim_pieces (by simpa using hblank) (hwhole ▸ hunsplit)

theorem legible_empty : Legible Table.empty :=
  ⟨by simp [Table.empty], by simp⟩

theorem legible_addTagBlock {tags : Tags} (htags : Legible tags) {seen block rest : List Char}
    (hunsplit : Unsplit [']'] startsWithTagKey seen block rest) (title : String) :
    Legible (addTagBlock title tags block).value := by
  unfold addTagBlock
  split
  · exact htags
  · rename_i key values hparse
    split
    · exact htags
    · rename_i hkey
      have hnew : key ∉ tags.keys := Table.contains_eq_false_iff.mp (by simpa using hkey)
      refine ⟨?_, Table.nodup_keys_insert htags.nodup key values⟩
      intro tag htag
      rw [Logged.value_pure, Table.entries_insert_of_not_mem values hnew,
        List.mem_append, List.mem_singleton] at htag
      rcases htag with htag | rfl
      · exact htags.tag tag htag
      · exact legibleTag_of_parseTagBlock hparse hunsplit

theorem legible_foldlM {blocks : List (List Char)}
    (hblocks : ∀ block ∈ blocks, ∃ seen rest,
      Unsplit [']'] startsWithTagKey seen block rest)
    {tags : Tags} (htags : Legible tags) (title : String) :
    Legible (blocks.foldlM (addTagBlock title) tags).value := by
  induction blocks generalizing tags with
  | nil => exact htags
  | cons block blocks ih =>
      obtain ⟨seen, rest, hunsplit⟩ := hblocks block List.mem_cons_self
      rw [List.foldlM_cons, Logged.value_bind]
      exact ih (fun b hb => hblocks b (List.mem_cons_of_mem _ hb))
        (legible_addTagBlock htags hunsplit title)

/-- Tags that were read are legible. -/
theorem legible_parseTags (raw : List Char) (title : String) :
    Legible (parseTags raw title).value := by
  unfold parseTags
  split
  · exact legible_empty
  · refine legible_foldlM ?_ legible_empty title
    intro block hblock
    obtain ⟨left, right, -, hunsplit⟩ := exists_context_of_mem_splitAfter hblock
    exact ⟨_, _, hunsplit⟩

end Parley.Script
