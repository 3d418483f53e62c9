import Parley.Proofs.Script.LegibleTags

/-!
# Tags read back what was written of them

Whatever text tags are read from, writing them and reading the result gives the same tags,
and the second reading reports nothing (`parseTags_formatTags_parseTags`).  The text may be
malformed; only what was read from it counts.

## Strategy

What was read is legible, and legible tags are read back (`parseTags_formatTags`): no comma
inside a written block separates (`unsplit_formatTag`), and every comma between two blocks does.
-/

namespace Parley.Script

open Parley.Text

/-! ## What is legible is read back -/

theorem exists_join_append (text : List Char) (texts : List (List Char)) (tail : List Char) :
    ∃ c rest, join [',', ' '] (text :: texts) ++ ']' :: tail = text ++ c :: rest ∧
      isWord c = false ∧ c ≠ '[' ∧ isBlank c = false := by
  cases texts with
  | nil => exact ⟨']', tail, by simp [join], by simp, by decide, by decide⟩
  | cons next texts =>
      exact ⟨',', ' ' :: (join [',', ' '] (next :: texts) ++ ']' :: tail),
        by simp [join_cons_cons], by simp, by decide, by decide⟩

theorem not_separates_of_not_breaksBlock {value next : List Char} (hvalue : IsTrimmed value)
    (hnext : IsTrimmed next) (h : ¬ BreaksBlock value next) {seen : List Char}
    (hseen : endsWith [']'] seen = false) {c : Char} (hword : isWord c = false)
    (hopen : c ≠ '[') (hblank : isBlank c = false) (rest : List Char) :
    separates [']'] startsWithTagKey (value.reverse ++ seen) (' ' :: (next ++ c :: rest)) =
      false := by
  rw [separates, Bool.and_eq_false_iff]
  by_cases hlast : value.getLast? = some ']'
  -- The value closes with a bracket, so the next one does not start like a tag.
  · right
    have hkey : startsWithTagKey next = false := by simpa [BreaksBlock, hlast] using h
    have htrim : trimStart (' ' :: (next ++ c :: rest)) = next ++ c :: rest := by
      rw [trimStart, List.dropWhile_cons_of_pos (by decide)]
      cases next with
      | nil => simp [hblank]
      | cons d next => simp [hnext.head?_not_blank rfl]
    rw [htrim, startsWithTagKey_append_cons hword hopen, hkey]
  · left
    rcases List.eq_nil_or_concat value with rfl | ⟨text, d, rfl⟩
    · exact hseen
    · rw [List.concat_eq_append] at hvalue hlast ⊢
      have hd : isBlank d = false := hvalue.getLast?_not_blank (by simp)
      rw [List.reverse_append, List.reverse_singleton, List.append_assoc, List.singleton_append,
        Bool.eq_false_iff, ne_eq, endsWith_bracket_cons hd]
      simpa using hlast

/-- No comma between legible values separates, as long as the first value is not preceded by
a closing bracket. -/
theorem unsplit_join {values : List (List Char)} (h : LegibleValues values)
    {seen : List Char} (hseen : endsWith [']'] seen = false) (tail : List Char) :
    Unsplit [']'] startsWithTagKey seen (join [',', ' '] values) (']' :: tail) := by
  obtain ⟨htrimmed, hcomma, -, hsteady⟩ := h
  induction values generalizing seen with
  | nil => exact .of_not_mem (by simp [join]) _ _
  | cons value values ih =>
      have hvalue : ',' ∉ value := hcomma value List.mem_cons_self
      cases values with
      | nil => exact .of_not_mem hvalue _ _
      | cons next values =>
          rw [List.isChain_cons_cons] at hsteady
          obtain ⟨c, rest, hjoin, hword, hopen, hblank⟩ := exists_join_append next values tail
          have hseparates : separates [']'] startsWithTagKey (value.reverse ++ seen)
              (' ' :: (join [',', ' '] (next :: values) ++ ']' :: tail)) = false := by
            rw [hjoin]
            exact not_separates_of_not_breaksBlock (htrimmed value (by simp))
              (htrimmed next (by simp)) hsteady.1 hseen hword hopen hblank rest
          -- Behind a comma and a space no bracket is seen, so the hypothesis is kept.
          have hseen' : endsWith [']'] (' ' :: ',' :: (value.reverse ++ seen)) = false := by
            rw [endsWith_cons_of_blank (by decide), Bool.eq_false_iff, ne_eq,
              endsWith_bracket_cons (by decide)]
            decide
          have hrest := ih hseen' (fun v hv => htrimmed v (List.mem_cons_of_mem _ hv))
            (fun v hv => hcomma v (List.mem_cons_of_mem _ hv)) hsteady.2
          rw [join_cons_cons, List.append_assoc, unsplit_append_iff]
          refine ⟨.of_not_mem hvalue _ _, ?_⟩
          rw [List.cons_append, List.singleton_append, unsplit_cons_iff, unsplit_cons_iff]
          exact ⟨fun _ => by simpa using hseparates, fun hspace => absurd hspace (by decide),
            hrest⟩

/-- No comma inside a written block separates. -/
theorem unsplit_formatTag {tag : String × List String} (h : LegibleTag tag)
    (seen rest : List Char) : Unsplit [']'] startsWithTagKey seen (formatTag tag) rest := by
  obtain ⟨hkey, hvalues⟩ := h
  have hcomma : ',' ∉ tag.1.toList := by
    intro hmem
    have := hkey.word ',' hmem
    simp at this
  have hseen : endsWith [']'] ('[' :: (tag.1.toList.reverse ++ seen)) = false := by
    rw [Bool.eq_false_iff, ne_eq, endsWith_bracket_cons (by decide)]
    decide
  unfold formatTag
  rw [unsplit_append_iff, unsplit_append_iff, unsplit_append_iff]
  refine ⟨⟨⟨.of_not_mem hcomma _ _, .of_not_mem (by simp) _ _⟩, ?_⟩,
    .of_not_mem (by simp) _ _⟩
  simpa using unsplit_join hvalues hseen rest

theorem startsWithTagKey_key {key : List Char} (h : LegibleKey key) (rest : List Char) :
    startsWithTagKey (key ++ '[' :: rest) = true := by
  obtain ⟨hne, hword⟩ := h
  cases key with
  | nil => exact absurd rfl hne
  | cons c key =>
      have hkey : ∀ d ∈ key, isWord d = true := fun d hd => hword d (List.mem_cons_of_mem _ hd)
      simp [startsWithTagKey, hword c List.mem_cons_self, List.dropWhile_append_of_pos hkey]

/-- The comma between two written blocks separates. -/
theorem separates_formatTag {tag next : String × List String} (hnext : LegibleTag next)
    (lead seen rest : List Char) : separates [']'] startsWithTagKey
      ((lead ++ formatTag tag).reverse ++ seen) (' ' :: (formatTag next ++ rest)) = true := by
  have hcloses : endsWith [']'] ((lead ++ formatTag tag).reverse ++ seen) = true := by
    simp [formatTag, endsWith_bracket_cons (c := ']') (by decide)]
  have hopens : startsWithTagKey (trimStart (' ' :: (formatTag next ++ rest))) = true := by
    obtain ⟨hkey, -⟩ := hnext
    obtain ⟨c, key, hc⟩ := List.exists_cons_of_ne_nil hkey.ne_nil
    have hblank : isBlank c = false := not_isBlank_of_isWord (hkey.word c (by simp [hc]))
    have htrim : trimStart (' ' :: (formatTag next ++ rest)) = formatTag next ++ rest := by
      rw [trimStart, List.dropWhile_cons_of_pos (by decide)]
      simp [formatTag, hc, hblank]
    rw [htrim]
    simpa [formatTag] using startsWithTagKey_key hkey _
  rw [separates, hcloses, hopens]
  rfl

/-- Written tags are split into the written blocks.  All but the first start with a space. -/
theorem splitAfter_formatTags {tag : String × List String} {tags : List (String × List String)}
    (h : ∀ t ∈ tag :: tags, LegibleTag t) {lead : List Char} (hlead : ',' ∉ lead)
    (seen : List Char) :
    splitAfter [']'] startsWithTagKey seen
        (lead ++ join [',', ' '] ((tag :: tags).map formatTag)) =
      (lead ++ formatTag tag) :: tags.map fun t => ' ' :: formatTag t := by
  -- The induction carries `lead` along, which is the space in front of all but the first block.
  induction tags generalizing tag lead seen with
  | nil =>
      refine splitAfter_eq_singleton (unsplit_append_iff.mpr ⟨.of_not_mem hlead _ _, ?_⟩)
      exact unsplit_formatTag (h tag (by simp)) _ _
  | cons next tags ih =>
      have hnext : LegibleTag next := h next (by simp)
      have hfirst : Unsplit [']'] startsWithTagKey seen (lead ++ formatTag tag)
          (',' :: ' ' :: join [',', ' '] ((next :: tags).map formatTag)) :=
        unsplit_append_iff.mpr ⟨.of_not_mem hlead _ _, unsplit_formatTag (h tag (by simp)) _ _⟩
      have hjoin : ∃ rest, join [',', ' '] ((next :: tags).map formatTag) =
          formatTag next ++ rest := by
        cases tags with
        | nil => exact ⟨[], by simp [join]⟩
        | cons last tags => exact ⟨_, by rw [List.map_cons, List.map_cons, join_cons_cons,
            List.append_assoc]⟩
      have hsep : separates [']'] startsWithTagKey ((lead ++ formatTag tag).reverse ++ seen)
          (' ' :: join [',', ' '] ((next :: tags).map formatTag)) = true := by
        obtain ⟨rest, hrest⟩ := hjoin
        rw [hrest]
        exact separates_formatTag hnext lead seen rest
      have hspace : ',' ∉ [' '] := by decide
      have hrest := ih (fun t ht => h t (List.mem_cons_of_mem _ ht)) hspace
        (',' :: ((lead ++ formatTag tag).reverse ++ seen))
      calc splitAfter [']'] startsWithTagKey seen
            (lead ++ join [',', ' '] ((tag :: next :: tags).map formatTag))
          = splitAfter [']'] startsWithTagKey seen ((lead ++ formatTag tag) ++
              ',' :: ' ' :: join [',', ' '] ((next :: tags).map formatTag)) := by
            simp [join_cons_cons]
        _ = (lead ++ formatTag tag) :: (' ' :: formatTag next) ::
              tags.map fun t => ' ' :: formatTag t := by
            rw [splitAfter_append_separator hfirst hsep]
            exact congrArg _ hrest

/-! ## Reading a written block -/

theorem pieces_join_comma_space {values : List (List Char)} {value : List Char}
    (h : ∀ v ∈ value :: values, ',' ∉ v) {lead : List Char} (hlead : ',' ∉ lead) :
    pieces ',' (lead ++ join [',', ' '] (value :: values)) =
      (lead ++ value) :: values.map fun v => ' ' :: v := by
  induction values generalizing value lead with
  | nil =>
      have hvalue : ',' ∉ value := h value (by simp)
      exact pieces_of_not_mem (by simp [join, hlead, hvalue])
  | cons next values ih =>
      have hvalue : ',' ∉ value := h value (by simp)
      have hspace : ',' ∉ [' '] := by decide
      have hrest := ih (fun v hv => h v (List.mem_cons_of_mem _ hv)) hspace
      calc pieces ',' (lead ++ join [',', ' '] (value :: next :: values))
          = pieces ',' ((lead ++ value) ++
              ',' :: ([' '] ++ join [',', ' '] (next :: values))) := by simp [join_cons_cons]
        _ = (lead ++ value) :: (' ' :: next) :: values.map fun v => ' ' :: v := by
            rw [pieces_append_cons (by simp [hlead, hvalue]), hrest]
            rfl

theorem join_not_blank {values : List (List Char)} (h : LegibleValues values)
    (hne : values ≠ []) : (join [',', ' '] values).all isBlank = false := by
  cases values with
  | nil => exact absurd rfl hne
  | cons value values =>
      rw [Bool.eq_false_iff]
      intro hall
      -- One value is not empty, and two have a comma between them.
      cases values with
      | nil => exact h.single (by rw [(h.trimmed value (by simp)).eq_nil_of_all hall])
      | cons next values =>
          have hcomma : isBlank ',' = true := by
            rw [List.all_eq_true] at hall
            exact hall ',' (by simp [join_cons_cons])
          exact absurd hcomma (by decide)

theorem tagValues_join {values : List String} (h : LegibleValues (values.map String.toList)) :
    tagValues (join [',', ' '] (values.map String.toList)) = values := by
  cases values with
  | nil => rfl
  | cons value values =>
      have hpieces := pieces_join_comma_space h.comma List.not_mem_nil
      have htrim : ∀ v ∈ value :: values, trim v.toList = v.toList := fun v hv =>
        h.trimmed v.toList (List.mem_map.mpr ⟨v, hv, rfl⟩)
      have hspace : ∀ v ∈ values, trim (' ' :: v.toList) = v.toList := by
        intro v hv
        have hblank : ∀ c ∈ [' '], isBlank c = true := List.forall_mem_singleton.mpr (by decide)
        exact (strip_append_left hblank v.toList).trans (htrim v (List.mem_cons_of_mem _ hv))
      rw [tagValues, join_not_blank h (by simp), if_neg (by simp)]
      rw [List.nil_append, List.nil_append] at hpieces
      rw [List.map_cons, hpieces, List.map_cons, htrim value (by simp), String.ofList_toList]
      congr 1
      rw [List.map_map, List.map_map]
      conv => rhs; rw [← List.map_id values]
      refine List.map_congr_left fun v hv => ?_
      simp [hspace v hv]

/-- A written block is read as its tag. -/
theorem parseTagBlock_formatTag {tag : String × List String} (h : LegibleTag tag) :
    parseTagBlock (formatTag tag) = some tag := by
  obtain ⟨key, values⟩ := tag
  obtain ⟨hkey, hvalues⟩ := h
  have hread := tagKey_key hkey.word [] (by simpa using hkey.ne_nil)
    (join [',', ' '] (values.map String.toList) ++ [']'])
  have hcut := cutLast_append_cons (List.not_mem_nil : ']' ∉ [])
    (join [',', ' '] (values.map String.toList))
  simp [parseTagBlock, formatTag, hread, hcut, tagValues_join hvalues]

theorem parseTagBlock_space (block : List Char) :
    parseTagBlock (' ' :: block) = parseTagBlock block := by
  simp [parseTagBlock, tagKey]

/-! ## Reading written tags -/

theorem addTagBlock_of_not_mem {tags : Tags} {block : List Char} {tag : String × List String}
    (hparse : parseTagBlock block = some tag) (hnew : tag.1 ∉ tags.keys) (title : String) :
    addTagBlock title tags block = pure ⟨tags.entries ++ [tag]⟩ := by
  have hcontains : tags.contains tag.1 = false := Table.contains_eq_false_iff.mpr hnew
  have hinsert : tags.insert tag.1 tag.2 = ⟨tags.entries ++ [tag]⟩ :=
    congrArg Table.mk (Table.entries_insert_of_not_mem tag.2 hnew)
  simp [addTagBlock, hparse, hcontains, hinsert]

theorem foldlM_addTagBlock {blocks : List (List Char)} {tags : List (String × List String)}
    (hblocks : blocks.map parseTagBlock = tags.map some) {done : List (String × List String)}
    (hnodup : ((done ++ tags).map Prod.fst).Nodup) (title : String) :
    blocks.foldlM (addTagBlock title) (⟨done⟩ : Tags) = pure ⟨done ++ tags⟩ := by
  induction blocks generalizing tags done with
  | nil =>
      obtain rfl : tags = [] := by simpa using hblocks.symm
      simp
  | cons block blocks ih =>
      cases tags with
      | nil => simp at hblocks
      | cons tag tags =>
          rw [List.map_cons, List.map_cons, List.cons.injEq] at hblocks
          have hnew : tag.1 ∉ Table.keys (⟨done⟩ : Tags) := by
            rw [List.map_append, List.nodup_append] at hnodup
            intro hmem
            exact hnodup.2.2 tag.1 hmem tag.1 (by simp) rfl
          have hkeys : ((done ++ [tag] ++ tags).map Prod.fst).Nodup := by simpa using hnodup
          have hrest := ih hblocks.2 hkeys
          rw [List.foldlM_cons, addTagBlock_of_not_mem hblocks.1 hnew, pure_bind]
          simpa using hrest

/-- Legible tags are read back without a report. -/
theorem parseTags_formatTags {tags : Tags} (h : Legible tags) (title : String) :
    parseTags (formatTags tags) title = pure tags := by
  obtain ⟨entries⟩ := tags
  cases entries with
  | nil => rfl
  | cons tag rest =>
      have hlegible : ∀ t ∈ tag :: rest, LegibleTag t := h.tag
      have hsplit := splitAfter_formatTags hlegible List.not_mem_nil []
      have hblank : (formatTags ⟨tag :: rest⟩).all isBlank = false := by
        rw [Bool.eq_false_iff, ne_eq, List.all_eq_true]
        intro hall
        have hopen : isBlank '[' = true := hall '[' (by
          cases rest with
          | nil => simp [formatTags, join, formatTag]
          | cons next rest => simp [formatTags, join_cons_cons, formatTag])
        exact absurd hopen (by decide)
      have hread : ((formatTag tag) :: rest.map fun t => ' ' :: formatTag t).map parseTagBlock =
          (tag :: rest).map some := by
        rw [List.map_cons, List.map_cons, parseTagBlock_formatTag (hlegible tag (by simp)),
          List.map_map]
        congr 1
        refine List.map_congr_left fun t ht => ?_
        rw [Function.comp_apply, parseTagBlock_space,
          parseTagBlock_formatTag (hlegible t (List.mem_cons_of_mem _ ht))]
      have hkeys : (([] ++ tag :: rest).map Prod.fst).Nodup := h.nodup
      have hfold := foldlM_addTagBlock hread hkeys title
      rw [parseTags, hblank, if_neg (by simp), splitTags, splitBetween]
      rw [List.nil_append] at hsplit
      rw [formatTags, hsplit]
      exact hfold

/-- Reading what was written of some tags gives the same keys in the same order with the same
values, and reports nothing, whatever text the tags were read from. -/
theorem parseTags_formatTags_parseTags (raw : List Char) (title other : String) :
    parseTags (formatTags (parseTags raw title).value) other =
      pure (parseTags raw title).value :=
  parseTags_formatTags (legible_parseTags raw title) other

/-- What looks like further blocks is part of the values here, and stays so. -/
example : formatTags (parseTags "a[ x] b , c[ ] , d [y] e".toList "").value =
    "a[x] b, c[ ], d [y]".toList := by
  decide +kernel

end Parley.Script
