import Parley.Proofs.Script.WrittenItems

/-!
# Written rows are read back

A group is found by its name and reaches to its closing parenthesis (`value_parseMetadata`).
A row is trimmed, then cut at its first colon and at the first bar after that
(`value_parseLine`).  What kind of row it is shows in its first characters
(`classify_trim_of_writtenRow`, `classify_trim_of_writtenOptions` and
`classify_trim_of_writtenActions`).
-/

namespace Parley.Script

open Parley.Text

/-! ## Groups -/

theorem group?_writeGroup {name : String} {lead contents : List Char} (hname : '(' ∉ name.toList)
    (hlead : '(' ∉ lead) (hcontents : ')' ∉ contents) (rest : List Char) :
    group? name (lead ++ (writeGroup name contents ++ rest)) = some contents := by
  have hmetadata : lead ++ (writeGroup name contents ++ rest) =
      (lead ++ name.toList) ++ '(' :: (contents ++ ')' :: rest) := by
    simp [writeGroup, groupMarker]
  have hafter : after? (name.toList ++ ['(']) (lead ++ (writeGroup name contents ++ rest)) =
      some (contents ++ ')' :: rest) := by
    rw [hmetadata, after?_append_bracket hname (by simp [hlead, hname]),
      if_pos (List.suffix_append _ _)]
  simp [group?, hafter, cutFirst_append_cons hcontents]

/-- A group is not taken for a group of another name of the same length. -/
theorem group?_writeGroup_of_ne {name other : String} {lead contents : List Char}
    (hname : '(' ∉ name.toList) (hother : '(' ∉ other.toList)
    (hlength : name.toList.length = other.toList.length) (hne : name.toList ≠ other.toList)
    (hclosing : ')' ∉ name.toList) (hlead : '(' ∉ lead) (hcontents : IsContents name contents)
    (rest : List Char) :
    group? name (lead ++ (writeGroup other contents ++ rest)) = group? name rest := by
  have hmetadata : lead ++ (writeGroup other contents ++ rest) =
      (lead ++ other.toList) ++ '(' :: (contents ++ ')' :: rest) := by
    simp [writeGroup, groupMarker]
  have hsuffix : ¬ name.toList <:+ lead ++ other.toList := by
    intro h
    have := List.suffix_of_suffix_length_le h (List.suffix_append lead other.toList) hlength.le
    exact hne (this.eq_of_length hlength)
  have hmarker : ')' ∉ groupMarker name := by simp [groupMarker, hclosing]
  unfold group?
  rw [hmetadata, after?_append_bracket hname (by simp [hlead, hother]), if_neg hsuffix]
  have := after?_append_cons hmarker (by simp [groupMarker]) hcontents.noMarker rest
  rw [groupMarker] at this
  rw [this]

theorem group?_nil (name : String) : group? name [] = none := by
  simp [group?, after?]

variable {options : List Choice} {actions : List Action} {lead contents : List Char}

theorem group?_actions_writeGroup_options (hlead : IsGap lead)
    (h : IsContents "actions" contents) (rest : List Char) :
    group? "actions" (lead ++ (writeGroup "options" contents ++ rest)) =
      group? "actions" rest :=
  group?_writeGroup_of_ne (by decide) (by decide) (by decide) (by decide) (by decide)
    (hlead.not_mem (by decide)) h rest

theorem group?_options_writeGroup_actions (hlead : IsGap lead)
    (h : IsContents "options" contents) (rest : List Char) :
    group? "options" (lead ++ (writeGroup "actions" contents ++ rest)) =
      group? "options" rest :=
  group?_writeGroup_of_ne (by decide) (by decide) (by decide) (by decide) (by decide)
    (hlead.not_mem (by decide)) h rest

theorem group?_options (hlead : IsGap lead) (h : ')' ∉ contents) (rest : List Char) :
    group? "options" (lead ++ (writeGroup "options" contents ++ rest)) = some contents :=
  group?_writeGroup (by decide) (hlead.not_mem (by decide)) h rest

theorem group?_actions (hlead : IsGap lead) (h : ')' ∉ contents) (rest : List Char) :
    group? "actions" (lead ++ (writeGroup "actions" contents ++ rest)) = some contents :=
  group?_writeGroup (by decide) (hlead.not_mem (by decide)) h rest

/-- The groups of a spoken row are read back. -/
theorem value_parseMetadata {groups : List Char} (h : WrittenGroups options actions groups)
    (hlead : IsGap lead) (title : String) :
    (parseMetadata (lead ++ groups) title).value = (options, actions) := by
  cases h with
  | @options _ text h htext =>
      have hactions := group?_actions_writeGroup_options hlead htext []
      have hoptions := group?_options hlead htext.noClosing []
      rw [List.append_nil] at hactions hoptions
      simp [parseMetadata, hactions, hoptions, group?_nil, value_gatherOptions h]
  | @actions _ text h htext =>
      have hactions := group?_actions hlead htext.noClosing []
      have hoptions := group?_options_writeGroup_actions hlead htext []
      rw [List.append_nil] at hactions hoptions
      simp [parseMetadata, hactions, hoptions, group?_nil, value_gatherActions h]
  | @optionsFirst _ _ text more gap h htext hgap h' hmore =>
      have hactions := group?_actions hgap hmore []
      rw [List.append_nil] at hactions
      simp [parseMetadata, group?_actions_writeGroup_options hlead htext, hactions,
        group?_options hlead htext.noClosing, value_gatherOptions h, value_gatherActions h']
  | @actionsFirst _ _ text more gap h htext hgap h' hmore =>
      have hoptions := group?_options hgap hmore []
      rw [List.append_nil] at hoptions
      simp [parseMetadata, group?_options_writeGroup_actions hlead htext, hoptions,
        group?_actions hlead htext.noClosing, value_gatherActions h, value_gatherOptions h']

/-! ## Rows -/

theorem dropWhile_append_of_trimmed {cs : List Char} (h : IsTrimmed cs) (hne : cs ≠ [])
    (rest : List Char) : (cs ++ rest).dropWhile isBlank = cs ++ rest := by
  obtain ⟨c, cs, rfl⟩ := List.exists_cons_of_ne_nil hne
  have hc : isBlank c = false := h.head?_not_blank rfl
  simp [hc]

theorem dropEnd_append_groups {groups : List Char} (h : WrittenGroups options actions groups)
    (before : List Char) : dropEnd isBlank (before ++ groups) = before ++ groups := by
  have hgroup : ∀ (start : List Char) (name : String) (contents : List Char),
      dropEnd isBlank (start ++ writeGroup name contents) = start ++ writeGroup name contents := by
    intro start name contents
    have hclosing : start ++ writeGroup name contents =
        (start ++ (groupMarker name ++ contents)) ++ [')'] := by simp [writeGroup]
    rw [hclosing, dropEnd_append_singleton (by decide)]
  cases h with
  | options h htext => exact hgroup ..
  | actions h htext => exact hgroup ..
  | optionsFirst h htext hgap h' hmore =>
      simpa only [List.append_assoc] using hgroup (before ++ (writeGroup .. ++ _)) ..
  | actionsFirst h htext hgap h' hmore =>
      simpa only [List.append_assoc] using hgroup (before ++ (writeGroup .. ++ _)) ..

/-- White space before an empty text may be dropped. -/
theorem WrittenText.dropWhile {text : String} {row : List Char}
    (h : WrittenText text options actions row) (htrim : IsTrimmed text.toList) :
    WrittenText text options actions (row.dropWhile isBlank) := by
  by_cases hne : text.toList = []
  -- Without a text the white space up to the bar is all that can go.
  · cases h with
    | bare => rw [hne, List.dropWhile_nil, ← hne]; exact .bare text
    | @grouped _ _ before after groups hbefore hafter hgroups =>
        have hrow : (text.toList ++ (before ++ '|' :: (after ++ groups))).dropWhile isBlank =
            text.toList ++ ([] ++ '|' :: (after ++ groups)) := by
          rw [hne, List.nil_append, List.dropWhile_append_of_pos hbefore.blank]
          rfl
        rw [hrow]
        exact .grouped text isGap_nil hafter hgroups
  · cases h with
    | bare =>
        have := dropWhile_append_of_trimmed htrim hne []
        rw [List.append_nil] at this
        rw [this]
        exact .bare text
    | grouped hbefore hafter hgroups =>
        rw [dropWhile_append_of_trimmed htrim hne]
        exact .grouped text hbefore hafter hgroups

/-- What follows the speaker is read back, though white space was stripped from its end. -/
theorem value_parseLine_of_cutSpeaker {line : Line} {row text : List Char}
    (htext : IsPhrase line.text.toList) (hbar : '|' ∉ line.text.toList)
    (h : WrittenText line.text line.options line.actions text) (hlead : IsGap lead)
    (hcut : cutSpeaker row = (line.speaker.toList, dropEnd isBlank (lead ++ text)))
    (title : String) : (parseLine row title).value = line := by
  have hleadBar : '|' ∉ lead := hlead.not_mem (by decide)
  obtain ⟨speaker, said, options, actions⟩ := line
  cases h with
  | bare =>
      have hnone : cutFirst '|' (dropEnd isBlank (lead ++ said.toList)) = none := by
        obtain ⟨end_, heq, -⟩ := exists_eq_dropEnd_append isBlank (lead ++ said.toList)
        have hnot : '|' ∉ lead ++ said.toList := by simp [hleadBar, hbar]
        rw [heq, List.mem_append, not_or] at hnot
        exact cutFirst_eq_none_iff.mpr hnot.1
      have htrim : trim (dropEnd isBlank (lead ++ said.toList)) = said.toList := by
        rw [trim, strip_dropEnd, strip_append_left hlead.blank, ← trim, htext.trimmed.eq]
      simp only [parseLine, hcut, hnone, htrim, Logged.value_pure, String.ofList_toList]
  | @grouped _ _ before after groups hbefore hafter hgroups =>
      have hbarText : '|' ∉ lead ++ (said.toList ++ before) := by
        simp [hleadBar, hbar, hbefore.not_mem (c := '|') (by decide)]
      have hrest : dropEnd isBlank (lead ++ (said.toList ++ (before ++ '|' :: (after ++ groups))))
          = (lead ++ (said.toList ++ before)) ++ '|' :: (after ++ groups) := by
        have : lead ++ (said.toList ++ (before ++ '|' :: (after ++ groups))) =
            (lead ++ (said.toList ++ before)) ++ '|' :: (after ++ groups) := by simp
        rw [this, dropEnd_append_cons (by decide), dropEnd_append_groups hgroups]
      have htrim : trim (lead ++ (said.toList ++ before)) = said.toList := by
        rw [trim_gap_append_gap hlead hbefore, htext.trimmed.eq]
      rw [hrest] at hcut
      simp only [parseLine, hcut, cutFirst_append_cons hbarText, htrim, Logged.value_bind,
        value_parseMetadata hgroups hafter, Logged.value_pure, String.ofList_toList]

theorem trim_spoken {speaker before rest : List Char} (h : IsTrimmed speaker)
    (hne : speaker ≠ []) : trim (speaker ++ (before ++ ':' :: rest)) =
      speaker ++ (before ++ ':' :: dropEnd isBlank rest) := by
  rw [← List.append_assoc, trim, strip_append_cons (by decide),
    dropWhile_append_of_trimmed h hne, List.append_assoc]

/-- A written row is read back. -/
theorem value_parseLine {line : Line} {row : List Char} (h : WrittenRow line row)
    (title : String) : (parseLine (trim row) title).value = line := by
  cases h with
  | @spoken before after row hspeaker hne hcolon hopening htext hbar hbefore hafter hrow =>
      have hcolonSpeaker : ':' ∉ line.speaker.toList ++ before := by
        simp [hcolon, hbefore.not_mem (c := ':') (by decide)]
      have hspeakerTrim : trim (line.speaker.toList ++ before) = line.speaker.toList := by
        rw [trim, strip_append_right hbefore.blank, ← trim, hspeaker.trimmed.eq]
      refine value_parseLine_of_cutSpeaker htext hbar hrow hafter ?_ title
      rw [trim_spoken hspeaker.trimmed hne, cutSpeaker, ← List.append_assoc,
        cutFirst_append_cons hcolonSpeaker]
      simp only [hspeakerTrim]
  | narrated hspeaker htext hbar hopening hrow hne hcolon =>
      have hnone : cutFirst ':' (trim row) = none :=
        cutFirst_eq_none_iff.mpr fun h => hcolon (mem_of_mem_strip h)
      refine value_parseLine_of_cutSpeaker htext hbar (hrow.dropWhile htext.trimmed)
        isGap_nil ?_ title
      rw [cutSpeaker, hnone, hspeaker]
      rfl

/-! ## Kinds of rows -/

theorem classify_of_cons {c : Char} (hc : c ≠ '[') (cs : List Char) :
    Row.classify (c :: cs) = .spoken (c :: cs) := by
  have hc' : '[' ≠ c := fun h => hc h.symm
  simp [Row.classify, startsWith, hc']

/-- The first character of a row shows that it is spoken. -/
theorem classify_trim_of_writtenRow {line : Line} {row : List Char} (h : WrittenRow line row) :
    Row.classify (trim row) = .spoken (trim row) := by
  -- Every case comes down to a first character that stays when the row is trimmed.
  have hkept : ∀ {start : List Char} (rest : List Char), IsTrimmed start → start ≠ [] →
      start.head? ≠ some '[' → Row.classify (start ++ rest) = .spoken (start ++ rest) := by
    intro start rest hstart hne hopening
    obtain ⟨c, start, rfl⟩ := List.exists_cons_of_ne_nil hne
    exact classify_of_cons (by simpa using hopening) _
  obtain ⟨speaker, said, options, actions⟩ := line
  cases h with
  | spoken hspeaker hne hcolon hopening htext hbar hbefore hafter hrow =>
      rw [trim_spoken hspeaker.trimmed hne]
      exact hkept _ hspeaker.trimmed hne hopening
  | narrated hspeaker htext hbar hopening hrow hne hcolon =>
      cases hrow with
      | bare =>
          rw [htext.trimmed.eq]
          simpa using hkept [] htext.trimmed hne hopening
      | @grouped _ _ before after groups hbefore hafter hgroups =>
          rw [← List.append_assoc, trim, strip_append_cons (by decide)]
          -- Without a text the row starts with the bar.
          by_cases hsaid : said.toList = []
          · have : before.dropWhile isBlank = [] := List.dropWhile_eq_nil_iff.mpr hbefore.blank
            rw [hsaid, List.nil_append, this]
            exact classify_of_cons (by decide) _
          · rw [dropWhile_append_of_trimmed htext.trimmed hsaid, List.append_assoc]
            exact hkept _ htext.trimmed hsaid hopening

theorem classify_trim_of_isGap {row : List Char} (h : IsGap row) :
    Row.classify (trim row) = .blank := by
  rw [trim_eq_nil_iff.mpr (List.all_eq_true.mpr h.blank)]
  rfl

/-- A written list reaches from an opening to a closing bracket. -/
theorem WrittenList.isTrimmed {α : Type} {write : α → List Char} {as : List α}
    {text : List Char} (h : WrittenList write as text)
    (hwrite : ∀ a, ∃ body, write a = '[' :: (body ++ [']'])) : IsTrimmed text := by
  refine .of_ends ?_ ?_
  · intro c hc
    obtain ⟨a, -, rest, rfl⟩ := h.exists_eq_append
    obtain ⟨body, hbody⟩ := hwrite a
    obtain rfl : '[' = c := by simpa [hbody] using hc
    decide
  · intro c hc
    -- The last bracket is that of the last item.
    suffices text.getLast? = some ']' by
      obtain rfl : ']' = c := by simpa [this] using hc
      decide
    clear hc
    induction h with
    | single a =>
        obtain ⟨body, hbody⟩ := hwrite a
        rw [hbody, ← List.cons_append, List.getLast?_concat]
    | cons a hbefore hafter hrest ih => simp [List.getLast?_append, List.getLast?_cons, ih]

theorem trim_gap_list_gap {α : Type} {write : α → List Char} {as : List α}
    {before text after : List Char} (hbefore : IsGap before) (hafter : IsGap after)
    (h : WrittenList write as text)
    (hwrite : ∀ a, ∃ body, write a = '[' :: (body ++ [']'])) :
    trim (before ++ (text ++ after)) = text := by
  rw [trim_gap_append_gap hbefore hafter, (h.isTrimmed hwrite).eq]

theorem classify_trim_of_writtenOptions {before text after : List Char}
    (hbefore : IsGap before) (hafter : IsGap after) (h : WrittenOptions options text) :
    Row.classify (trim (before ++ (text ++ after))) = .options (splitOptions text) := by
  have hwrite : ∀ choice, ∃ body, writeChoice choice = '[' :: (body ++ [']']) := fun choice =>
    ⟨'[' :: (choice.key.toList ++ '|' :: choice.destination.toList) ++ [']'],
      by simp [writeChoice]⟩
  rw [trim_gap_list_gap hbefore hafter h.1 hwrite]
  obtain ⟨choice, -, rest, rfl⟩ := h.1.exists_eq_append
  rfl

theorem classify_trim_of_writtenActions {before text after : List Char}
    (hbefore : IsGap before) (hafter : IsGap after) (h : WrittenActions actions text) :
    Row.classify (trim (before ++ (text ++ after))) = .actions (splitActions text) := by
  rw [trim_gap_list_gap hbefore hafter h.1 fun action => ⟨actionBody action, rfl⟩]
  obtain ⟨action, hmem, rest, rfl⟩ := h.1.exists_eq_append
  -- The bracket of an action is single, since its tag starts with another character.
  obtain ⟨c, tag, htag⟩ := List.exists_cons_of_ne_nil (h.2 action hmem).tag_ne
  have hc : '[' ≠ c := by
    rintro rfl
    exact (h.2 action hmem).tag.noOpening (by simp [htag])
  have hbody : ∃ more, writeAction action ++ rest = '[' :: c :: more := by
    unfold writeAction actionBody
    split <;> simp [htag]
  obtain ⟨more, hmore⟩ := hbody
  simp [hmore, Row.classify, startsWith, hc]

end Parley.Script
