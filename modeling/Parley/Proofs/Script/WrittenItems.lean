import Parley.Proofs.Script.Split
import Parley.Proofs.Script.Written
import Parley.Proofs.Text.Cut

/-!
# Written items are read back

An item is read from what stands between two separating commas, so two things have to be
settled: that an item is read back with spaces around it (`parseOption_writeChoice`,
`parseAction_writeAction`), and that a written list is cut exactly between its items
(`filterMap_splitAfter`).

The second holds because a written item has no closing bracket before its end.  A comma inside
it comes after an opening bracket and before any closing one, so it separates nothing.
-/

namespace Parley

namespace Text

/-! ## White space -/

theorem IsGap.blank {cs : List Char} (h : IsGap cs) : ∀ c ∈ cs, isBlank c = true :=
  fun c hc => (h c hc).1

theorem IsGap.noBreak {cs : List Char} (h : IsGap cs) : '\n' ∉ cs :=
  fun hc => (h '\n' hc).2 rfl

theorem IsGap.not_mem {cs : List Char} (h : IsGap cs) {c : Char} (hc : isBlank c = false) :
    c ∉ cs := by
  intro hmem
  rw [h.blank c hmem] at hc
  exact absurd hc (by simp)

theorem IsSpaces.isGap {cs : List Char} (h : IsSpaces cs) : IsGap cs := by
  intro c hc
  rw [h c hc]
  exact ⟨by decide, by decide⟩

theorem isSpaces_nil : IsSpaces [] := by simp [IsSpaces]

theorem isGap_nil : IsGap [] := by simp [IsGap]

theorem trim_gap_append_gap {before after : List Char} (hbefore : IsGap before)
    (hafter : IsGap after) (cs : List Char) : trim (before ++ (cs ++ after)) = trim cs :=
  strip_append_append hbefore.blank hafter.blank cs

theorem IsLabel.not_all_isBlank {cs : List Char} (h : IsLabel cs) (hne : cs ≠ []) :
    cs.all isBlank = false := by
  rw [Bool.eq_false_iff]
  exact fun hall => hne (h.trimmed.eq_nil_of_all hall)

end Text

namespace Script

open Text

/-! ## Labels -/

theorem not_isBracket_of_label {cs : List Char} (h : IsLabel cs) {c : Char} (hmem : c ∈ cs)
    (hblank : isBlank c = false) : isBracket c = false := by
  have hspace : c ≠ ' ' := by rintro rfl; exact absurd hblank (by decide)
  have hopening : c ≠ '[' := by rintro rfl; exact h.noOpening hmem
  have hclosing : c ≠ ']' := by rintro rfl; exact h.noClosing hmem
  simp [isBracket, hspace, hopening, hclosing]

theorem head?_label {cs : List Char} (h : IsLabel cs) {c : Char} (hc : cs.head? = some c) :
    isBracket c = false :=
  not_isBracket_of_label h (List.mem_of_mem_head? hc) (h.trimmed.head?_not_blank hc)

theorem getLast?_label {cs : List Char} (h : IsLabel cs) {c : Char}
    (hc : cs.getLast? = some c) : isBracket c = false :=
  not_isBracket_of_label h (List.mem_of_getLast? hc) (h.trimmed.getLast?_not_blank hc)

/-- Brackets and spaces around two labels with a bar between them are stripped. -/
theorem strip_label_bar_label {cs ds : List Char} (hcs : IsLabel cs) (hds : IsLabel ds)
    (hne : ds ≠ []) : strip isBracket (cs ++ '|' :: ds) = cs ++ '|' :: ds := by
  refine strip_eq_self ?_ ?_
  · intro c hc
    cases cs with
    | nil =>
        obtain rfl : '|' = c := by simpa using hc
        decide
    | cons d cs => exact head?_label hcs (by simpa using hc)
  · intro c hc
    obtain ⟨d, ds, rfl⟩ := List.exists_cons_of_ne_nil hne
    exact getLast?_label hds (by simpa [List.getLast?_cons] using hc)

theorem strip_label {cs : List Char} (h : IsLabel cs) : strip isBracket cs = cs :=
  strip_eq_self (fun _ hc => head?_label h hc) fun _ hc => getLast?_label h hc

/-- Spaces and brackets around the body of an item are stripped. -/
theorem strip_item {before after opening closing : List Char} (hbefore : IsSpaces before)
    (hafter : IsSpaces after) (hopening : ∀ c ∈ opening, isBracket c = true)
    (hclosing : ∀ c ∈ closing, isBracket c = true) (body : List Char) :
    strip isBracket (before ++ (opening ++ body ++ closing ++ after)) =
      strip isBracket body := by
  have hstart : ∀ c ∈ before ++ opening, isBracket c = true := by
    intro c hc
    rcases List.mem_append.mp hc with hc | hc
    · rw [hbefore c hc]; decide
    · exact hopening c hc
  have hend : ∀ c ∈ closing ++ after, isBracket c = true := by
    intro c hc
    rcases List.mem_append.mp hc with hc | hc
    · exact hclosing c hc
    · rw [hafter c hc]; decide
  simpa using strip_append_append hstart hend body

/-! ## One item -/

/-- A written option is read back, with spaces around it. -/
theorem parseOption_writeChoice {choice : Choice} (h : choice.Writable)
    {before after : List Char} (hbefore : IsSpaces before) (hafter : IsSpaces after) :
    parseOption (before ++ (writeChoice choice ++ after)) = some choice := by
  obtain ⟨hkey, hdestination, hne, hbar⟩ := h
  have hstrip : strip isBracket (before ++ (writeChoice choice ++ after)) =
      choice.key.toList ++ '|' :: choice.destination.toList := by
    have hopening : ∀ c ∈ ['[', '['], isBracket c = true := by simp [isBracket]
    have hclosing : ∀ c ∈ [']', ']'], isBracket c = true := by simp [isBracket]
    have := strip_item hbefore hafter hopening hclosing
      (choice.key.toList ++ '|' :: choice.destination.toList)
    rw [strip_label_bar_label hkey hdestination hne] at this
    simpa [writeChoice] using this
  rw [parseOption, hstrip, cutLast_append_cons hbar]
  simp only [hdestination.not_all_isBlank hne, Bool.false_eq_true, if_false,
    hkey.trimmed.eq, hdestination.trimmed.eq, String.ofList_toList]

/-- A written action is read back, with spaces around it. -/
theorem parseAction_writeAction {action : Action} (h : action.Writable)
    {before after : List Char} (hbefore : IsSpaces before) (hafter : IsSpaces after) :
    parseAction (before ++ (writeAction action ++ after)) = some action := by
  obtain ⟨htag, hparam, hne, hparamBar, htagBar⟩ := h
  have hstrip : strip isBracket (before ++ (writeAction action ++ after)) =
      actionBody action := by
    have hbody : strip isBracket (actionBody action) = actionBody action := by
      unfold actionBody
      split
      · exact strip_label htag
      · rename_i hparamNe
        exact strip_label_bar_label htag hparam hparamNe
    have hopening : ∀ c ∈ ['['], isBracket c = true := by simp [isBracket]
    have hclosing : ∀ c ∈ [']'], isBracket c = true := by simp [isBracket]
    have := strip_item hbefore hafter hopening hclosing (actionBody action)
    rw [hbody] at this
    simpa [writeAction] using this
  rw [parseAction, hstrip]
  by_cases hempty : action.param.toList = []
  · have hcut : cutLast '|' action.tag.toList = none := cutLast_eq_none_iff.mpr (htagBar hempty)
    obtain ⟨tag, param⟩ := action
    obtain rfl : param = "" := String.toList_eq_nil_iff.mp hempty
    simp only [actionBody, hempty, if_true, hcut]
    simp [hne]
  · simp only [actionBody, hempty, if_false, cutLast_append_cons hparamBar,
      htag.not_all_isBlank hne, Bool.false_eq_true, htag.trimmed.eq, hparam.trimmed.eq,
      String.ofList_toList]

/-! ## Lists of items -/

/-- What keeps an item apart from its neighbours in a list, and lets it be read. -/
structure IsItem {α : Type} (closing : List Char) (opens : List Char → Bool)
    (read : List Char → Option α) (a : α) (text : List Char) : Prop where
  unsplit : ∀ seen rest, Unsplit closing opens seen text rest
  closes : ∀ seen, endsWith closing (text.reverse ++ seen) = true
  opens : ∀ rest, opens (trimStart (text ++ rest)) = true
  reads : ∀ {before after}, IsSpaces before → IsSpaces after →
    read (before ++ (text ++ after)) = some a

theorem isItem_writeChoice {choice : Choice} (h : choice.Writable) :
    IsItem [']', ']'] (startsWith ['[', '[']) parseOption choice (writeChoice choice) := by
  have hclosing : ']' ∉ '[' :: (choice.key.toList ++ '|' :: choice.destination.toList) := by
    simp [h.key.noClosing, h.destination.noClosing]
  refine ⟨?_, ?_, ?_, fun hbefore hafter => parseOption_writeChoice h hbefore hafter⟩
  · intro seen rest
    exact unsplit_append_iff.mpr ⟨unsplit_of_open [']'] hclosing _ _,
      .of_not_mem (by simp) _ _⟩
  · intro seen
    simp only [writeChoice, List.reverse_append, List.append_assoc]
    rfl
  · intro rest
    simp only [writeChoice, List.cons_append]
    rfl

theorem isItem_writeAction {action : Action} (h : action.Writable) :
    IsItem [']'] (startsWith ['[']) parseAction action (writeAction action) := by
  have hclosing : ']' ∉ actionBody action := by
    unfold actionBody
    split <;> simp [h.tag.noClosing, h.param.noClosing]
  refine ⟨?_, ?_, ?_, fun hbefore hafter => parseAction_writeAction h hbefore hafter⟩
  · intro seen rest
    exact unsplit_append_iff.mpr ⟨unsplit_of_open [] hclosing _ _,
      .of_not_mem (by simp) _ _⟩
  · intro seen
    simp only [writeAction, List.reverse_append, List.append_assoc]
    rfl
  · intro rest
    simp only [writeAction, List.cons_append]
    rfl

theorem WrittenList.exists_eq_append {α : Type} {write : α → List Char} {as : List α}
    {text : List Char} (h : WrittenList write as text) :
    ∃ a ∈ as, ∃ rest, text = write a ++ rest := by
  cases h with
  | single a => exact ⟨a, by simp, [], by simp⟩
  | cons a hbefore hafter hrest => exact ⟨a, by simp, _, rfl⟩

/-- A written list is cut between its items, and every item is read. -/
theorem filterMap_splitAfter {α : Type} {closing : List Char} {opens : List Char → Bool}
    {read : List Char → Option α} {write : α → List Char} {as : List α} {text : List Char}
    (h : WrittenList write as text)
    (hitem : ∀ a ∈ as, IsItem closing opens read a (write a)) {lead : List Char}
    (hlead : IsSpaces lead) (seen : List Char) :
    (splitAfter closing opens seen (lead ++ text)).filterMap read = as := by
  have hcomma : ∀ {cs : List Char}, IsSpaces cs → ',' ∉ cs := fun hcs =>
    hcs.isGap.not_mem (by decide)
  induction h generalizing lead seen with
  | single a =>
      have ha := hitem a (by simp)
      have hsplit : Unsplit closing opens seen (lead ++ write a) [] :=
        unsplit_append_iff.mpr ⟨.of_not_mem (hcomma hlead) _ _, ha.unsplit _ _⟩
      have hread := ha.reads hlead isSpaces_nil
      rw [List.append_nil] at hread
      rw [splitAfter_eq_singleton hsplit, List.filterMap_cons_some hread]
      rfl
  | @cons a rest before after text hbefore hafter hrest ih =>
      have ha := hitem a (by simp)
      have hpart : Unsplit closing opens seen (lead ++ (write a ++ before))
          (',' :: (after ++ text)) := by
        rw [unsplit_append_iff, unsplit_append_iff]
        exact ⟨.of_not_mem (hcomma hlead) _ _, ha.unsplit _ _,
          .of_not_mem (hcomma hbefore) _ _⟩
      have hsep : separates closing opens ((lead ++ (write a ++ before)).reverse ++ seen)
          (after ++ text) = true := by
        obtain ⟨b, hb, more, rfl⟩ := hrest.exists_eq_append
        have hcloses : endsWith closing ((lead ++ (write a ++ before)).reverse ++ seen) =
            true := by
          have hblank : ∀ c ∈ before.reverse, isBlank c = true := fun c hc =>
            hbefore.isGap.blank c (List.mem_reverse.mp hc)
          simp only [List.reverse_append, List.append_assoc]
          rw [endsWith_append_of_blank hblank]
          exact ha.closes _
        have hopens : opens (trimStart (after ++ (write b ++ more))) = true := by
          rw [trimStart, List.dropWhile_append_of_pos hafter.isGap.blank]
          exact (hitem b (List.mem_cons_of_mem _ hb)).opens more
        rw [separates, hcloses, hopens]
        rfl
      have hread := ha.reads hlead hbefore
      have htext : lead ++ (write a ++ (before ++ ',' :: (after ++ text))) =
          (lead ++ (write a ++ before)) ++ ',' :: (after ++ text) := by simp
      rw [htext, splitAfter_append_separator hpart hsep, List.filterMap_cons_some hread,
        ih (fun b hb => hitem b (List.mem_cons_of_mem _ hb)) hafter]

theorem value_gatherOptions {options : List Choice} {text : List Char}
    (h : WrittenOptions options text) (title : String) :
    (gatherOptions title (splitOptions text)).value = options :=
  filterMap_splitAfter h.1 (fun choice hc => isItem_writeChoice (h.2 choice hc)) isSpaces_nil []

theorem value_gatherActions {actions : List Action} {text : List Char}
    (h : WrittenActions actions text) (title : String) :
    (gatherActions title (splitActions text)).value = actions :=
  filterMap_splitAfter h.1 (fun action ha => isItem_writeAction (h.2 action ha)) isSpaces_nil []

end Script

end Parley
