import Parley.Proofs.Script.WrittenRows

/-!
# Bodies read back what was written

Every way of writing a list of dialogue lines is read as those lines (`value_parseBody`).

A body is cut at its line breaks, and a written row holds none.  The rows are then read one by
one, with the line that was opened last waiting for further blocks: `value_assemble_tail`
carries it across the rows that belong to it, and `value_assemble` puts the lines together.
-/

namespace Parley.Script

open Parley.Text

variable {options : List Choice} {actions : List Action} {line whole : Line}

/-! ## Line breaks -/

theorem WrittenList.noBreak {α : Type} {write : α → List Char} {as : List α}
    {text : List Char} (h : WrittenList write as text) (hwrite : ∀ a ∈ as, '\n' ∉ write a) :
    '\n' ∉ text := by
  induction h with
  | single a => exact hwrite a (by simp)
  | @cons a rest before after text hbefore hafter hrest ih =>
      have ha := hwrite a (by simp)
      have htext := ih fun b hb => hwrite b (List.mem_cons_of_mem _ hb)
      simp [ha, htext, hbefore.isGap.noBreak, hafter.isGap.noBreak]

theorem WrittenOptions.noBreak {text : List Char} (h : WrittenOptions options text) :
    '\n' ∉ text :=
  h.1.noBreak fun choice hc => by
    simp [writeChoice, (h.2 choice hc).key.noBreak, (h.2 choice hc).destination.noBreak]

theorem WrittenActions.noBreak {text : List Char} (h : WrittenActions actions text) :
    '\n' ∉ text := by
  refine h.1.noBreak fun action ha => ?_
  unfold writeAction actionBody
  split <;> simp [(h.2 action ha).tag.noBreak, (h.2 action ha).param.noBreak]

theorem WrittenGroups.noBreak {groups : List Char} (h : WrittenGroups options actions groups) :
    '\n' ∉ groups := by
  have hgroup : ∀ {name : String} {contents : List Char}, '\n' ∉ name.toList →
      '\n' ∉ contents → '\n' ∉ writeGroup name contents := by
    intro name contents hname hcontents
    simp [writeGroup, groupMarker, hname, hcontents]
  have hoptions : '\n' ∉ "options".toList := by decide
  have hactions : '\n' ∉ "actions".toList := by decide
  cases h with
  | options h htext => exact hgroup hoptions h.noBreak
  | actions h htext => exact hgroup hactions h.noBreak
  | optionsFirst h htext hgap h' hmore =>
      simp [hgroup hoptions h.noBreak, hgroup hactions h'.noBreak, hgap.noBreak]
  | actionsFirst h htext hgap h' hmore =>
      simp [hgroup hactions h.noBreak, hgroup hoptions h'.noBreak, hgap.noBreak]

theorem WrittenText.noBreak {text : String} {row : List Char}
    (h : WrittenText text options actions row) (htext : '\n' ∉ text.toList) : '\n' ∉ row := by
  cases h with
  | bare => exact htext
  | grouped hbefore hafter hgroups =>
      simp [htext, hbefore.noBreak, hafter.noBreak, hgroups.noBreak]

theorem WrittenRow.noBreak {row : List Char} (h : WrittenRow line row) : '\n' ∉ row := by
  cases h with
  | spoken hspeaker hne hcolon hopening htext hbar hbefore hafter hrow =>
      simp [hspeaker.noBreak, hbefore.noBreak, hafter.noBreak, hrow.noBreak htext.noBreak]
  | narrated hspeaker htext hbar hopening hrow hne hcolon => exact hrow.noBreak htext.noBreak

theorem WrittenTail.noBreak {rows : List (List Char)} (h : WrittenTail line rows whole) :
    ∀ row ∈ rows, '\n' ∉ row := by
  induction h with
  | done line => simp
  | blank hrow h ih => exact List.forall_mem_cons.mpr ⟨hrow.noBreak, ih⟩
  | options hbefore hafter htext h ih =>
      refine List.forall_mem_cons.mpr ⟨?_, ih⟩
      simp [hbefore.noBreak, hafter.noBreak, htext.noBreak]
  | actions hbefore hafter htext h ih =>
      refine List.forall_mem_cons.mpr ⟨?_, ih⟩
      simp [hbefore.noBreak, hafter.noBreak, htext.noBreak]

theorem WrittenRows.noBreak {lines : List Line} {rows : List (List Char)}
    (h : WrittenRows lines rows) : ∀ row ∈ rows, '\n' ∉ row := by
  induction h with
  | nil => simp
  | blank hrow h ih => exact List.forall_mem_cons.mpr ⟨hrow.noBreak, ih⟩
  | line hbefore hafter hrow htail h ih =>
      refine List.forall_mem_cons.mpr ⟨?_, List.forall_mem_append.mpr ⟨htail.noBreak, ih⟩⟩
      simp [hbefore.noBreak, hafter.noBreak, hrow.noBreak]

/-! ## Putting lines together -/

/-- The rows of a body after it was cut. -/
def classified (rows : List (List Char)) : List Row :=
  rows.map fun row => Row.classify (trim row)

theorem classified_cons (row : List Char) (rows : List (List Char)) :
    classified (row :: rows) = Row.classify (trim row) :: classified rows := rfl

/-- Reading the rows that belong to a line completes the line. -/
theorem value_assemble_tail {tail : List (List Char)} (h : WrittenTail line tail whole)
    (title : String) (number : Nat) (rest : List Row) :
    (assemble title number (some line) (classified tail ++ rest)).value =
      (assemble title (number + tail.length) (some whole) rest).value := by
  induction h generalizing number with
  | done line => rfl
  | @blank line whole row rows hrow h ih =>
      rw [classified_cons, classify_trim_of_isGap hrow, List.cons_append, assemble,
        Logged.value_bind, ih, List.length_cons, Nat.add_right_comm, Nat.add_assoc]
  | @options line whole options before text after rows hbefore hafter htext h ih =>
      rw [classified_cons, classify_trim_of_writtenOptions hbefore hafter htext,
        List.cons_append, assemble, Logged.value_bind, value_gatherOptions htext, ih,
        List.length_cons, Nat.add_right_comm, Nat.add_assoc]
  | @actions line whole actions before text after rows hbefore hafter htext h ih =>
      rw [classified_cons, classify_trim_of_writtenActions hbefore hafter htext,
        List.cons_append, assemble, Logged.value_bind, value_gatherActions htext, ih,
        List.length_cons, Nat.add_right_comm, Nat.add_assoc]

/-- Reading written rows gives the line that is still open and then the written ones. -/
theorem value_assemble {lines : List Line} {rows : List (List Char)}
    (h : WrittenRows lines rows) (title : String) (number : Nat) (current : Option Line) :
    (assemble title number current (classified rows)).value = current.toList ++ lines := by
  induction h generalizing number current with
  | nil =>
      rw [classified, List.map_nil, assemble, Logged.value_pure, List.append_nil]
  | @blank lines row rows hrow h ih =>
      rw [classified_cons, classify_trim_of_isGap hrow, assemble, Logged.value_bind, ih]
  | @line first whole lines before row after tail rows hbefore hafter hrow htail h ih =>
      have hread : (parseLine (trim row) title).value = first := value_parseLine hrow title
      rw [classified_cons, trim_gap_append_gap hbefore hafter,
        classify_trim_of_writtenRow hrow, assemble, Logged.value_bind, Logged.value_bind,
        Logged.value_pure, hread, classified, List.map_append, ← classified, ← classified,
        value_assemble_tail htail, ih]
      rfl

theorem value_parseBody_eq (body : List Char) (title : String) :
    (parseBody body title).value =
      (assemble title 1 none (classified (pieces '\n' body))).value := by
  cases body with
  | nil => rfl
  | cons c cs => rfl

/-- Every way of writing some lines of dialogue is read as those lines. -/
theorem value_parseBody {lines : List Line} {body : List Char} (h : Written lines body)
    (title : String) : (parseBody body title).value = lines := by
  obtain ⟨rows, hrows, rfl⟩ := h
  rw [value_parseBody_eq]
  by_cases hne : rows = []
  · subst hne
    cases hrows
    rfl
  · rw [pieces_join hne hrows.noBreak, value_assemble hrows]
    rfl

/-- Commas, bars and colons inside the items of a row with both groups, a block after it, and
a row without a speaker. -/
theorem value_parseBody_gate :
    Written
        [⟨"Guard", "Halt: who?", [⟨"A friend, a|b", "gate"⟩, ⟨"", "end"⟩],
            [⟨"draw: now, fast", "1"⟩]⟩,
          ⟨"", "Silence.", [], [⟨"wait", ""⟩]⟩]
        (join ['\n'] (["",
          "Guard: Halt: who? | actions([draw: now, fast|1]) options([[A friend, a|b|gate]])",
          "  [[|end]]", " ", "Silence.", "[wait]"].map String.toList)) ∧
      (parseBody (join ['\n'] (["",
          "Guard: Halt: who? | actions([draw: now, fast|1]) options([[A friend, a|b|gate]])",
          "  [[|end]]", " ", "Silence.", "[wait]"].map String.toList)) "yard").value =
        [⟨"Guard", "Halt: who?", [⟨"A friend, a|b", "gate"⟩, ⟨"", "end"⟩],
            [⟨"draw: now, fast", "1"⟩]⟩,
          ⟨"", "Silence.", [], [⟨"wait", ""⟩]⟩] := by
  have hgap : IsGap [' '] := by decide +kernel
  have hspaces : IsGap [' ', ' '] := by decide +kernel
  have hgroups : WrittenGroups [⟨"A friend, a|b", "gate"⟩] [⟨"draw: now, fast", "1"⟩]
      (writeGroup "actions" (writeAction ⟨"draw: now, fast", "1"⟩) ++
        ([' '] ++ writeGroup "options" (writeChoice ⟨"A friend, a|b", "gate"⟩))) :=
    .actionsFirst ⟨.single _, by decide +kernel⟩ (by decide +kernel) hgap
      ⟨.single _, by decide +kernel⟩ (by decide +kernel)
  have hspeaker : IsPhrase "Guard".toList := by decide +kernel
  have hquestion : IsPhrase "Halt: who?".toList := by decide +kernel
  have hguard : WrittenRow
      ⟨"Guard", "Halt: who?", [⟨"A friend, a|b", "gate"⟩], [⟨"draw: now, fast", "1"⟩]⟩ _ :=
    .spoken hspeaker (by decide +kernel) (by decide +kernel) (by decide +kernel) hquestion
      (by decide +kernel) isGap_nil hgap (.grouped _ hgap hgap hgroups)
  have hblock : WrittenOptions [⟨"", "end"⟩] (writeChoice ⟨"", "end"⟩) :=
    ⟨.single _, by decide +kernel⟩
  have hsilence : WrittenRow ⟨"", "Silence.", [], []⟩ "Silence.".toList :=
    .narrated rfl (by decide +kernel) (by decide +kernel) (by decide +kernel) (.bare _)
      (by decide +kernel) (by decide +kernel)
  have hwait : WrittenActions [⟨"wait", ""⟩] (writeAction ⟨"wait", ""⟩) :=
    ⟨.single _, by decide +kernel⟩
  have hrows := WrittenRows.blank isGap_nil (.line isGap_nil isGap_nil hguard
    (.options hspaces isGap_nil hblock (.blank hgap (.done _)))
    (.line isGap_nil isGap_nil hsilence (.actions isGap_nil isGap_nil hwait (.done _)) .nil))
  exact ⟨⟨_, hrows, by decide +kernel⟩,
    value_parseBody ⟨_, hrows, by decide +kernel⟩ "yard"⟩

end Parley.Script
