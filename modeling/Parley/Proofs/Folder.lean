import Mathlib.Data.List.Nodup
import Mathlib.Data.String.Basic
import Parley.Folder
import Parley.Proofs.Graph.Valid

/-!
# Entries of folders

The entries of a folder have different names, so the conversation files among them come in one
order only (`conversationFiles_sorted`).  When entries are deleted, those that are left are found
as before (`lookup_without`), and the conversation files among them keep their order
(`conversationFiles_filter`).
-/

namespace Parley

/-- A file holds a conversation: it can be read, and what it holds is conversation data. -/
def FileContent.IsConversation (content : FileContent) : Prop :=
  ∃ data, content.readJson = .ok data ∧ Record.Valid data

instance (content : FileContent) : Decidable content.IsConversation :=
  match h : content.readJson with
  | .ok data => decidable_of_iff (Record.Valid data) <| by
      constructor
      · exact fun hvalid => ⟨data, h, hvalid⟩
      · rintro ⟨found, hfound, hvalid⟩
        rw [h, Except.ok.injEq] at hfound
        exact hfound ▸ hvalid
  | .error failure => isFalse fun ⟨data, hdata, _⟩ => absurd (h.symm.trans hdata) (by simp)

namespace Folder

/-- What lies in a folder, with its name. -/
abbrev Entry := String × FileContent

variable {folder : Folder} {place : List String} {entries : List Entry} {p : String → Bool}

/-! ## Names -/

/-- No name comes twice. -/
theorem pairwise_distinct (entries : List Entry) :
    (distinct entries).Pairwise fun a b => a.1 ≠ b.1 := by
  induction entries with
  | nil => exact .nil
  | cons first rest ih =>
      rw [distinct, List.pairwise_cons]
      refine ⟨fun other hother => ?_, ih.filter _⟩
      have hname := (List.mem_filter.mp hother).2
      exact Ne.symm (by simpa using hname)

theorem distinct_filter (p : String → Bool) (entries : List Entry) :
    distinct (entries.filter fun entry => p entry.1) =
      (distinct entries).filter fun entry => p entry.1 := by
  induction entries with
  | nil => rfl
  | cons first rest ih =>
      rw [distinct, List.filter_cons, List.filter_cons]
      by_cases hfirst : p first.1 = true
      · rw [if_pos hfirst, if_pos hfirst, distinct, ih, List.filter_filter, List.filter_filter]
        simp only [Bool.and_comm]
      -- Whatever has the name of an entry that is left out is left out with it.
      · rw [if_neg hfirst, if_neg hfirst, ih, List.filter_filter]
        apply List.filter_congr
        intro entry _
        by_cases hname : entry.1 = first.1
        · simp [hname, hfirst]
        · simp [hname]

/-! ## The order of files -/

/-- Whether the name of an entry is that of a conversation file. -/
def Named (entry : Entry) : Bool :=
  ending.isSuffixOf entry.1.toList

@[simp] theorem conversationFiles_nil : conversationFiles [] = [] :=
  List.mergeSort_nil

theorem conversationFiles_perm (entries : List Entry) :
    (conversationFiles entries).Perm (entries.filter Named) :=
  List.mergeSort_perm ..

theorem pairwise_le_conversationFiles (entries : List Entry) :
    (conversationFiles entries).Pairwise fun a b => a.1 ≤ b.1 := by
  have htrans : ∀ a b c : Entry, decide (a.1 ≤ b.1) = true → decide (b.1 ≤ c.1) = true →
      decide (a.1 ≤ c.1) = true := by
    intro a b c hab hbc
    rw [decide_eq_true_iff] at hab hbc ⊢
    exact le_trans hab hbc
  have htotal : ∀ a b : Entry, (decide (a.1 ≤ b.1) || decide (b.1 ≤ a.1)) = true := by
    intro a b
    rw [Bool.or_eq_true, decide_eq_true_iff, decide_eq_true_iff]
    exact le_total a.1 b.1
  have hsorted := List.pairwise_mergeSort htrans htotal (entries.filter Named)
  exact hsorted.imp fun h => of_decide_eq_true h

/-- Conversation files of different names come in the order of their names. -/
theorem conversationFiles_sorted (h : entries.Pairwise fun a b => a.1 ≠ b.1) :
    (conversationFiles entries).Pairwise fun a b => a.1 < b.1 := by
  have hne : (conversationFiles entries).Pairwise fun a b => a.1 ≠ b.1 :=
    ((h.filter Named).perm (conversationFiles_perm entries).symm fun h => Ne.symm h)
  exact ((pairwise_le_conversationFiles entries).and hne).imp fun h => lt_of_le_of_ne h.1 h.2

theorem eq_of_name_eq (h : entries.Pairwise fun a b => a.1 ≠ b.1) {a b : Entry}
    (ha : a ∈ entries) (hb : b ∈ entries) (hname : a.1 = b.1) : a = b :=
  List.inj_on_of_nodup_map (List.pairwise_map.mpr h) ha hb hname

/-- The conversation files that are left keep their order. -/
theorem conversationFiles_filter (h : entries.Pairwise fun a b => a.1 ≠ b.1)
    (p : String → Bool) :
    conversationFiles (entries.filter fun entry => p entry.1) =
      (conversationFiles entries).filter fun entry => p entry.1 := by
  have hperm : (conversationFiles (entries.filter fun entry => p entry.1)).Perm
      ((conversationFiles entries).filter fun entry => p entry.1) := by
    refine (conversationFiles_perm _).trans ?_
    rw [List.filter_filter]
    refine List.Perm.trans ?_ ((conversationFiles_perm entries).symm.filter _)
    rw [List.filter_filter]
    simp only [Bool.and_comm, List.Perm.refl]
  have hleft := conversationFiles_sorted (h.filter fun entry => p entry.1)
  have hright := (conversationFiles_sorted h).filter fun entry => p entry.1
  refine List.Perm.eq_of_pairwise ?_ hleft hright hperm
  intro a b _ _ hab hba
  exact absurd (lt_trans hab hba) (lt_irrefl _)

/-! ## Deleting entries -/

/-- Whether a way leads through no entry whose name satisfies `p`. -/
def avoids (p : String → Bool) (way : List String × FileContent) : Bool :=
  Option.all (fun entry => !p entry.1) <| entry? way

/-- The folder after the entries at a place whose names satisfy `p` have been deleted, with all
that is in them. -/
def without (folder : Folder) (place : List String) (p : String → Bool) : Folder :=
  { folder with
    files := folder.files.filter fun (path, content) =>
      (below? place path).all fun way => avoids p (way, content) }

/-- The ways that lead on from a place, the last one first. -/
def waysFrom (folder : Folder) (place : List String) : List (List String × FileContent) :=
  (folder.files.filterMap fun (path, content) =>
    (below? place path).map fun way => (way, content)).reverse

theorem waysFrom_without (folder : Folder) (place : List String) (p : String → Bool) :
    (folder.without place p).waysFrom place = (folder.waysFrom place).filter (avoids p) := by
  rw [waysFrom, waysFrom, List.filter_reverse, List.filter_filterMap, without,
    List.filterMap_filter]
  congr 1
  apply List.filterMap_congr
  rintro ⟨path, content⟩ -
  cases hway : below? place path with
  | none => simp [hway]
  | some way => cases hkept : avoids p (way, content) <;> simp [hway, hkept, Option.filter]

theorem filter_filterMap_of_avoids (p : String → Bool)
    (ways : List (List String × FileContent)) :
    (ways.filter (avoids p)).filterMap entry? =
      (ways.filterMap entry?).filter fun entry => !p entry.1 := by
  rw [List.filterMap_filter, List.filter_filterMap]
  apply List.filterMap_congr
  intro way _
  rw [avoids]
  cases hentry : entry? way with
  | none => simp
  | some entry => cases hname : p entry.1 <;> simp [Option.filter, hname]

/-- What lies at the place itself is no entry of it, and is kept. -/
theorem find?_isEmpty_of_avoids (p : String → Bool)
    (ways : List (List String × FileContent)) :
    (ways.filter (avoids p)).find? (fun way => way.1.isEmpty) =
      ways.find? fun way => way.1.isEmpty := by
  rw [List.find?_filter]
  congr 1
  funext way
  obtain ⟨steps, content⟩ := way
  cases steps with
  | nil => rfl
  | cons name steps => simp

theorem lookup_eq (folder : Folder) (place : List String) :
    folder.lookup place =
      match ((folder.waysFrom place).find? fun way => way.1.isEmpty).map Prod.snd with
      | some .folder => .folder (distinct ((folder.waysFrom place).filterMap entry?))
      | some content => .file content
      | none =>
        if place.isEmpty || !(folder.waysFrom place).isEmpty then
          .folder (distinct ((folder.waysFrom place).filterMap entry?))
        else .missing := rfl

/-- The entries that are found at a place. -/
theorem entries_of_lookup (h : folder.lookup place = .folder entries) :
    entries = distinct ((folder.waysFrom place).filterMap entry?) := by
  rw [lookup_eq] at h
  split at h
  · exact (Place.folder.inj h).symm
  · exact absurd h (by simp)
  · split at h
    · exact (Place.folder.inj h).symm
    · exact absurd h (by simp)

/-- The entries at a place have different names. -/
theorem pairwise_of_lookup (h : folder.lookup place = .folder entries) :
    entries.Pairwise fun a b => a.1 ≠ b.1 := by
  rw [entries_of_lookup h]
  exact pairwise_distinct _

/-- The entries that are not deleted are found as before.  If none is left, the place may no longer
be there. -/
theorem lookup_without (h : folder.lookup place = .folder entries) (p : String → Bool) :
    let left := entries.filter fun entry => !p entry.1
    (folder.without place p).lookup place = .folder left ∨
      (folder.without place p).lookup place = .missing ∧ left = [] := by
  intro left
  have hleft : left = distinct (((folder.without place p).waysFrom place).filterMap entry?) := by
    rw [waysFrom_without, filter_filterMap_of_avoids, distinct_filter fun name => !p name,
      ← entries_of_lookup h]
  rw [lookup_eq] at h ⊢
  rw [← hleft, waysFrom_without, find?_isEmpty_of_avoids]
  rw [waysFrom_without] at hleft
  split at h
  · exact .inl rfl
  · exact absurd h (by simp)
  · split
    · exact .inl rfl
    · rename_i hnone
      refine .inr ⟨rfl, ?_⟩
      rw [hleft]
      simp only [Bool.or_eq_true, Bool.not_eq_true', not_or, Bool.not_eq_false,
        List.isEmpty_iff] at hnone
      rw [hnone.2]
      rfl

end Folder

end Parley
