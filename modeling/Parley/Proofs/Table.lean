import Mathlib.Data.List.Basic
import Parley.Table

/-!
# Tables without repeated keys

A key is contained in a table exactly if it is listed, and entering one that is not listed
puts it at the end.  So a table that starts without repeated keys never gets any.  Changing
values leaves the keys in place.  Among the entries of some keys only (`filterKeys`), a change of
another key is not seen.
-/

namespace Parley.Table

variable {κ α : Type} [DecidableEq κ]

theorem lookupIn_eq_none_iff {key : κ} {entries : List (κ × α)} :
    lookupIn key entries = none ↔ key ∉ entries.map Prod.fst := by
  induction entries with
  | nil => simp [lookupIn]
  | cons entry rest ih =>
      obtain ⟨k, a⟩ := entry
      by_cases h : k = key
      · simp [lookupIn, h]
      · rw [lookupIn, if_neg h, ih]
        simp [Ne.symm h]

theorem contains_eq_false_iff {t : Table κ α} {key : κ} :
    t.contains key = false ↔ key ∉ t.keys := by
  rw [contains, get?, Option.isSome_eq_false_iff, Option.isNone_iff_eq_none,
    lookupIn_eq_none_iff, keys]

theorem insertIn_of_not_mem {key : κ} {entries : List (κ × α)} (a : α)
    (h : key ∉ entries.map Prod.fst) : insertIn key a entries = entries ++ [(key, a)] := by
  induction entries with
  | nil => rfl
  | cons entry rest ih =>
      obtain ⟨k, b⟩ := entry
      rw [List.map_cons, List.mem_cons, not_or] at h
      rw [insertIn, if_neg (Ne.symm h.1), ih h.2, List.cons_append]

/-- A new key is entered at the end. -/
theorem entries_insert_of_not_mem {t : Table κ α} {key : κ} (a : α) (h : key ∉ t.keys) :
    (t.insert key a).entries = t.entries ++ [(key, a)] :=
  insertIn_of_not_mem a h

theorem get?_modify (t : Table κ α) (key other : κ) (f : α → α) :
    (t.modify key f).get? other = if key = other then (t.get? other).map f else t.get? other := by
  unfold modify
  split
  · rename_i a ha
    rw [get?_insert]
    split
    · rename_i heq
      rw [← heq, ha]
      rfl
    · rfl
  · rename_i hnone
    split
    · rename_i heq
      rw [← heq, hnone]
      rfl
    · rfl

theorem nodup_keys_insert {t : Table κ α} (h : t.keys.Nodup) (key : κ) (a : α) :
    (t.insert key a).keys.Nodup := by
  rw [keys_insert]
  split
  · exact h
  · rename_i hkey
    exact List.nodup_append.mpr ⟨h, by simp, by
      rintro x hx y hy rfl
      rw [List.mem_singleton] at hy
      exact hkey (hy ▸ hx)⟩

/-! ## Values -/

omit [DecidableEq κ] in
theorem keys_map {β : Type} (f : α → β) (t : Table κ α) : (t.map f).keys = t.keys := by
  simp [keys, map, Function.comp_def]

/-- Without repeated keys every entry is found under its key. -/
theorem get?_of_mem_entries {t : Table κ α} (h : t.keys.Nodup) {key : κ} {a : α}
    (hmem : (key, a) ∈ t.entries) : t.get? key = some a := by
  obtain ⟨entries⟩ := t
  simp only [keys] at h
  simp only [get?]
  induction entries with
  | nil => exact absurd hmem (by simp)
  | cons entry rest ih =>
      obtain ⟨k, b⟩ := entry
      rw [List.map_cons, List.nodup_cons] at h
      rw [lookupIn]
      rcases List.mem_cons.mp hmem with heq | hrest
      · obtain ⟨rfl, rfl⟩ := Prod.mk.inj heq
        exact if_pos rfl
      · have hne : k ≠ key := by
          rintro rfl
          exact h.1 (List.mem_map.mpr ⟨(k, a), hrest, rfl⟩)
        rw [if_neg hne]
        exact ih h.2 hrest

/-- Without repeated keys the values are those found under the keys, in their order. -/
theorem values_eq_filterMap {t : Table κ α} (h : t.keys.Nodup) :
    t.values = t.keys.filterMap t.get? := by
  have hfound : ∀ entry ∈ t.entries, t.get? entry.1 = some entry.2 := fun entry hentry =>
    get?_of_mem_entries h hentry
  rw [values, keys, List.filterMap_map]
  exact (List.filterMap_eq_map_iff_forall_eq_some.mpr hfound).symm

/-- The value of a key stays if it satisfies the condition. -/
theorem get?_filterValues {t : Table κ α} {p : α → Bool} {key : κ} {a : α}
    (h : t.get? key = some a) (ha : p a = true) : (t.filterValues p).get? key = some a := by
  obtain ⟨entries⟩ := t
  simp only [get?, filterValues] at h ⊢
  induction entries with
  | nil => exact absurd h (by simp [lookupIn])
  | cons entry rest ih =>
      obtain ⟨k, b⟩ := entry
      rw [lookupIn] at h
      rw [List.filter_cons]
      by_cases hk : k = key
      · rw [if_pos hk, Option.some.injEq] at h
        rw [if_pos (by rw [h]; exact ha), lookupIn, if_pos hk, h]
      · rw [if_neg hk] at h
        split
        · rw [lookupIn, if_neg hk, ih h]
        · exact ih h

/-! ## Entries of some keys -/

theorem eq_or_mem_of_mem_insert {t : Table κ α} {key : κ} {a : α} {entry : κ × α}
    (h : entry ∈ (t.insert key a).entries) : entry = (key, a) ∨ entry ∈ t.entries := by
  obtain ⟨entries⟩ := t
  simp only [insert] at h
  induction entries with
  | nil => exact .inl (List.mem_singleton.mp h)
  | cons first rest ih =>
      obtain ⟨k, b⟩ := first
      rw [insertIn] at h
      split at h
      · rename_i hk
        rcases List.mem_cons.mp h with heq | hmem
        · exact .inl (hk ▸ heq)
        · exact .inr (List.mem_cons_of_mem _ hmem)
      · rcases List.mem_cons.mp h with heq | hmem
        · exact .inr (heq ▸ List.mem_cons_self)
        · exact (ih hmem).imp_right (List.mem_cons_of_mem _)

/-- The entries whose key satisfies `p`. -/
def filterKeys (p : κ → Bool) (t : Table κ α) : Table κ α :=
  ⟨t.entries.filter fun entry => p entry.1⟩

theorem get?_filterKeys {p : κ → Bool} {key : κ} (h : p key = true) (t : Table κ α) :
    (t.filterKeys p).get? key = t.get? key := by
  obtain ⟨entries⟩ := t
  simp only [get?, filterKeys]
  induction entries with
  | nil => rfl
  | cons entry rest ih =>
      obtain ⟨k, a⟩ := entry
      by_cases hk : k = key
      · rw [List.filter_cons_of_pos (by rw [hk]; exact h), lookupIn, lookupIn, if_pos hk, if_pos hk]
      · rw [lookupIn, if_neg hk, List.filter_cons]
        split
        · rw [lookupIn, if_neg hk, ih]
        · exact ih

theorem filterKeys_insert_of_pos {p : κ → Bool} {key : κ} (h : p key = true) (t : Table κ α)
    (a : α) : (t.insert key a).filterKeys p = (t.filterKeys p).insert key a := by
  obtain ⟨entries⟩ := t
  simp only [insert, filterKeys, Table.mk.injEq]
  induction entries with
  | nil => simp [insertIn, h]
  | cons entry rest ih =>
      obtain ⟨k, b⟩ := entry
      by_cases hk : k = key
      · simp [insertIn, hk, h]
      · by_cases hp : p k = true
        · simp [insertIn, hk, hp, ih]
        · simp [insertIn, hk, hp, ih]

theorem filterKeys_insert_of_neg {p : κ → Bool} {key : κ} (h : p key = false) (t : Table κ α)
    (a : α) : (t.insert key a).filterKeys p = t.filterKeys p := by
  obtain ⟨entries⟩ := t
  simp only [insert, filterKeys, Table.mk.injEq]
  induction entries with
  | nil => simp [insertIn, h]
  | cons entry rest ih =>
      obtain ⟨k, b⟩ := entry
      by_cases hk : k = key
      · simp [insertIn, hk, h]
      · rw [insertIn, if_neg hk, List.filter_cons, List.filter_cons, ih]

end Parley.Table
