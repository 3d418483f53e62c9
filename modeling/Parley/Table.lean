/-!
# Ordered tables

A table assigns a value to each of finitely many keys and lists its keys in the order in
which they were first entered.  Entering a key again changes its value and not its place.
-/

namespace Parley

/-- A finite table; keys keep the order of their first entry. -/
structure Table (κ α : Type) where
  entries : List (κ × α)
  deriving DecidableEq, Repr, Inhabited

namespace Table

variable {κ α β : Type}

def empty : Table κ α := ⟨[]⟩

/-- The keys, in the order of first entry. -/
def keys (t : Table κ α) : List κ :=
  t.entries.map Prod.fst

/-- The values, in the order of their keys. -/
def values (t : Table κ α) : List α :=
  t.entries.map Prod.snd

def size (t : Table κ α) : Nat :=
  t.entries.length

/-- The table with a function applied to every value. -/
def map (f : α → β) (t : Table κ α) : Table κ β :=
  ⟨t.entries.map fun (key, a) => (key, f a)⟩

/-- The entries whose value satisfies `p`. -/
def filterValues (p : α → Bool) (t : Table κ α) : Table κ α :=
  ⟨t.entries.filter fun entry => p entry.2⟩

@[simp] theorem keys_empty : (empty : Table κ α).keys = [] := rfl

variable [DecidableEq κ]

/-- The value of a key in a list of entries. -/
def lookupIn (key : κ) : List (κ × α) → Option α
  | [] => none
  | (k, a) :: rest => if k = key then some a else lookupIn key rest

/-- The entries with a key set to a value: in place if it is listed, at the end if not. -/
def insertIn (key : κ) (a : α) : List (κ × α) → List (κ × α)
  | [] => [(key, a)]
  | (k, b) :: rest => if k = key then (k, a) :: rest else (k, b) :: insertIn key a rest

def get? (t : Table κ α) (key : κ) : Option α :=
  lookupIn key t.entries

/-- The table with `key` set to `a`. -/
def insert (t : Table κ α) (key : κ) (a : α) : Table κ α :=
  ⟨insertIn key a t.entries⟩

/-- The table without `key`. -/
def erase (t : Table κ α) (key : κ) : Table κ α :=
  ⟨t.entries.filter fun entry => entry.1 ≠ key⟩

def contains (t : Table κ α) (key : κ) : Bool :=
  (t.get? key).isSome

/-- The table with the value of one listed key changed by `f`. -/
def modify (t : Table κ α) (key : κ) (f : α → α) : Table κ α :=
  match t.get? key with
  | some a => t.insert key (f a)
  | none => t

/-- The table of a list of entries, later ones taking precedence. -/
def ofList (entries : List (κ × α)) : Table κ α :=
  entries.foldl (fun t (key, a) => t.insert key a) empty

/-! ## Look-up after a change -/

@[simp] theorem get?_empty (key : κ) : (empty : Table κ α).get? key = none := rfl

theorem lookupIn_insertIn (key other : κ) (a : α) (entries : List (κ × α)) :
    lookupIn other (insertIn key a entries) =
      if key = other then some a else lookupIn other entries := by
  induction entries with
  | nil => simp [insertIn, lookupIn]
  | cons entry rest ih =>
    obtain ⟨k, b⟩ := entry
    by_cases hk : k = key
    · by_cases ho : key = other <;> simp [insertIn, lookupIn, hk, ho]
    · by_cases ho : k = other
      · subst ho
        simp [insertIn, lookupIn, hk, Ne.symm hk]
      · simp [insertIn, lookupIn, hk, ho, ih]

theorem get?_insert (t : Table κ α) (key other : κ) (a : α) :
    (t.insert key a).get? other = if key = other then some a else t.get? other :=
  lookupIn_insertIn key other a t.entries

@[simp] theorem get?_insert_self (t : Table κ α) (key : κ) (a : α) :
    (t.insert key a).get? key = some a := by
  simp [get?_insert]

/-- What is found is listed. -/
theorem mem_entries_of_get? {t : Table κ α} {key : κ} {a : α} (h : t.get? key = some a) :
    (key, a) ∈ t.entries := by
  obtain ⟨entries⟩ := t
  simp only [get?] at h
  induction entries with
  | nil => exact absurd h (by simp [lookupIn])
  | cons entry rest ih =>
      obtain ⟨k, b⟩ := entry
      rw [lookupIn] at h
      split at h
      · rename_i hk
        rw [hk, Option.some.inj h]
        exact List.mem_cons_self
      · exact List.mem_cons_of_mem _ (ih h)

theorem mem_values_of_get? {t : Table κ α} {key : κ} {a : α} (h : t.get? key = some a) :
    a ∈ t.values :=
  List.mem_map_of_mem (mem_entries_of_get? h)

theorem lookupIn_map {β : Type} (f : α → β) (key : κ) (entries : List (κ × α)) :
    lookupIn key (entries.map fun (k, a) => (k, f a)) = (lookupIn key entries).map f := by
  induction entries with
  | nil => rfl
  | cons entry rest ih =>
      obtain ⟨k, a⟩ := entry
      by_cases h : k = key
      · simp [lookupIn, h]
      · simpa [lookupIn, h] using ih

theorem get?_map {β : Type} (f : α → β) (t : Table κ α) (key : κ) :
    (t.map f).get? key = (t.get? key).map f :=
  lookupIn_map f key t.entries

theorem lookupIn_filter (key other : κ) (entries : List (κ × α)) :
    lookupIn other (entries.filter fun entry => entry.1 ≠ key) =
      if key = other then none else lookupIn other entries := by
  induction entries with
  | nil => simp [lookupIn]
  | cons entry rest ih =>
    obtain ⟨k, b⟩ := entry
    by_cases hk : k = key
    · by_cases ho : key = other
      · simpa [hk, ho, lookupIn] using ih
      · simpa [hk, ho, lookupIn] using ih
    · by_cases ho : k = other
      · subst ho
        simp [hk, Ne.symm hk, lookupIn]
      · simpa [hk, ho, lookupIn] using ih

theorem get?_erase (t : Table κ α) (key other : κ) :
    (t.erase key).get? other = if key = other then none else t.get? other :=
  lookupIn_filter key other t.entries

theorem keys_insert (t : Table κ α) (key : κ) (a : α) :
    (t.insert key a).keys = if key ∈ t.keys then t.keys else t.keys ++ [key] := by
  obtain ⟨entries⟩ := t
  simp only [insert, keys]
  induction entries with
  | nil => simp [insertIn]
  | cons entry rest ih =>
    obtain ⟨k, b⟩ := entry
    by_cases hk : k = key
    · simp [insertIn, hk]
    · have hk' : key ≠ k := fun e => hk e.symm
      by_cases hmem : key ∈ rest.map Prod.fst
      · simp only [List.mem_map, Prod.exists, exists_and_right, exists_eq_right] at hmem ih
        simp [insertIn, hk, hk', hmem, ih]
      · simp only [List.mem_map, Prod.exists, exists_and_right, exists_eq_right] at hmem ih
        simp [insertIn, hk, hk', hmem, ih]

end Table

end Parley
