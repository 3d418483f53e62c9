import Parley.Graph

/-!
# Valid conversation data

Conversation data is a list of records.  A record is an object, and its title, tags and body are
texts or null where they are given.  What is wrong with a value is told by `Record.Violates`, with
one case for each shape that is asked for.  A graph is loaded from every value without a violation
(`Graph.load_of_valid`); one that is refused has a violation, and the failure names it
(`Graph.violates_of_load_eq_error`).
-/

namespace Parley

open Json (Value)

namespace Record

/-- The fields of a record that are read. -/
def fieldNames : List String := ["title", "tags", "body"]

/-- In conversation data a value stands where something of another shape should stand. -/
inductive Violates (data : Value) : Value → Shape → Prop
  | list (h : ∀ values, data ≠ .array values) : Violates data data .list
  | record {values : List Value} {value : Value} (hdata : data = .array values)
      (hmem : value ∈ values) (h : ∀ fields, value ≠ .object fields) : Violates data value .record
  | field {values : List Value} {record value : Value} {name : String}
      (hdata : data = .array values) (hmem : record ∈ values) (hname : name ∈ fieldNames)
      (hfield : record.field? name = some value) (hnull : value ≠ .null)
      (htext : ∀ s, value ≠ .string s) : Violates data value .optionalText

/-- A value is conversation data. -/
def Valid (data : Value) : Prop :=
  ∀ value shape, ¬ Violates data value shape

variable {values : List Value} {record value : Value} {shape : Shape} {failure : Failure}

/-! ## The tests -/

theorem isObject_eq_false_iff : isObject value = false ↔ ∀ fields, value ≠ .object fields := by
  cases value <;> simp [isObject]

theorem isOptionalText_eq_false_iff :
    isOptionalText value = false ↔ value ≠ .null ∧ ∀ s, value ≠ .string s := by
  cases value <;> simp [isOptionalText]

theorem exists_of_badField? (h : badField? record = some value) :
    ∃ name ∈ fieldNames, record.field? name = some value ∧ isOptionalText value = false := by
  obtain ⟨name, hname, hfound⟩ := List.exists_of_findSome?_eq_some h
  obtain ⟨hfield, hbad⟩ := Option.filter_eq_some_iff.mp hfound
  exact ⟨name, hname, hfield, by simpa using hbad⟩

theorem badField?_ne_none {name : String} (hname : name ∈ fieldNames)
    (hfield : record.field? name = some value) (hbad : isOptionalText value = false) :
    badField? record ≠ none := by
  intro hnone
  have hfiltered := List.findSome?_eq_none_iff.mp hnone name hname
  rw [hfield, Option.filter_some, hbad] at hfiltered
  exact absurd hfiltered (by simp)

/-! ## Lists of records -/

theorem violates_of_violation? (h : violation? values = some failure) :
    ∃ value shape, Violates (.array values) value shape ∧
      failure = .invalidData value.literal shape := by
  unfold violation? at h
  split at h
  · rename_i record hfound
    have hobject : isObject record = false := by simpa using List.find?_some hfound
    have hmem : record ∈ values := List.mem_reverse.mp (List.mem_of_find?_eq_some hfound)
    exact ⟨record, .record, .record rfl hmem (isObject_eq_false_iff.mp hobject),
      (Option.some.inj h).symm⟩
  · obtain ⟨value, hbad, rfl⟩ := Option.map_eq_some_iff.mp h
    obtain ⟨record, hmem, hfield⟩ := List.exists_of_findSome?_eq_some hbad
    obtain ⟨name, hname, hvalue, htext⟩ := exists_of_badField? hfield
    obtain ⟨hnull, hstring⟩ := isOptionalText_eq_false_iff.mp htext
    exact ⟨value, .optionalText,
      .field rfl (List.mem_reverse.mp hmem) hname hvalue hnull hstring, rfl⟩

theorem violation?_ne_none (h : Violates (.array values) value shape) :
    violation? values ≠ none := by
  intro hnone
  unfold violation? at hnone
  split at hnone
  · exact absurd hnone (by simp)
  · rename_i hobjects
    cases h with
    | list h => exact h values rfl
    | record hdata hmem h =>
        obtain rfl := Value.array.inj hdata
        have hobject := List.find?_eq_none.mp hobjects value (List.mem_reverse.mpr hmem)
        rw [isObject_eq_false_iff.mpr h] at hobject
        exact hobject rfl
    | field hdata hmem hname hfield hnull htext =>
        obtain rfl := Value.array.inj hdata
        have hbad := isOptionalText_eq_false_iff.mpr ⟨hnull, htext⟩
        have hfields := List.findSome?_eq_none_iff.mp (Option.map_eq_none_iff.mp hnone)
        exact badField?_ne_none hname hfield hbad (hfields _ (List.mem_reverse.mpr hmem))

/-- The test for violations decides whether records are valid. -/
theorem valid_iff : Valid (.array values) ↔ violation? values = none := by
  constructor
  · intro h
    cases hviolation : violation? values with
    | none => rfl
    | some failure =>
        obtain ⟨value, shape, hviolates, -⟩ := violates_of_violation? hviolation
        exact absurd hviolates (h value shape)
  · intro hnone value shape h
    exact violation?_ne_none h hnone

theorem listOfValue_of_valid {data : Value} (h : Valid data) :
    ∃ values, data = .array values ∧ listOfValue data = .ok (values.map ofValue) := by
  cases data with
  | array values =>
      refine ⟨values, rfl, ?_⟩
      rw [listOfValue, valid_iff.mp h]
  | _ => exact absurd (Violates.list (by simp)) (h _ _)

theorem violates_of_listOfValue {data : Value} (h : listOfValue data = .error failure) :
    ∃ value shape, Violates data value shape ∧ failure = .invalidData value.literal shape := by
  cases data with
  | array values =>
      rw [listOfValue] at h
      cases hviolation : violation? values with
      | none =>
          rw [hviolation] at h
          exact absurd h (by simp)
      | some found =>
          rw [hviolation] at h
          exact Except.error.inj h ▸ violates_of_violation? hviolation
  | _ => exact ⟨_, .list, .list (by simp), (Except.error.inj h).symm⟩

theorem exists_listOfValue_eq_error {data : Value} (h : Violates data value shape) :
    ∃ failure, listOfValue data = .error failure := by
  cases data with
  | array values =>
      rw [listOfValue]
      cases hviolation : violation? values with
      | none => exact absurd hviolation (violation?_ne_none h)
      | some failure => exact ⟨failure, rfl⟩
  | _ => exact ⟨_, rfl⟩

instance (data : Value) : Decidable (Valid data) :=
  match h : listOfValue data with
  | .ok records => isTrue fun value shape hviolates => by
      obtain ⟨failure, herror⟩ := exists_listOfValue_eq_error hviolates
      exact absurd (h.symm.trans herror) (by simp)
  | .error failure => isFalse fun hvalid => by
      obtain ⟨value, shape, hviolates, -⟩ := violates_of_listOfValue h
      exact hvalid value shape hviolates

end Record

/-! ## Loading -/

namespace Graph

variable {caseSensitive : Bool} {data : Value} {failure : Failure}

/-- A graph is loaded from every value without a violation. -/
theorem load_of_valid (caseSensitive : Bool) (h : Record.Valid data) :
    ∃ values, data = .array values ∧
      load caseSensitive data = .ok (ofRecords caseSensitive (values.map Record.ofValue)) := by
  obtain ⟨values, hdata, hlist⟩ := Record.listOfValue_of_valid h
  refine ⟨values, hdata, ?_⟩
  rw [load, hlist]
  rfl

/-- The failure to load a value names a violation in it. -/
theorem violates_of_load_eq_error (h : load caseSensitive data = .error failure) :
    ∃ value shape, Record.Violates data value shape ∧
      failure = .invalidData value.literal shape := by
  rw [load] at h
  cases hlist : Record.listOfValue data with
  | error found =>
      rw [hlist] at h
      exact Except.error.inj h ▸ Record.violates_of_listOfValue hlist
  | ok records =>
      rw [hlist] at h
      exact absurd h (by simp [Except.map])

theorem load_eq_error_iff : (∃ failure, load caseSensitive data = .error failure) ↔
    ∃ value shape, Record.Violates data value shape := by
  constructor
  · rintro ⟨failure, h⟩
    obtain ⟨value, shape, hviolates, -⟩ := violates_of_load_eq_error h
    exact ⟨value, shape, hviolates⟩
  · rintro ⟨value, shape, hviolates⟩
    obtain ⟨failure, hlist⟩ := Record.exists_listOfValue_eq_error hviolates
    refine ⟨failure, ?_⟩
    rw [load, hlist]
    rfl

/-- Titles are compared only after the data has been found to be valid. -/
theorem load_eq_error_of_load (other : Bool) (h : load caseSensitive data = .error failure) :
    load other data = .error failure := by
  rw [load] at h ⊢
  cases hlist : Record.listOfValue data with
  | error found =>
      rw [hlist] at h
      exact h
  | ok records =>
      rw [hlist] at h
      exact absurd h (by simp [Except.map])

end Graph

end Parley
