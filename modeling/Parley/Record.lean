import Parley.Failure
import Parley.Json.Value

/-!
# Node records

A conversation file is a list of records, one for each node, with the fields `title`, `tags`
and `body`.  A field may be missing or null, which counts as empty; other fields are ignored.
Of several violations the one reported is decided by shape first, then by position.
-/

namespace Parley

/-- The source of one node. -/
structure Record where
  title : String := ""
  tags : String := ""
  body : String := ""
  deriving DecidableEq, Repr, Inhabited

namespace Record

open Json (Value)

/-- The text of a field; a missing or null field is empty. -/
def text (name : String) (record : Value) : String :=
  match record.field? name with
  | some (.string s) => s
  | _ => ""

def ofValue (record : Value) : Record :=
  ⟨text "title" record, text "tags" record, text "body" record⟩

def isObject : Value → Bool
  | .object _ => true
  | _ => false

/-- Whether a value may stand in a field of a record. -/
def isOptionalText : Value → Bool
  | .string _ => true
  | .null => true
  | _ => false

/-- The value of the alphabetically last field that holds neither text nor null. -/
def badField? (record : Value) : Option Value :=
  ["title", "tags", "body"].findSome? fun name =>
    (record.field? name).filter fun value => !isOptionalText value

/-- The violation reported for a list of records: the last element that is no object, or else
the bad field of the last record that has one. -/
def violation? (records : List Value) : Option Failure :=
  match records.reverse.find? fun record => !isObject record with
  | some record => some (.invalidData record.literal .record)
  | none =>
    (records.reverse.findSome? badField?).map fun value =>
      .invalidData value.literal .optionalText

/-- The records of a value, or why it is no list of records. -/
def listOfValue : Value → Except Failure (List Record)
  | .array records =>
    match violation? records with
    | some failure => .error failure
    | none => .ok (records.map ofValue)
  | value => .error (.invalidData value.literal .list)

end Record

end Parley
