import Parley.Decimal.Shortest
import Parley.Text.Quoted

/-!
# JSON values

Values as they come from conversation files and configuration.  Whole numbers are exact and
of any size; other numbers are binary64.  The fields of an object keep their order.
-/

namespace Parley.Json

open Parley.Decimal (Binary64)

/-- A JSON value. -/
inductive Value where
  | null
  | bool (b : Bool)
  | int (n : Int)
  | real (x : Binary64)
  | string (s : String)
  | array (items : List Value)
  | object (fields : List (String × Value))
  deriving Repr, Inhabited

namespace Value

/-- The value of a field; `none` for a missing field and for values that are no objects. -/
def field? (name : String) : Value → Option Value
  | object fields => fields.lookup name
  | _ => none

mutual

/-- The text of a value inside a message: texts are quoted, truth values and the missing
value are written as words. -/
def literal : Value → String
  | null => "None"
  | bool b => if b then "True" else "False"
  | int n => toString n
  | real x => x.text
  | string s => Text.quoted s
  | array items => "[" ++ literalItems items ++ "]"
  | object fields => "\x7b" ++ literalFields fields ++ "\x7d"

/-- The texts of some values with commas between them. -/
def literalItems : List Value → String
  | [] => ""
  | item :: [] => literal item
  | item :: rest => literal item ++ ", " ++ literalItems rest

/-- The texts of some fields with commas between them. -/
def literalFields : List (String × Value) → String
  | [] => ""
  | (name, value) :: [] => Text.quoted name ++ ": " ++ literal value
  | (name, value) :: rest =>
    Text.quoted name ++ ": " ++ literal value ++ ", " ++ literalFields rest

end

end Value

end Parley.Json
