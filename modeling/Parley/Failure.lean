import Parley.Json.Reader
import Parley.Text.Digit
import Parley.Text.Quoted

/-!
# Failures

Everything an operation can fail with, by cause.  The wording of a cause is
`Failure.message`; what only the kind of failure tells has no wording.
-/

namespace Parley

/-- The shapes that conversation data must have. -/
inductive Shape where
  /-- The whole: a list of records. -/
  | list
  /-- A record. -/
  | record
  /-- A field of a record: a text, or nothing. -/
  | optionalText
  deriving DecidableEq, Repr

def Shape.name : Shape → String
  | list => "'array'"
  | record => "'object'"
  | optionalText => "'string', 'null'"

/-- What is wrong with one setting. -/
inductive Fault where
  /-- A text or a number that stands for no truth value. -/
  | unclearTruth
  /-- Something that cannot be a truth value at all. -/
  | notTruth
  | notText
  | notLevel
  /-- A setting that does not exist. -/
  | extra
  /-- Settings that are not given as an object. -/
  | notObject
  /-- An assignment to a setting that does not exist. -/
  | noSuchSetting (name : String)
  deriving DecidableEq, Repr

/-- A fault together with the setting it was found at. -/
structure Problem where
  setting : Option String
  fault : Fault
  deriving DecidableEq, Repr

/-- Why an operation failed. -/
inductive Failure where
  /-- The node has no lines to show. -/
  | emptyNode (title : String)
  /-- The cursor of the node has run past its last line. -/
  | pastEnd (title : String) (cursor : Nat)
  /-- There is no line with the requested number. -/
  | noSuchLine
  /-- Conversation data with a value, given by its text, of the wrong shape. -/
  | invalidData (value : String) (expected : Shape)
  /-- Conversation text that is no JSON. -/
  | notJsonText
  /-- Event data without the requested key. -/
  | missingKey (key : String)
  /-- Settings that are not acceptable. -/
  | invalidSettings (problems : List Problem)
  /-- A level name that does not exist. -/
  | unknownLevel (name : String)
  /-- A level that is neither a name nor a whole number. -/
  | levelType
  /-- Digits that cannot be read as a number. -/
  | notNumber (text : String)
  /-- The input has ended. -/
  | endOfInput
  /-- A file that does not exist. -/
  | fileNotFound
  /-- A directory where a file is needed. -/
  | isDirectory
  /-- A path that leads through a file. -/
  | notDirectory
  /-- A file whose bytes are no UTF-8 text. -/
  | notUtf8
  /-- A file whose text is no JSON. -/
  | notJsonFile
  /-- A name that stands for nothing. -/
  | unknownName
  /-- A failure raised by the host, by its file system or by its arithmetic, with its kind and
  message. -/
  | raised (kind message : String)
  deriving DecidableEq, Repr

namespace Fault

def kind : Fault → String
  | unclearTruth => "bool_parsing"
  | notTruth => "bool_type"
  | notText => "string_type"
  | notLevel => "literal_error"
  | extra => "extra_forbidden"
  | notObject => "model_type"
  | noSuchSetting _ => "no_such_attribute"

def message : Fault → String
  | unclearTruth => "Input should be a valid boolean, unable to interpret input"
  | notTruth => "Input should be a valid boolean"
  | notText => "Input should be a valid string"
  | notLevel => "Input should be 'DEBUG', 'INFO', 'WARNING', 'ERROR' or 'CRITICAL'"
  | extra => "Extra inputs are not permitted"
  | notObject => "Input should be a valid dictionary or instance of DialogueConfig"
  | noSuchSetting name => "Object has no attribute '" ++ name ++ "'"

end Fault

/-- What is wrong with a number of so many digits. -/
def limitMessage (digits : Nat) : String :=
  "Exceeds the limit (" ++ toString Text.maxDigits ++
    " digits) for integer string conversion: value has " ++ toString digits ++
    " digits; use sys.set_int_max_str_digits() to increase the limit"

/-- What is wrong with digits that cannot be read: there are too many, or one is no decimal digit.
Only the beginning of such a text is quoted. -/
def numberMessage (text : String) : String :=
  let digits := Text.leadingDigits text.toList
  if Text.maxDigits < digits then limitMessage digits
  else
    "invalid literal for int() with base 10: " ++
      String.ofList ((Text.quoted text).toList.take 200)

/-- The wording of a failure; empty where the kind says it all. -/
def Failure.message : Failure → String
  | emptyNode title => "Conversation node '" ++ title ++ "' has no dialogue lines"
  | pastEnd title cursor =>
    "Conversation node '" ++ title ++ "' has no line at " ++ toString cursor
  | noSuchLine => "tuple index out of range"
  | invalidData value expected =>
    "Invalid conversation data: " ++ value ++ " is not of type " ++ expected.name
  | notJsonText => "Conversation is not valid JSON"
  | missingKey key => key
  | unknownLevel name => "Unknown level: " ++ Text.quoted name
  | notNumber text => numberMessage text
  | raised _ message => message
  | _ => ""

/-- The failure to read a JSON text, which fails in a given way if it is malformed. -/
def Failure.ofReadError (malformed : Failure) : Json.ReadError → Failure
  | .malformed => malformed
  | .tooManyDigits count => .raised "ValueError" (limitMessage count)

end Parley
