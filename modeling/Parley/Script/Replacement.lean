import Parley.Table

/-!
# Replacement text

A text may name values that the host supplies while the dialogue runs: `{player}`
stands for whatever is registered under `player`.  Tokens are found first; then each
registered one, in the order found, is exchanged everywhere in the text reached so far.
-/

namespace Parley.Script

/-- The keys of the tokens in a text.  `inside` holds the characters read since an opening
brace, last one first. -/
def tokenKeys : (inside : Option (List Char)) → List Char → List String
  | _, [] => []
  | none, c :: rest =>
    if c = '\x7b' then tokenKeys (some []) rest else tokenKeys none rest
  | some key, c :: rest =>
    if c = '\x7d' then String.ofList key.reverse :: tokenKeys none rest
    else tokenKeys (some (c :: key)) rest

/-- The keys of the tokens in a text, in order of appearance.  A token reaches from an
opening brace to the first closing brace after it. -/
def replacementKeys (text : List Char) : List String :=
  tokenKeys none text

/-- Exchange every occurrence of `pattern` for `value`, from left to right without overlaps;
the first `skip` characters are left out. -/
def exchange (pattern value : List Char) : (skip : Nat) → List Char → List Char
  | _, [] => []
  | skip + 1, _ :: rest => exchange pattern value skip rest
  | 0, c :: rest =>
    if pattern.isPrefixOf (c :: rest) then
      value ++ exchange pattern value (pattern.length - 1) rest
    else c :: exchange pattern value 0 rest

def token (key : String) : List Char :=
  '\x7b' :: key.toList ++ ['\x7d']

/-- Exchange the tokens of some keys, one key after the other. -/
def replaceKeys (values : Table String String) : List String → List Char → List Char
  | [], text => text
  | key :: rest, text =>
    match values.get? key with
    | some value => replaceKeys values rest (exchange (token key) value.toList 0 text)
    | none => replaceKeys values rest text

/-- The text with its registered tokens exchanged; unknown tokens stay as they are. -/
def applyReplacements (values : Table String String) (text : String) : String :=
  String.ofList (replaceKeys values (replacementKeys text.toList) text.toList)

end Parley.Script
