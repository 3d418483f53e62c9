import Parley.Log
import Parley.Table
import Parley.Script.Separator
import Parley.Text.Cut

/-!
# Node tags

A node carries tags, each a key with a list of values, written `key[v1, v2], key2[v3]`.
Blocks that cannot be read and repeated keys are reported and skipped; the first block of a
key counts.
-/

namespace Parley

/-- The tags of a node, in the order in which they were written. -/
abbrev Tags := Table String (List String)

namespace Script

open Parley.Text

/-- The key before the first bracket that follows a key, and what comes after that bracket.
`word` is the stretch of word characters that was just read, last character first. -/
def tagKey (word : List Char) : List Char → Option (List Char × List Char)
  | [] => none
  | c :: rest =>
    if c = '[' then
      if word.isEmpty then tagKey [] rest else some (word.reverse, rest)
    else if isWord c then tagKey (c :: word) rest
    else tagKey [] rest

/-- The values in a list, trimmed; a blank list has none. -/
def tagValues (inner : List Char) : List String :=
  if inner.all isBlank then []
  else (pieces ',' inner).map fun value => String.ofList (trim value)

/-- Read one block `key[v1, v2]`.  The values reach to the last closing bracket. -/
def parseTagBlock (block : List Char) : Option (String × List String) := do
  let (key, rest) ← tagKey [] block
  let (inner, _) ← cutLast ']' rest
  return (String.ofList key, tagValues inner)

/-- The tags with the tag of one more block, if it can be read and its key is new. -/
def addTagBlock (title : String) (tags : Tags) (block : List Char) : Logged Tags :=
  match parseTagBlock block with
  | none => do
    Logged.report .warning
      ("Malformed tag block '" ++ String.ofList (trim block) ++ "' in node '" ++ title ++
        "'; skipping.")
    return tags
  | some (key, values) =>
    if tags.contains key then do
      Logged.report .warning
        ("Duplicate tag key '" ++ key ++ "' in node '" ++ title ++ "'; keeping the first.")
      return tags
    else return tags.insert key values

/-- Read the tags of the node `title`. -/
def parseTags (raw : List Char) (title : String) : Logged Tags :=
  if raw.all isBlank then return Table.empty
  else (splitTags raw).foldlM (addTagBlock title) Table.empty

def formatTag (tag : String × List String) : List Char :=
  tag.1.toList ++ ['['] ++ join [',', ' '] (tag.2.map String.toList) ++ [']']

/-- The written form of a list of tags. -/
def formatTags (tags : Tags) : List Char :=
  join [',', ' '] (tags.entries.map formatTag)

end Script

end Parley
