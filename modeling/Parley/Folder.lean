import Parley.Failure
import Parley.Text.Cut

/-!
# Folders of conversation files

A folder is given by the files in it, each with its path and contents.  Paths may lead
through sub-folders, which are there as soon as something is in them.
-/

namespace Parley

/-- What a path leads to. -/
inductive FileContent where
  | bytes (bytes : ByteArray)
  | folder
  /-- A file that cannot be opened or read, with the kind of failure that says why. -/
  | unreadable (kind : String)

def FileContent.ofText (text : String) : FileContent :=
  .bytes text.toUTF8

/-- The JSON value in a file, or why there is none. -/
def FileContent.readJson : FileContent → Except Failure Json.Value
  | folder => .error .isDirectory
  | unreadable kind => .error (.raised kind "")
  | bytes contents =>
    match String.fromUTF8? contents with
    | none => .error .notUtf8
    | some text => (Json.read text.toList).mapError (.ofReadError .notJsonFile)

/-- A folder: the name it is shown under, and its files with their paths. -/
structure Folder where
  root : String
  files : List (List String × FileContent)

namespace Folder

/-- The steps of a written path; empty steps and those that stay in place do not count. -/
def pathOf (path : String) : List String :=
  ((Text.pieces '/' path.toList).map String.ofList).filter fun step =>
    step ≠ "" ∧ step ≠ "."

/-- What a path is found to be. -/
inductive Place where
  | missing
  | file (content : FileContent)
  | folder (entries : List (String × FileContent))

/-- The way from a folder to a file inside it. -/
def below? : (place path : List String) → Option (List String)
  | [], path => some path
  | _, [] => none
  | step :: place, first :: path => if step = first then below? place path else none

/-- The entry of a folder through which a way leads. -/
def entry? : List String × FileContent → Option (String × FileContent)
  | ([], _) => none
  | ([name], content) => some (name, content)
  | (name :: _, _) => some (name, .folder)

/-- The entries without those whose name came before. -/
def distinct : List (String × FileContent) → List (String × FileContent)
  | [] => []
  | entry :: rest => entry :: (distinct rest).filter fun other => other.1 ≠ entry.1

/-- What is found at a path; the folder itself is always there.  Of several files at one path
the last counts. -/
def lookup (folder : Folder) (place : List String) : Place :=
  let ways := (folder.files.filterMap fun (path, content) =>
    (below? place path).map fun way => (way, content)).reverse
  let entries := distinct (ways.filterMap entry?)
  match (ways.find? fun way => way.1.isEmpty).map Prod.snd with
  | some .folder => .folder entries
  | some content => .file content
  -- Where something lies below a path, the path is a folder.
  | none => if place.isEmpty || !ways.isEmpty then .folder entries else .missing

def ending : List Char := ['.', 'j', 's', 'o', 'n']

/-- The conversation files among some entries, in the order of their names. -/
def conversationFiles (entries : List (String × FileContent)) :
    List (String × FileContent) :=
  (entries.filter fun entry => ending.isSuffixOf entry.1.toList).mergeSort
    fun a b => decide (a.1 ≤ b.1)

/-- The conversation that a file holds: its name without the ending, if more than the ending
is there. -/
def conversationName (name : String) : String :=
  if name.length ≤ ending.length then name
  else String.ofList (name.toList.take (name.length - ending.length))

def shown (folder : Folder) (place : List String) : String :=
  String.intercalate "/" (folder.root :: place)

end Folder

end Parley
