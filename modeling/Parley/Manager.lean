import Parley.World

/-!
# Managers

A manager keeps the displays of a host by title and its conversations by name, and remembers
the session it started last on each display.  Conversations are cached as graphs that are
never changed; every session works on its own copy.
-/

namespace Parley.Manager

def register (manager : Manager) (title : String) (d : DisplayId) : Logged Manager :=
  ⟨{ manager with displays := manager.displays.insert title d },
    if manager.displays.contains title then
      [⟨.warning, "Replacing dialogue context '" ++ title ++ "'"⟩] else []⟩

/-- Cache a conversation; invalid data changes nothing. -/
def add (manager : Manager) (config : Config) (conversation : String) (data : Json.Value) :
    Except Failure (Logged Manager) :=
  (Graph.load config.caseSensitiveTitles data).map fun loaded => do
    let graph ← loaded
    return { manager with conversations := manager.conversations.insert conversation graph }

/-- The report of a file that cannot be loaded.  Only what is wrong with the data is said. -/
def loadReport (path : String) (failure : Failure) : LogEntry :=
  ⟨.error, "Failed to load " ++ path ++
    match failure with
    | .invalidData .. => ": " ++ failure.message
    | _ => ""⟩

/-- Load one conversation file, if it can be loaded; the number says whether. -/
def loadFile (config : Config) (path : String) (manager : Manager)
    (file : String × FileContent) : Logged (Manager × Nat) :=
  match file.2.readJson.bind (manager.add config (Folder.conversationName file.1)) with
  | .ok loaded => (·, 1) <$> loaded
  | .error failure => ⟨(manager, 0), [loadReport (path ++ "/" ++ file.1) failure]⟩

/-- Load conversation files one after the other, counting those that could be loaded. -/
def loadFiles (config : Config) (path : String) (manager : Manager) :
    List (String × FileContent) → Logged (Manager × Nat)
  | [] => return (manager, 0)
  | file :: rest => do
    let (manager, loaded) ← loadFile config path manager file
    let (manager, count) ← loadFiles config path manager rest
    return (manager, loaded + count)

def loadFolder (manager : Manager) (config : Config) (folder : Folder)
    (place : List String) : Logged (Manager × Nat) :=
  let path := folder.shown place
  let entries? := match folder.lookup place with
    | .missing => none
    | .file _ => some []
    | .folder entries => some entries
  match entries? with
  | none => do
    Logged.report .warning ("Dialogue directory not found: " ++ path)
    return (manager, 0)
  | some entries => do
    let (manager, count) ← loadFiles config path manager (Folder.conversationFiles entries)
    Logged.report .info
      ("Loaded " ++ toString count ++ " conversations from " ++ path)
    return (manager, count)

/-- The title, cursor and line texts of the nodes of a conversation. -/
def outline (graph : Graph) : List (String × Nat × List String) :=
  graph.nodes.values.map fun node => (node.title, node.cursor, node.lines.map Line.text)

end Parley.Manager
