import Parley.Proofs.Folder
import Parley.Proofs.Manager.Records

/-!
# Loading folders of conversations

A manager loads the conversation files of a folder one after the other, in the order of their
names.  A file that holds no conversation, whatever is wrong with it, costs one report and nothing
else (`loadFile_eq`).  So the conversations that are cached in the end, and their number, are those
of the other files (`loadFiles_eq`, `get?_cacheFiles`), and the same as if the faulty files had been
deleted before (`value_loadFolder_without`).
-/

namespace Parley

open Folder (Entry conversationFiles conversationName)

/-- The graph of the conversation in a file, or why there is none. -/
def FileContent.graph (content : FileContent) (caseSensitive : Bool) :
    Except Failure (Logged Graph) :=
  content.readJson.bind (Graph.load caseSensitive)

/-- Exactly the files that hold a conversation have a graph. -/
theorem FileContent.isConversation_iff {content : FileContent} (caseSensitive : Bool) :
    content.IsConversation ↔ ∃ loaded, content.graph caseSensitive = .ok loaded := by
  constructor
  · rintro ⟨data, hread, hvalid⟩
    obtain ⟨values, -, hload⟩ := Graph.load_of_valid caseSensitive hvalid
    refine ⟨Graph.ofRecords caseSensitive (values.map Record.ofValue), ?_⟩
    rw [graph, hread]
    exact hload
  · rintro ⟨loaded, hloaded⟩
    rw [graph] at hloaded
    cases hread : content.readJson with
    | error failure =>
        rw [hread] at hloaded
        exact absurd hloaded (by simp [Except.bind])
    | ok data =>
        rw [hread] at hloaded
        refine ⟨data, hread, fun value shape hviolates => ?_⟩
        have hfails : ∃ failure, Graph.load caseSensitive data = .error failure :=
          Graph.load_eq_error_iff.mpr ⟨value, shape, hviolates⟩
        obtain ⟨failure, hfailure⟩ := hfails
        exact absurd (hloaded.symm.trans hfailure) (by simp)

theorem FileContent.graph_of_not_isConversation {content : FileContent} (caseSensitive : Bool)
    (h : ¬ content.IsConversation) : ∃ failure, content.graph caseSensitive = .error failure := by
  cases hgraph : content.graph caseSensitive with
  | ok loaded => exact absurd ((isConversation_iff caseSensitive).mpr ⟨loaded, hgraph⟩) h
  | error failure => exact ⟨failure, rfl⟩

namespace Manager

variable {manager : Manager} {config : Config} {caseSensitive : Bool} {folder : Folder}
  {place : List String} {entries files : List Entry} {conversation : String}

/-! ## One file -/

/-- The cached conversations after that of a file, if it holds one, has been cached too. -/
def cacheFile (caseSensitive : Bool) (cached : Table String Graph) (file : Entry) :
    Table String Graph :=
  match file.2.graph caseSensitive with
  | .ok loaded => cached.insert (conversationName file.1) loaded.value
  | .error _ => cached

/-- The reports of loading a file: those about its graph, or the one about its failure. -/
def fileLog (caseSensitive : Bool) (path : String) (file : Entry) : List LogEntry :=
  match file.2.graph caseSensitive with
  | .ok loaded => loaded.log
  | .error failure => [loadReport (path ++ "/" ++ file.1) failure]

theorem readJson_bind_add (manager : Manager) (config : Config) (file : Entry) :
    file.2.readJson.bind (manager.add config (conversationName file.1)) =
      (file.2.graph config.caseSensitiveTitles).map fun loaded => do
        let graph ← loaded
        return { manager with
          conversations := manager.conversations.insert (conversationName file.1) graph } := by
  rw [FileContent.graph]
  cases file.2.readJson <;> rfl

/-- A file that holds a conversation is counted and its graph cached; any other is only
reported. -/
theorem loadFile_eq (config : Config) (path : String) (manager : Manager) (file : Entry) :
    loadFile config path manager file =
      ⟨({ manager with
          conversations := cacheFile config.caseSensitiveTitles manager.conversations file },
        if file.2.IsConversation then 1 else 0),
        fileLog config.caseSensitiveTitles path file⟩ := by
  rw [loadFile, readJson_bind_add, cacheFile, fileLog]
  cases hgraph : file.2.graph config.caseSensitiveTitles with
  | ok loaded =>
      have hholds := (FileContent.isConversation_iff _).mpr ⟨loaded, hgraph⟩
      rw [if_pos hholds]
      exact Logged.ext rfl (by simp [Except.map])
  | error failure =>
      have hfaulty : ¬ file.2.IsConversation := by
        intro hholds
        obtain ⟨loaded, hloaded⟩ := (FileContent.isConversation_iff _).mp hholds
        exact absurd (hgraph.symm.trans hloaded) (by simp)
      rw [if_neg hfaulty]
      rfl

/-! ## Several files -/

/-- The cached conversations after those of some files have been cached too. -/
def cacheFiles (caseSensitive : Bool) (cached : Table String Graph) (files : List Entry) :
    Table String Graph :=
  files.foldl (cacheFile caseSensitive) cached

theorem loadFiles_eq (config : Config) (path : String) (manager : Manager) (files : List Entry) :
    loadFiles config path manager files =
      ⟨({ manager with
          conversations := cacheFiles config.caseSensitiveTitles manager.conversations files },
        files.countP fun file => file.2.IsConversation),
        files.flatMap (fileLog config.caseSensitiveTitles path)⟩ := by
  induction files generalizing manager with
  | nil => rfl
  | cons file rest ih =>
      rw [loadFiles, loadFile_eq]
      apply Logged.ext
      · simp only [Logged.value_bind, Logged.value_pure, ih, List.countP_cons, cacheFiles,
          List.foldl_cons, decide_eq_true_eq, Nat.add_comm]
      · simp only [Logged.log_bind, Logged.log_pure, ih, List.flatMap_cons, List.append_nil]

/-- The graph of the last of some files that hold a given conversation. -/
def lastGraph (caseSensitive : Bool) (files : List Entry) (conversation : String) :
    Option Graph :=
  files.reverse.findSome? fun file =>
    if conversationName file.1 = conversation then
      ((file.2.graph caseSensitive).toOption).map Logged.value
    else none

theorem get?_cacheFile (caseSensitive : Bool) (cached : Table String Graph) (file : Entry)
    (conversation : String) :
    (cacheFile caseSensitive cached file).get? conversation =
      (lastGraph caseSensitive [file] conversation).or (cached.get? conversation) := by
  rw [cacheFile, lastGraph, List.reverse_singleton, List.findSome?_singleton]
  cases file.2.graph caseSensitive with
  | ok loaded =>
      dsimp only
      rw [Table.get?_insert]
      split <;> rfl
  | error failure =>
      dsimp only
      split <;> rfl

/-- Of several files that hold one conversation the last counts. -/
theorem get?_cacheFiles (caseSensitive : Bool) (cached : Table String Graph) (files : List Entry)
    (conversation : String) :
    (cacheFiles caseSensitive cached files).get? conversation =
      (lastGraph caseSensitive files conversation).or (cached.get? conversation) := by
  induction files generalizing cached with
  | nil => rfl
  | cons file rest ih =>
      have hlast : lastGraph caseSensitive (file :: rest) conversation =
          (lastGraph caseSensitive rest conversation).or
            (lastGraph caseSensitive [file] conversation) := by
        rw [lastGraph, List.reverse_cons, List.findSome?_append]
        rfl
      calc (cacheFiles caseSensitive cached (file :: rest)).get? conversation
          = (lastGraph caseSensitive rest conversation).or
              ((cacheFile caseSensitive cached file).get? conversation) := ih _
        _ = (lastGraph caseSensitive (file :: rest) conversation).or
              (cached.get? conversation) := by
            rw [get?_cacheFile, hlast, Option.or_assoc]

/-- A file that holds no conversation may as well not be there. -/
theorem cacheFiles_filter {p : Entry → Bool}
    (h : ∀ file ∈ files, p file = false → ¬ file.2.IsConversation)
    (cached : Table String Graph) :
    cacheFiles caseSensitive cached (files.filter p) = cacheFiles caseSensitive cached files := by
  induction files generalizing cached with
  | nil => rfl
  | cons file rest ih =>
      have hrest : ∀ other ∈ rest, p other = false → ¬ other.2.IsConversation :=
        fun other hother => h other (List.mem_cons_of_mem _ hother)
      cases hfile : p file with
      | true =>
          rw [List.filter_cons_of_pos hfile]
          exact ih hrest _
      | false =>
          obtain ⟨failure, hfailure⟩ := FileContent.graph_of_not_isConversation caseSensitive
            (h file List.mem_cons_self hfile)
          have hcached : cacheFile caseSensitive cached file = cached := by
            rw [cacheFile, hfailure]
          rw [List.filter_cons_of_neg (by simp [hfile]), ih hrest, cacheFiles, cacheFiles,
            List.foldl_cons, hcached]

/-! ## The files of a folder -/

/-- The names of the conversation files among some entries that hold no conversation. -/
def faultyNames (entries : List Entry) : List String :=
  ((conversationFiles entries).filter fun file => ¬ file.2.IsConversation).map Prod.fst

theorem lastGraph_eq_none
    (h : ∀ file ∈ files, file.2.IsConversation → conversationName file.1 ≠ conversation) :
    lastGraph caseSensitive files conversation = none := by
  rw [lastGraph, List.findSome?_eq_none_iff]
  intro file hfile
  split
  · rename_i hname
    obtain ⟨failure, hfailure⟩ := FileContent.graph_of_not_isConversation caseSensitive
      fun hholds => h file (List.mem_reverse.mp hfile) hholds hname
    rw [hfailure]
    rfl
  · rfl

/-- The last file that holds a conversation is one after which none holds it. -/
theorem lastGraph_of_later {file : Entry} {loaded : Logged Graph}
    (hsorted : files.Pairwise fun a b => a.1 < b.1) (hfile : file ∈ files)
    (hloaded : file.2.graph caseSensitive = .ok loaded)
    (hlater : ∀ other ∈ files, other.2.IsConversation → file.1 < other.1 →
      conversationName other.1 ≠ conversationName file.1) :
    lastGraph caseSensitive files (conversationName file.1) = some loaded.value := by
  obtain ⟨before, after, rfl⟩ := List.append_of_mem hfile
  have hafter : ∀ other ∈ after, other.2.IsConversation →
      conversationName other.1 ≠ conversationName file.1 := by
    intro other hother hholds
    have hlt := (List.pairwise_cons.mp (List.pairwise_append.mp hsorted).2.1).1 other hother
    exact hlater other (by simp [hother]) hholds hlt
  have hnone : lastGraph caseSensitive after (conversationName file.1) = none :=
    lastGraph_eq_none hafter
  rw [lastGraph] at hnone ⊢
  rw [List.reverse_append, List.reverse_cons, List.append_assoc, List.findSome?_append, hnone,
    Option.none_or, List.singleton_append, List.findSome?_cons, if_pos rfl, hloaded]
  rfl

theorem loadFolder_of_entries (config : Config) (manager : Manager)
    (h : folder.lookup place = .folder entries) :
    manager.loadFolder config folder place =
      ⟨({ manager with
          conversations := cacheFiles config.caseSensitiveTitles manager.conversations
            (conversationFiles entries) },
        (conversationFiles entries).countP fun file => file.2.IsConversation),
        (conversationFiles entries).flatMap
            (fileLog config.caseSensitiveTitles (folder.shown place)) ++
          [⟨.info, "Loaded " ++
            toString ((conversationFiles entries).countP fun file => file.2.IsConversation) ++
            " conversations from " ++ folder.shown place⟩]⟩ := by
  rw [loadFolder, h]
  dsimp only
  rw [loadFiles_eq]
  rfl

/-- After some entries have been deleted, what is loaded is what the others hold. -/
theorem value_loadFolder_of_deleted (config : Config) (manager : Manager)
    (h : folder.lookup place = .folder entries) (p : String → Bool) :
    let kept := (conversationFiles entries).filter fun file => !p file.1
    (manager.loadFolder config (folder.without place p) place).value =
      ({ manager with
          conversations := cacheFiles config.caseSensitiveTitles manager.conversations kept },
        kept.countP fun file => file.2.IsConversation) := by
  intro kept
  have hkept : conversationFiles (entries.filter fun entry => !p entry.1) = kept :=
    Folder.conversationFiles_filter (Folder.pairwise_of_lookup h) fun name => !p name
  rcases Folder.lookup_without h p with hleft | ⟨hmissing, hnone⟩
  · rw [loadFolder_of_entries config manager hleft, hkept]
  · rw [hnone, Folder.conversationFiles_nil] at hkept
    rw [← hkept, loadFolder, hmissing]
    rfl

/-- The conversations that are cached, and their number, are the same if the faulty files are
deleted before the folder is loaded. -/
theorem value_loadFolder_without (config : Config) (manager : Manager)
    (h : folder.lookup place = .folder entries) :
    (manager.loadFolder config
        (folder.without place fun name => name ∈ faultyNames entries) place).value =
      (manager.loadFolder config folder place).value := by
  have hfaulty : ∀ file ∈ conversationFiles entries,
      (!decide (file.1 ∈ faultyNames entries)) = decide file.2.IsConversation := by
    intro file hfile
    rw [← decide_not, decide_eq_decide, faultyNames, List.mem_map]
    constructor
    · intro hname
      by_contra hbad
      exact hname ⟨file, List.mem_filter.mpr ⟨hfile, decide_eq_true hbad⟩, rfl⟩
    -- Another file of this name would be the same one.
    · rintro hholds ⟨other, hother, hname⟩
      obtain ⟨hmem, hbad⟩ := List.mem_filter.mp hother
      have hsorted := Folder.conversationFiles_sorted (Folder.pairwise_of_lookup h)
      rw [Folder.eq_of_name_eq (hsorted.imp ne_of_lt) hmem hfile hname] at hbad
      exact of_decide_eq_true hbad hholds
  rw [value_loadFolder_of_deleted config manager h, loadFolder_of_entries config manager h,
    List.filter_congr hfaulty, List.countP_filter]
  have hcached : cacheFiles config.caseSensitiveTitles manager.conversations
        ((conversationFiles entries).filter fun file => decide file.2.IsConversation) =
      cacheFiles config.caseSensitiveTitles manager.conversations (conversationFiles entries) :=
    cacheFiles_filter (fun file _ hbad => of_decide_eq_false hbad) manager.conversations
  rw [hcached]
  simp only [Bool.and_self]

/-- A folder is loaded file by file, in the order of their names.  The number is that of the files
that hold a conversation.  Each of them leaves its graph under its name, unless a later one has
that name too; other conversations stay as they were, also those whose file is faulty.  A faulty
file makes exactly one report, an error, at its place in the order; and without the faulty files
the same conversations would be cached, and as many. -/
theorem loadFolder_isolates_faults (manager : Manager) (config : Config)
    (h : folder.lookup place = .folder entries) :
    let files := conversationFiles entries
    let loaded := manager.loadFolder config folder place
    (files.Perm (entries.filter Folder.Named) ∧ files.Pairwise fun a b => a.1 < b.1) ∧
      loaded.value.2 = files.countP (fun file => file.2.IsConversation) ∧
      loaded.value.1 = { manager with conversations := loaded.value.1.conversations } ∧
      (∀ file ∈ files, file.2.IsConversation →
        (∀ other ∈ files, other.2.IsConversation → file.1 < other.1 →
          conversationName other.1 ≠ conversationName file.1) →
        ∃ data graph, file.2.readJson = .ok data ∧
          Graph.load config.caseSensitiveTitles data = .ok graph ∧
          loaded.value.1.conversations.get? (conversationName file.1) = some graph.value) ∧
      (∀ conversation,
        (∀ file ∈ files, file.2.IsConversation → conversationName file.1 ≠ conversation) →
        loaded.value.1.conversations.get? conversation =
          manager.conversations.get? conversation) ∧
      loaded.log =
        files.flatMap (fileLog config.caseSensitiveTitles (folder.shown place)) ++
          [⟨.info, "Loaded " ++ toString loaded.value.2 ++ " conversations from " ++
            folder.shown place⟩] ∧
      (∀ file ∈ files, ¬ file.2.IsConversation → ∃ failure,
        file.2.graph config.caseSensitiveTitles = .error failure ∧
          fileLog config.caseSensitiveTitles (folder.shown place) file =
            [loadReport (folder.shown place ++ "/" ++ file.1) failure]) ∧
      (manager.loadFolder config
          (folder.without place fun name => name ∈ faultyNames entries) place).value =
        loaded.value := by
  intro files loaded
  have hloaded := loadFolder_of_entries config manager h
  have hsorted := Folder.conversationFiles_sorted (Folder.pairwise_of_lookup h)
  have hcached (conversation : String) :
      loaded.value.1.conversations.get? conversation =
        (lastGraph config.caseSensitiveTitles files conversation).or
          (manager.conversations.get? conversation) := by
    simp only [loaded, hloaded]
    exact get?_cacheFiles ..
  refine ⟨⟨Folder.conversationFiles_perm entries, hsorted⟩, ?_, ?_, ?_, ?_, ?_, ?_, ?_⟩
  · simp only [loaded, hloaded, files]
  · simp only [loaded, hloaded]
  · intro file hfile hholds hlater
    obtain ⟨graph, hgraph⟩ := (FileContent.isConversation_iff config.caseSensitiveTitles).mp hholds
    obtain ⟨data, hread, -⟩ := hholds
    refine ⟨data, graph, hread, ?_, ?_⟩
    · rw [FileContent.graph, hread] at hgraph
      exact hgraph
    · rw [hcached, lastGraph_of_later hsorted hfile hgraph hlater, Option.some_or]
  · intro conversation hnone
    rw [hcached, lastGraph_eq_none hnone, Option.none_or]
  · simp only [loaded, hloaded, files]
  · intro file _ hfaulty
    obtain ⟨failure, hfailure⟩ :=
      FileContent.graph_of_not_isConversation config.caseSensitiveTitles hfaulty
    refine ⟨failure, hfailure, ?_⟩
    rw [fileLog, hfailure]
  · exact value_loadFolder_without config manager h

/-- A folder with every kind of fault in it, and with two files for the conversation `.json`. -/
def shelf : Folder :=
  { root := "shelf",
    files := [(["inn.json"], .ofText "[\x7b\"title\": \"A\"\x7d]"),
      (["notes.txt"], .ofText "[]"),
      (["gate.json"], .unreadable "PermissionError"),
      ([".json"], .ofText "[]"),
      (["draft.json"], .ofText "[1]"),
      (["open.json"], .ofText "["),
      (["old.json", "inn.json"], .ofText "[]"),
      (["noise.json"], .bytes ⟨#[255]⟩),
      ([".json.json"], .ofText "[\x7b\"body\": \"one\"\x7d]")] }

/-- What is found in it. -/
def shelfEntries : List Entry :=
  [(".json.json", .ofText "[\x7b\"body\": \"one\"\x7d]"),
    ("noise.json", .bytes ⟨#[255]⟩),
    ("old.json", .folder),
    ("open.json", .ofText "["),
    ("draft.json", .ofText "[1]"),
    (".json", .ofText "[]"),
    ("gate.json", .unreadable "PermissionError"),
    ("notes.txt", .ofText "[]"),
    ("inn.json", .ofText "[\x7b\"title\": \"A\"\x7d]")]

theorem loadFolder_isolates_faults_shelf :
    shelf.lookup [] = .folder shelfEntries ∧
      let manager : Manager := { config := ⟨0⟩, conversations := Table.empty.insert "gate" {} }
      let loaded := manager.loadFolder {} shelf []
      loaded.value.2 = 3 ∧
        loaded.value.1.conversations.get? "gate" = some {} ∧
        (loaded.value.1.conversations.get? ".json").map Graph.titles = some [""] ∧
        (manager.loadFolder {}
            (shelf.without [] fun name => name ∈ faultyNames shelfEntries) []).value =
          loaded.value := by
  have hlookup : shelf.lookup [] = .folder shelfEntries := rfl
  refine ⟨hlookup, ?_⟩
  intro manager loaded
  obtain ⟨⟨hperm, -⟩, hcount, -, hvalid, hother, -, -, hwithout⟩ :=
    loadFolder_isolates_faults manager {} hlookup
  have hmem {file : Entry} (hfile : file ∈ conversationFiles shelfEntries) :
      file ∈ shelfEntries :=
    (List.mem_filter.mp (hperm.subset hfile)).1
  refine ⟨?_, ?_, ?_, hwithout⟩
  · calc loaded.value.2
        = (conversationFiles shelfEntries).countP fun file => file.2.IsConversation := hcount
      _ = (shelfEntries.filter Folder.Named).countP fun file => file.2.IsConversation :=
          hperm.countP_eq _
      _ = 3 := by decide +kernel
  · apply (hother "gate" _).trans
    · rfl
    · have hnone : ∀ file ∈ shelfEntries, file.2.IsConversation →
          conversationName file.1 ≠ "gate" := by
        decide +kernel
      exact fun file hfile => hnone file (hmem hfile)
  · have hlast : ∀ other ∈ shelfEntries, other.2.IsConversation → ".json.json" < other.1 →
        conversationName other.1 ≠ conversationName ".json.json" := by
      decide +kernel
    obtain ⟨data, graph, hread, hload, hget⟩ :=
      hvalid (".json.json", .ofText "[\x7b\"body\": \"one\"\x7d]")
        (hperm.mem_iff.mpr (List.mem_filter.mpr ⟨List.mem_cons_self, rfl⟩)) (by decide +kernel)
        fun other hfile => hlast other (hmem hfile)
    have htitles : ((FileContent.ofText "[\x7b\"body\": \"one\"\x7d]").graph true).toOption.map
        (fun logged => logged.value.titles) = some [""] := by
      decide +kernel
    have hgraph : (FileContent.ofText "[\x7b\"body\": \"one\"\x7d]").graph true = .ok graph := by
      rw [FileContent.graph, hread]
      exact hload
    rw [hgraph] at htitles
    exact (congrArg (Option.map Graph.titles) hget).trans htitles

end Manager

end Parley
