import Parley.Proofs.Graph.Valid
import Parley.Proofs.Table

/-!
# Graphs as keyed folds

A graph is built by adding one record after the other.  Under each key it holds the node of the
last record that was added with that key, in the place that the first one took (`Holds`).  This is
so after loading, and it stays so when more records are added and when the graph is copied
(`keyed_by_last_record`).

Nothing is replaced or left empty without a report: the log of the additions can be told from the
records alone (`additionLog`).
-/

namespace Parley.Graph

variable {caseSensitive : Bool} {records given : List Record} {record : Record} {graph : Graph}

/-! ## What the records say -/

/-- The key of a record's title. -/
def keyOfRecord (caseSensitive : Bool) (record : Record) : String :=
  keyOf caseSensitive record.title

/-- The keys of some records, in the order of their first appearance. -/
def keysOf (caseSensitive : Bool) (records : List Record) : List String :=
  (records.map (keyOfRecord caseSensitive)).eraseDups

/-- The last of some records with a given key. -/
def lastWith (caseSensitive : Bool) (records : List Record) (key : String) : Option Record :=
  records.reverse.find? fun record => keyOfRecord caseSensitive record = key

/-- The node of a record. -/
def nodeOf (record : Record) : Node :=
  (Node.ofRecord record).value

theorem keysOf_append_singleton (caseSensitive : Bool) (records : List Record) (record : Record) :
    keysOf caseSensitive (records ++ [record]) =
      if keyOfRecord caseSensitive record ∈ keysOf caseSensitive records then
        keysOf caseSensitive records
      else keysOf caseSensitive records ++ [keyOfRecord caseSensitive record] := by
  rw [keysOf, keysOf, List.map_append, List.eraseDups_append]
  by_cases hmem : keyOfRecord caseSensitive record ∈ records.map (keyOfRecord caseSensitive)
  · rw [if_pos (List.mem_eraseDups.mpr hmem), List.map_singleton, List.removeAll,
      List.filter_cons_of_neg (by simpa using hmem)]
    simp
  · rw [if_neg fun h => hmem (List.mem_eraseDups.mp h), List.map_singleton, List.removeAll,
      List.filter_cons_of_pos (by simpa using hmem)]
    rfl

theorem mem_keysOf_iff {key : String} : key ∈ keysOf caseSensitive records ↔
    ∃ record ∈ records, keyOfRecord caseSensitive record = key := by
  rw [keysOf, List.mem_eraseDups, List.mem_map]

theorem lastWith_append_singleton (caseSensitive : Bool) (records : List Record)
    (record : Record) (key : String) :
    lastWith caseSensitive (records ++ [record]) key =
      if keyOfRecord caseSensitive record = key then some record
      else lastWith caseSensitive records key := by
  rw [lastWith, List.reverse_append, List.reverse_singleton, List.singleton_append,
    List.find?_cons]
  by_cases hkey : keyOfRecord caseSensitive record = key
  · simp [hkey]
  · simp [hkey, lastWith]

theorem keyOfRecord_of_lastWith {key : String}
    (h : lastWith caseSensitive records key = some record) :
    keyOfRecord caseSensitive record = key := by
  simpa using List.find?_some h

theorem lastWith_eq_none_iff {key : String} : lastWith caseSensitive records key = none ↔
    ∀ record ∈ records, keyOfRecord caseSensitive record ≠ key := by
  simp [lastWith]

/-! ## What a graph holds -/

/-- A graph holds the nodes of some records: the last one of each key. -/
structure Holds (caseSensitive : Bool) (records : List Record) (graph : Graph) : Prop where
  setting : graph.caseSensitive = caseSensitive
  nodup : graph.nodes.keys.Nodup
  keys : graph.nodes.keys = keysOf caseSensitive records
  get? : ∀ key, graph.nodes.get? key = (lastWith caseSensitive records key).map nodeOf

theorem holds_nil (caseSensitive : Bool) : Holds caseSensitive [] { caseSensitive } :=
  ⟨rfl, .nil, rfl, fun _ => rfl⟩

theorem Holds.addRecord (h : Holds caseSensitive records graph) (record : Record) :
    Holds caseSensitive (records ++ [record]) (graph.addRecord record).value := by
  have hnodes : (graph.addRecord record).value.nodes =
      graph.nodes.insert (keyOfRecord caseSensitive record) (nodeOf record) := by
    rw [keyOfRecord, ← h.setting]
    rfl
  constructor
  case setting => exact h.setting
  case nodup =>
    rw [hnodes]
    exact Table.nodup_keys_insert h.nodup _ _
  case keys => rw [hnodes, Table.keys_insert, h.keys, keysOf_append_singleton]
  case get? =>
    intro key
    rw [hnodes, Table.get?_insert, lastWith_append_singleton, h.get?]
    split <;> rfl

/-- A copy has fresh cursors, which the nodes of records have anyway. -/
theorem Holds.clone (h : Holds caseSensitive records graph) :
    Holds caseSensitive records graph.clone := by
  have hkeys : graph.clone.nodes.keys = graph.nodes.keys := Table.keys_map ..
  constructor
  case setting => exact h.setting
  case nodup => exact hkeys ▸ h.nodup
  case keys => exact hkeys.trans h.keys
  case get? =>
    intro key
    show (graph.nodes.map Node.clone).get? key = _
    rw [Table.get?_map, h.get?, Option.map_map]
    rfl

/-- All nodes, in order. -/
theorem Holds.values (h : Holds caseSensitive records graph) :
    graph.nodes.values = (keysOf caseSensitive records).filterMap fun key =>
      (lastWith caseSensitive records key).map nodeOf := by
  rw [Table.values_eq_filterMap h.nodup, h.keys]
  congr 1
  funext key
  exact h.get? key

theorem Holds.get?_title (h : Holds caseSensitive records graph) (title : String) :
    graph.get? title =
      (lastWith caseSensitive records (keyOf caseSensitive title)).map nodeOf := by
  rw [Graph.get?, key, h.setting]
  exact h.get? _

/-- Every node that is listed is found under its own title. -/
theorem Holds.get?_of_mem (h : Holds caseSensitive records graph) {node : Node}
    (hnode : node ∈ graph.nodes.values) : graph.get? node.title = some node := by
  rw [h.values] at hnode
  obtain ⟨key, -, hlast⟩ := List.mem_filterMap.mp hnode
  obtain ⟨record, hrecord, rfl⟩ := Option.map_eq_some_iff.mp hlast
  have hkey : keyOf caseSensitive (nodeOf record).title = key := keyOfRecord_of_lastWith hrecord
  rw [h.get?_title, hkey, hrecord]
  rfl

/-- The titles have the keys of the records, in the order of their first appearance. -/
theorem Holds.keys_titles (h : Holds caseSensitive records graph) :
    graph.titles.map (keyOf caseSensitive) = keysOf caseSensitive records := by
  have hkey : ∀ key ∈ graph.nodes.keys, (graph.nodes.get? key).map
      (fun node => keyOf caseSensitive node.title) = some key := by
    intro key hkey
    rw [h.get?]
    cases hlast : lastWith caseSensitive records key with
    | none =>
        rw [h.keys, mem_keysOf_iff] at hkey
        obtain ⟨record, hrecord, hsame⟩ := hkey
        exact absurd hsame (lastWith_eq_none_iff.mp hlast record hrecord)
    | some record => exact congrArg some (keyOfRecord_of_lastWith hlast)
  calc graph.titles.map (keyOf caseSensitive)
      = graph.nodes.values.map fun node => keyOf caseSensitive node.title := by
        rw [titles, List.map_map]
        rfl
    _ = graph.nodes.keys.filterMap fun key => (graph.nodes.get? key).map
          fun node => keyOf caseSensitive node.title := by
        rw [Table.values_eq_filterMap h.nodup, List.map_filterMap]
    _ = graph.nodes.keys := by
        rw [List.filterMap_congr hkey, List.filterMap_some]
    _ = keysOf caseSensitive records := h.keys

theorem Holds.size (h : Holds caseSensitive records graph) :
    graph.size = (keysOf caseSensitive records).length := by
  rw [← h.keys, Table.keys, List.length_map]
  rfl

/-! ## The reports -/

/-- The reports when records are added after others: those of reading each record, and a warning
if it takes the place of an earlier one, and one if it has no lines. -/
def additionLog (caseSensitive : Bool) : (before added : List Record) → List LogEntry
  | _, [] => []
  | before, record :: rest =>
    (Node.ofRecord record).log ++
      (if keyOfRecord caseSensitive record ∈ before.map (keyOfRecord caseSensitive) then
        [⟨.warning, "Duplicate conversation node '" ++ record.title ++
          "'; replacing earlier node."⟩] else []) ++
      (if (nodeOf record).lines = [] then
        [⟨.warning, "Conversation node '" ++ record.title ++ "' has no dialogue lines."⟩]
      else []) ++
      additionLog caseSensitive (before ++ [record]) rest

theorem Holds.contains (h : Holds caseSensitive records graph) (title : String) :
    graph.contains title =
      decide (keyOf caseSensitive title ∈ records.map (keyOfRecord caseSensitive)) := by
  rw [Bool.eq_iff_iff, decide_eq_true_iff, ← List.mem_eraseDups]
  show graph.nodes.contains (graph.key title) = true ↔
    keyOf caseSensitive title ∈ keysOf caseSensitive records
  rw [← h.keys, key, h.setting, ← not_iff_not, Bool.not_eq_true,
    Table.contains_eq_false_iff]

theorem Holds.log_addRecord (h : Holds caseSensitive records graph) (record : Record) :
    (graph.addRecord record).log = additionLog caseSensitive records [record] := by
  have hnotices : (graph.addRecord record).log =
      (Node.ofRecord record).log ++ graph.addNotices (nodeOf record) := rfl
  have htitle : (nodeOf record).title = record.title := rfl
  rw [hnotices, addNotices, h.contains, htitle]
  simp [additionLog, keyOfRecord]

theorem additionLog_cons (caseSensitive : Bool) (before : List Record) (record : Record)
    (rest : List Record) :
    additionLog caseSensitive before (record :: rest) =
      additionLog caseSensitive before [record] ++
        additionLog caseSensitive (before ++ [record]) rest := by
  simp [additionLog]

/-! ## Growing -/

/-- What may be done with a graph once it is there. -/
inductive Growth where
  | add (record : Record)
  | clone
  deriving DecidableEq, Repr

def Growth.record? : Growth → Option Record
  | add record => some record
  | clone => none

def grow (graph : Graph) : Growth → Logged Graph
  | .add record => graph.addRecord record
  | .clone => return graph.clone

/-- The graph after several growths. -/
def growAll (graph : Graph) (growths : List Growth) : Logged Graph :=
  growths.foldlM grow graph

theorem Holds.grow (h : Holds caseSensitive records graph) (growth : Growth) :
    Holds caseSensitive (records ++ growth.record?.toList) (graph.grow growth).value ∧
      (graph.grow growth).log =
        additionLog caseSensitive records growth.record?.toList := by
  cases growth with
  | add record => exact ⟨h.addRecord record, h.log_addRecord record⟩
  | clone =>
      refine ⟨?_, rfl⟩
      rw [Growth.record?, Option.toList_none, List.append_nil]
      exact h.clone

theorem Holds.growAll (h : Holds caseSensitive records graph) (growths : List Growth) :
    Holds caseSensitive (records ++ growths.filterMap Growth.record?)
        (graph.growAll growths).value ∧
      (graph.growAll growths).log =
        additionLog caseSensitive records (growths.filterMap Growth.record?) := by
  induction growths generalizing records graph with
  | nil =>
      rw [List.filterMap_nil, List.append_nil]
      exact ⟨h, rfl⟩
  | cons growth growths ih =>
      obtain ⟨hgrown, hlog⟩ := h.grow growth
      obtain ⟨hrest, hlogs⟩ := ih hgrown
      rw [Graph.growAll, List.foldlM_cons, Logged.value_bind, Logged.log_bind, hlog]
      rw [Graph.growAll] at hrest hlogs
      rw [hlogs]
      cases growth with
      | add record =>
          refine ⟨?_, ?_⟩
          · rw [List.append_assoc] at hrest
            exact hrest
          · exact (additionLog_cons caseSensitive records record _).symm
      | clone =>
          rw [Growth.record?, Option.toList_none, List.append_nil] at hrest ⊢
          exact ⟨hrest, rfl⟩

theorem foldlM_addRecord (records : List Record) (graph : Graph) :
    records.foldlM addRecord graph = graph.growAll (records.map Growth.add) := by
  rw [growAll, List.foldlM_map]
  rfl

theorem holds_ofRecords (caseSensitive : Bool) (records : List Record) :
    Holds caseSensitive records (ofRecords caseSensitive records).value ∧
      (ofRecords caseSensitive records).log = additionLog caseSensitive [] records ++
        [⟨.info, "Loaded conversation with " ++
          toString (keysOf caseSensitive records).length ++ " nodes."⟩] := by
  have hadded : (records.map Growth.add).filterMap Growth.record? = records := by
    rw [List.filterMap_map]
    exact List.filterMap_some
  obtain ⟨hholds, hlog⟩ := (holds_nil caseSensitive).growAll (records.map Growth.add)
  rw [← foldlM_addRecord, hadded] at hholds hlog
  rw [List.nil_append] at hholds
  refine ⟨hholds, ?_⟩
  rw [ofRecords, Logged.log_bind, Logged.log_bind, Logged.log_report, hlog, hholds.size]
  rfl

/-! ## Loading -/

/-- A graph is loaded from every list of valid records.  After that, and after more records have
been added and copies been made, a title leads to the node of the last record with its key, and
to none if there is no such record; there is one node for each key, in the order in which the
keys came first; and each of them is found under the title it has.  A record that replaces an
earlier one is reported, and so is one without lines. -/
theorem keyed_by_last_record (caseSensitive : Bool) {values : List Json.Value}
    (hvalid : Record.Valid (.array values)) (growths : List Growth) :
    ∃ loaded, load caseSensitive (.array values) = .ok loaded ∧
      let given := values.map Record.ofValue
      let added := growths.filterMap Growth.record?
      let grown := loaded.value.growAll growths
      (∀ title, grown.value.get? title =
          (lastWith caseSensitive (given ++ added) (keyOf caseSensitive title)).map nodeOf) ∧
        (∀ title, grown.value.get? title = none ↔
          ∀ record ∈ given ++ added, keyOf caseSensitive record.title ≠ keyOf caseSensitive title) ∧
        grown.value.nodes.values = ((keysOf caseSensitive (given ++ added)).filterMap fun key =>
          (lastWith caseSensitive (given ++ added) key).map nodeOf) ∧
        grown.value.titles.map (keyOf caseSensitive) = keysOf caseSensitive (given ++ added) ∧
        (grown.value.titles.map (keyOf caseSensitive)).Nodup ∧
        (∀ node ∈ grown.value.nodes.values,
          grown.value.contains node.title = true ∧ grown.value.get? node.title = some node) ∧
        loaded.log = additionLog caseSensitive [] given ++
          [⟨.info, "Loaded conversation with " ++
            toString (keysOf caseSensitive given).length ++ " nodes."⟩] ∧
        grown.log = additionLog caseSensitive given added := by
  obtain ⟨values', hdata, hload⟩ := load_of_valid caseSensitive hvalid
  obtain rfl := Json.Value.array.inj hdata
  refine ⟨_, hload, ?_⟩
  obtain ⟨hgiven, hlog⟩ := holds_ofRecords caseSensitive (values.map Record.ofValue)
  obtain ⟨hgrown, hmore⟩ := hgiven.growAll growths
  refine ⟨hgrown.get?_title, ?_, hgrown.values, hgrown.keys_titles, ?_, ?_, hlog, hmore⟩
  · intro title
    rw [hgrown.get?_title, Option.map_eq_none_iff, lastWith_eq_none_iff]
    rfl
  · rw [hgrown.keys_titles, ← hgrown.keys]
    exact hgrown.nodup
  · intro node hnode
    have hfound := hgrown.get?_of_mem hnode
    refine ⟨?_, hfound⟩
    show (Graph.get? _ node.title).isSome = true
    rw [hfound]
    rfl

/-- Records of two keys: the first and the last have titles that differ in case only, the others
have none. -/
def guests : List Json.Value :=
  [.object [("title", .string "Inn"), ("body", .string "one")],
    .object [("body", .string "two")],
    .object [("title", .null), ("tags", .null)],
    .object [("title", .string "INN"), ("body", .string "three")]]

theorem keyed_by_last_record_guests :
    Record.Valid (.array guests) ∧
      ∃ loaded, load false (.array guests) = .ok loaded ∧
        let grown := loaded.value.growAll [.clone, .add { title := "inn" }]
        grown.value.titles.map (keyOf false) = ["inn", ""] ∧
          (grown.value.get? "iNn").map Node.title = some "inn" ∧
          grown.log =
            [⟨.warning, "Duplicate conversation node 'inn'; replacing earlier node."⟩,
              ⟨.warning, "Conversation node 'inn' has no dialogue lines."⟩] := by
  have hvalid : Record.Valid (.array guests) := Record.valid_iff.mpr rfl
  obtain ⟨loaded, hload, hget, -, -, hkeys, -, -, -, hlog⟩ :=
    keyed_by_last_record false hvalid [.clone, .add { title := "inn" }]
  refine ⟨hvalid, loaded, hload, hkeys.trans ?_, ?_, hlog.trans ?_⟩
  · decide +kernel
  · rw [hget]
    decide +kernel
  · decide +kernel

end Parley.Graph
