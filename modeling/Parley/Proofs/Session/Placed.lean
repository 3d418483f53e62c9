import Parley.Proofs.Table
import Parley.Session

/-!
# Where a session stands

A session starts out idle over a graph whose cursors are all at the first line.  Its moves, and
loading another graph, lead only to nodes that have lines and leave every cursor on a line
(`Placed`).  So a move never finds a cursor past the last line, and the only failure it can
come to is that of a node without lines.

A line that can be found in a session can still be found after any of this (`KeepsLines`).
-/

namespace Parley

/-! ## Graphs that have just been loaded -/

namespace Graph

/-- All cursors are at the first line. -/
def Unread (graph : Graph) : Prop :=
  ∀ key node, graph.nodes.get? key = some node → node.cursor = 0

/-- No cursor has run past the last line. -/
def InBounds (graph : Graph) : Prop :=
  ∀ key node, graph.nodes.get? key = some node → 0 < node.size → node.cursor < node.size

theorem Unread.inBounds {graph : Graph} (h : graph.Unread) : graph.InBounds := by
  intro key node hnode hsize
  rw [h key node hnode]
  exact hsize

theorem Unread.addRecord {graph : Graph} (h : graph.Unread) (record : Record) :
    (graph.addRecord record).value.Unread := by
  intro key node hnode
  have hinsert : (graph.addRecord record).value.nodes =
      graph.nodes.insert (graph.key (Node.ofRecord record).value.title)
        (Node.ofRecord record).value := rfl
  rw [hinsert, Table.get?_insert] at hnode
  split at hnode
  · rw [← Option.some.inj hnode]
    rfl
  · exact h key node hnode

theorem unread_ofRecords (caseSensitive : Bool) (records : List Record) :
    (ofRecords caseSensitive records).value.Unread := by
  have hfold : ∀ (graph : Graph), graph.Unread →
      (records.foldlM Graph.addRecord graph : Logged Graph).value.Unread := by
    induction records with
    | nil => exact fun graph hgraph => hgraph
    | cons record records ih =>
        intro graph hgraph
        rw [List.foldlM_cons, Logged.value_bind]
        exact ih _ (hgraph.addRecord record)
  refine hfold { caseSensitive } fun key node hnode => ?_
  exact absurd hnode (by simp)

theorem unread_load {caseSensitive : Bool} {data : Json.Value} {loaded : Logged Graph}
    (h : load caseSensitive data = .ok loaded) : loaded.value.Unread := by
  unfold load at h
  cases hrecords : Record.listOfValue data with
  | error failure =>
      rw [hrecords] at h
      exact absurd h (by simp [Except.map])
  | ok records =>
      rw [hrecords] at h
      rw [← Except.ok.inj h]
      exact unread_ofRecords caseSensitive records

theorem unread_clone (graph : Graph) : graph.clone.Unread := by
  intro key node hnode
  rw [clone, Table.get?_map, Option.map_eq_some_iff] at hnode
  obtain ⟨original, -, rfl⟩ := hnode
  rfl

end Graph

namespace Session

/-- A session over a graph that has just been loaded, or over none. -/
structure Fresh (session : Session) : Prop where
  phase : session.phase = .idle
  unread : ∀ graph, session.graph = some graph → graph.Unread

/-- A session is idle or at a node that has lines, and all cursors are on lines. -/
structure Placed (session : Session) : Prop where
  current : ∀ key, session.phase.key? = some key →
    ∃ node, session.currentNode? = some node ∧ 0 < node.size
  inBounds : ∀ graph, session.graph = some graph → graph.InBounds

variable {session : Session} {graph : Graph} {key : String} {node stored : Node}

theorem Fresh.placed (h : session.Fresh) : session.Placed := by
  refine ⟨fun key hkey => ?_, fun graph hgraph => (h.unread graph hgraph).inBounds⟩
  rw [h.phase] at hkey
  exact absurd hkey (by simp [Phase.key?])

theorem currentNode?_eq_some_iff : session.currentNode? = some node ↔
    ∃ graph key, session.graph = some graph ∧ session.phase.key? = some key ∧
      graph.nodes.get? key = some node := by
  simp [currentNode?, Option.bind_eq_some_iff]

theorem currentNode?_of_stored (hstored : session.graph.bind (·.nodes.get? key) = some stored)
    (hkey : session.phase.key? = some key) : session.currentNode? = some stored := by
  rw [currentNode?, hkey]
  exact hstored

/-! ## Replacing a node -/

theorem graph_setNode (hgraph : session.graph = some graph) (key : String) (node : Node) :
    (session.setNode key node).graph = some (graph.modify key fun _ => node) := by
  rw [setNode, hgraph]
  rfl

theorem stored_setNode (hstored : session.graph.bind (·.nodes.get? key) = some stored)
    (other : String) : (session.setNode key node).graph.bind (·.nodes.get? other) =
      if key = other then some node else session.graph.bind (·.nodes.get? other) := by
  obtain ⟨graph, hgraph, hget⟩ := Option.bind_eq_some_iff.mp hstored
  rw [graph_setNode hgraph, hgraph]
  show (graph.modify key fun _ => node).nodes.get? other = _
  rw [Graph.modify, Table.get?_modify]
  split
  · rename_i heq
    rw [← heq, hget]
    rfl
  · rfl

theorem currentNode?_setNode (hstored : session.graph.bind (·.nodes.get? key) = some stored) :
    (session.setNode key node).currentNode? =
      if session.phase.key? = some key then some node else session.currentNode? := by
  have hcurrent : ∀ found : Session, found.currentNode? =
      found.phase.key?.bind fun other => found.graph.bind (·.nodes.get? other) := by
    intro found
    unfold currentNode?
    cases found.graph <;> cases found.phase.key? <;> rfl
  rw [hcurrent, hcurrent, phase_setNode]
  cases session.phase.key? with
  | none => rfl
  | some other =>
      show (session.setNode key node).graph.bind (·.nodes.get? other) = _
      rw [stored_setNode hstored]
      by_cases h : key = other
      · simp [h]
      · simp [h, Ne.symm h]

/-- A node that replaces another can be entered. -/
theorem currentNode?_enter (hstored : session.graph.bind (·.nodes.get? key) = some stored) :
    currentNode? { session.setNode key node with phase := .inNode key } = some node := by
  obtain ⟨graph, hgraph, hget⟩ := Option.bind_eq_some_iff.mp hstored
  have hnode : (graph.modify key fun _ => node).nodes.get? key = some node := by
    rw [Graph.modify, Table.get?_modify, if_pos rfl, hget]
    rfl
  exact currentNode?_eq_some_iff.mpr ⟨_, key, graph_setNode hgraph key node, rfl, hnode⟩

/-- A node may be replaced by one of the same size whose cursor is on a line. -/
theorem Placed.setNode (h : session.Placed)
    (hstored : session.graph.bind (·.nodes.get? key) = some stored)
    (hsize : node.size = stored.size) (hcursor : 0 < node.size → node.cursor < node.size) :
    (session.setNode key node).Placed := by
  obtain ⟨graph, hgraph, hget⟩ := Option.bind_eq_some_iff.mp hstored
  constructor
  · intro here hhere
    rw [phase_setNode] at hhere
    obtain ⟨current, hcurrent, hpos⟩ := h.current here hhere
    rw [currentNode?_setNode hstored]
    split
    · rename_i hkey
      -- The node that is replaced is the current one.
      obtain rfl : current = stored :=
        Option.some.inj (hcurrent.symm.trans (currentNode?_of_stored hstored hkey))
      exact ⟨node, rfl, hsize ▸ hpos⟩
    · exact ⟨current, hcurrent, hpos⟩
  · intro changed hchanged other found hfound
    rw [graph_setNode hgraph, Option.some.injEq] at hchanged
    subst hchanged
    rw [Graph.modify, Table.get?_modify] at hfound
    split at hfound
    · obtain ⟨old, -, rfl⟩ := Option.map_eq_some_iff.mp hfound
      exact hcursor
    · exact h.inBounds graph hgraph other found hfound

theorem Placed.replaceGraph (h : graph.InBounds) (session : Session) :
    (session.replaceGraph graph).Placed := by
  refine ⟨fun key hkey => ?_, fun found hfound => ?_⟩
  · rw [phase_replaceGraph] at hkey
    exact absurd hkey (by simp [Phase.key?])
  · rw [graph_replaceGraph, Option.some.injEq] at hfound
    exact hfound ▸ h

/-- A session that stands where a placed one stands, or has only finished since. -/
theorem Placed.congr {session' : Session} (h : session.Placed)
    (hgraph : session'.graph = session.graph) (hphase : session'.phase = session.phase) :
    session'.Placed := by
  have hcurrent : session'.currentNode? = session.currentNode? := by
    rw [currentNode?, hgraph, hphase, currentNode?]
  refine ⟨fun key hkey => ?_, fun graph hsome => h.inBounds graph (hgraph ▸ hsome)⟩
  rw [hcurrent]
  exact h.current key (hphase ▸ hkey)

end Session

end Parley
