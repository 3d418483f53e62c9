import Parley.Session
import Parley.Store.Separate

/-!
# What sessions and managers hold

A session and a manager hold their graphs by reference.  The memory of a world is the store in
which the graphs are, with the sessions and the managers and their references into it.  No
graph belongs to two sessions, and none that a manager has cached belongs to a session.

Read through the references, the memory is a list of sessions and a list of managers.  A
change to a session is written through its references, and can be seen in no other session
and in no cached conversation.
-/

namespace Parley

/-- What a manager keeps besides its conversations: its displays by title, and the session it
started last on each display. -/
structure ManagerState where
  config : ConfigId
  displays : Table String DisplayId := Table.empty
  sessions : Table String SessionId := Table.empty

/-- A manager with its conversations by name. -/
structure Manager extends ManagerState where
  conversations : Table String Graph := Table.empty

/-- A manager, by its number. -/
structure ManagerId where
  index : Nat
  deriving DecidableEq, Repr

/-! ## References in place of graphs -/

/-- A session with references to its graphs. -/
structure SessionCell extends SessionState where
  graph : Option (Ref Graph) := none
  shelved : List (Ref Graph) := []

namespace SessionCell

/-- All graphs of a session, the present one last. -/
def graphs (cell : SessionCell) : List (Ref Graph) :=
  cell.shelved ++ cell.graph.toList

def read (st : Store) (cell : SessionCell) : Session :=
  { toSessionState := cell.toSessionState
    graph := cell.graph.map st.graph
    shelved := cell.shelved.map st.graph }

/-- A session with references to its graphs in place of them. -/
def of (session : Session) (refs : List (Ref Graph)) : SessionCell :=
  { toSessionState := session.toSessionState
    graph := session.graph.bind fun _ => refs.getLast?
    shelved := refs.take session.shelved.length }

theorem graphs_read (st : Store) (cell : SessionCell) :
    (cell.read st).graphs = cell.graphs.map st.graph := by
  cases hgraph : cell.graph <;> simp [Session.graphs, read, graphs, hgraph]

theorem of_read (st : Store) (cell : SessionCell) :
    of (cell.read st) cell.graphs = cell := by
  obtain ⟨state, graph, shelved⟩ := cell
  cases graph <;> simp [of, read, graphs]

theorem graphs_of {session : Session} {refs : List (Ref Graph)}
    (h : refs.length = session.graphs.length) : (of session refs).graphs = refs := by
  obtain ⟨state, graph, shelved⟩ := session
  cases graph with
  | none =>
      simp only [Session.graphs, Option.toList_none, List.append_nil] at h
      simp [graphs, of, ← h]
  | some g =>
      simp only [Session.graphs, Option.toList_some, List.length_append, List.length_cons,
        List.length_nil] at h
      obtain ⟨front, last, rfl⟩ := (List.eq_nil_or_concat refs).resolve_left
        (by rintro rfl; simp at h)
      have hfront : front.length = shelved.length := by simpa using h
      simp [graphs, of, ← hfront]

theorem read_of {st : Store} {session : Session} {refs : List (Ref Graph)}
    (h : refs.map st.graph = session.graphs) : (of session refs).read st = session := by
  obtain ⟨state, graph, shelved⟩ := session
  cases graph with
  | none =>
      simp only [Session.graphs, Option.toList_none, List.append_nil] at h
      simp [read, of, List.map_take, h]
  | some g =>
      simp only [Session.graphs, Option.toList_some] at h
      have hlast : refs.getLast?.map st.graph = some g := by
        rw [← List.getLast?_map, h, List.getLast?_concat]
      simp [read, of, List.map_take, h, hlast]

theorem read_congr {st st' : Store} {cell : SessionCell}
    (h : ∀ g ∈ cell.graphs, st'.graph g = st.graph g) : cell.read st' = cell.read st := by
  obtain ⟨state, graph, shelved⟩ := cell
  have hshelved : shelved.map st'.graph = shelved.map st.graph :=
    List.map_congr_left fun g hg => h g (List.mem_append_left _ hg)
  have hgraph : graph.map st'.graph = graph.map st.graph :=
    Option.map_congr fun g hg => h g (List.mem_append_right _ (Option.mem_toList.mpr hg))
  simp only [read, hshelved, hgraph]

end SessionCell

/-- A manager with references to its conversations. -/
structure ManagerCell extends ManagerState where
  conversations : Table String (Ref Graph) := Table.empty

namespace ManagerCell

def read (st : Store) (cell : ManagerCell) : Manager :=
  { toManagerState := cell.toManagerState
    conversations := cell.conversations.map st.graph }

theorem read_congr {st st' : Store} {cell : ManagerCell}
    (h : ∀ g ∈ cell.conversations.values, st'.graph g = st.graph g) :
    cell.read st' = cell.read st := by
  have hentries : cell.conversations.map st'.graph = cell.conversations.map st.graph :=
    congrArg Table.mk (List.map_congr_left fun entry hentry =>
      congrArg (Prod.mk entry.1) (h entry.2 (List.mem_map_of_mem hentry)))
  simp only [read, hentries]

end ManagerCell

/-! ## No graph of two -/

/-- The graphs that a session refers to. -/
def heldBy (cells : List SessionCell) (s : SessionId) : List (Ref Graph) :=
  (cells[s.index]?).elim [] SessionCell.graphs

/-- A graph belongs to one session at most, and one that is cached belongs to none. -/
structure Apart (store : Store) (sessions : List SessionCell) (managers : List ManagerCell) :
    Prop where
  forest : store.Forest
  own : Owned (heldBy sessions) store.graphs.length
  cached : ∀ manager ∈ managers, ∀ g ∈ manager.conversations.values,
    g.index < store.graphs.length ∧ ∀ s, g ∉ heldBy sessions s

theorem heldBy_set {cells : List SessionCell} {s : SessionId} (hs : s.index < cells.length)
    (cell : SessionCell) (t : SessionId) :
    heldBy (cells.set s.index cell) t = if t = s then cell.graphs else heldBy cells t := by
  obtain ⟨i⟩ := s
  obtain ⟨j⟩ := t
  have hi : i < cells.length := hs
  by_cases h : j = i
  · subst h
    simp [heldBy, hi]
  · simp [heldBy, h, Ne.symm h]

theorem heldBy_append (cells : List SessionCell) (cell : SessionCell) (t : SessionId) :
    heldBy (cells ++ [cell]) t =
      if t = ⟨cells.length⟩ then cell.graphs else heldBy cells t := by
  obtain ⟨j⟩ := t
  by_cases h : j = cells.length <;> simp [heldBy, Store.getElem?_concat, h]

namespace Apart

variable {store store' : Store} {sessions sessions' : List SessionCell}
  {managers : List ManagerCell}

/-- The graphs of one session may change in place, and new ones may come. -/
theorem put (h : Apart store sessions managers) {s : SessionId} {old new : List (Ref Graph)}
    {as : List Graph} (hput : Store.Puts .graphs store store' old new as)
    (hold : old ⊆ heldBy sessions s)
    (hheld : ∀ t, heldBy sessions' t = if t = s then new else heldBy sessions t) :
    Apart store' sessions' managers where
  forest := hput.forest
  own := h.own.update hput.grows hput.there hput.once
    (fun g hg => (hput.origin g hg).imp_left (hold ·)) hheld
  cached manager hmanager g hg := by
    obtain ⟨hthere, hnot⟩ := h.cached manager hmanager g hg
    refine ⟨Nat.lt_of_lt_of_le hthere hput.grows, fun t ht => ?_⟩
    rw [hheld] at ht
    split at ht
    · rcases hput.origin g ht with hmem | hfresh
      · exact hnot s (hold hmem)
      · exact absurd hthere (Nat.not_lt.mpr hfresh)
    · exact hnot t ht

/-- The conversations of managers may change if they are those of managers before, or new. -/
theorem keep (h : Apart store sessions managers) (hstays : store.Extends store')
    {managers' : List ManagerCell}
    (hcached : ∀ manager ∈ managers', ∀ g ∈ manager.conversations.values,
      g.index < store'.graphs.length ∧
        ((∃ before ∈ managers, g ∈ before.conversations.values) ∨
          store.graphs.length ≤ g.index)) : Apart store' sessions managers' where
  forest := hstays.forest
  own := ⟨fun s g hg => Nat.lt_of_lt_of_le (h.own.there s g hg) hstays.grows, h.own.once,
    h.own.alone⟩
  cached manager hmanager g hg := by
    obtain ⟨hthere, ⟨before, hbefore, hmem⟩ | hfresh⟩ := hcached manager hmanager g hg
    · exact ⟨hthere, (h.cached before hbefore g hmem).2⟩
    · exact ⟨hthere, fun s hs => absurd (h.own.there s g hs) (Nat.not_lt.mpr hfresh)⟩

/-- What is added to the store is not seen in the sessions and managers. -/
theorem read_stays (h : Apart store sessions managers) (hstays : store.Extends store') :
    sessions.map (SessionCell.read store') = sessions.map (SessionCell.read store) ∧
      managers.map (ManagerCell.read store') = managers.map (ManagerCell.read store) := by
  constructor
  · refine List.map_congr_left fun cell hcell => SessionCell.read_congr fun g hg => ?_
    obtain ⟨i, hi⟩ := List.mem_iff_getElem?.mp hcell
    exact hstays.graph g (h.own.there ⟨i⟩ g (by simp [heldBy, hi, hg]))
  · refine List.map_congr_left fun cell hcell => ManagerCell.read_congr fun g hg => ?_
    exact hstays.graph g (h.cached cell hcell g hg).1

/-- What is put in the place of the graphs of one session is not seen in any other session, nor in
the managers. -/
theorem read_put (h : Apart store sessions managers) {s : SessionId} {cell cell' : SessionCell}
    {new : List (Ref Graph)} {as : List Graph} (hcell : sessions[s.index]? = some cell)
    (hput : Store.Puts .graphs store store' cell.graphs new as) :
    (sessions.set s.index cell').map (SessionCell.read store') =
        (sessions.map (SessionCell.read store)).set s.index (cell'.read store') ∧
      managers.map (ManagerCell.read store') = managers.map (ManagerCell.read store) := by
  have hheld : heldBy sessions s = cell.graphs := by simp [heldBy, hcell]
  constructor
  · rw [List.map_set]
    refine List.ext_getElem? fun i => ?_
    rw [List.getElem?_set, List.getElem?_set, List.length_map, List.length_map]
    split
    · rfl
    · rename_i hne
      rw [List.getElem?_map, List.getElem?_map]
      refine Option.map_congr fun other hother => SessionCell.read_congr fun g hg => ?_
      have hg' : g ∈ heldBy sessions ⟨i⟩ := by simp [heldBy, hother, hg]
      refine hput.elsewhere g (h.own.there ⟨i⟩ g hg') fun hmem => hne ?_
      exact congrArg SessionId.index (h.own.alone s ⟨i⟩ g (hheld ▸ hmem) hg')
  · refine List.map_congr_left fun cell hcell => ManagerCell.read_congr fun g hg => ?_
    obtain ⟨hthere, hnot⟩ := h.cached cell hcell g hg
    exact hput.elsewhere g hthere fun hmem => hnot s (hheld ▸ hmem)

/-- The graphs of a session can be put. -/
theorem puts (h : Apart store sessions managers) {s : SessionId} {cell : SessionCell}
    (hcell : sessions[s.index]? = some cell) (as : List Graph) :
    Store.Puts .graphs store (store.putGraphs cell.graphs as).1 cell.graphs
      (store.putGraphs cell.graphs as).2 as := by
  have hheld : heldBy sessions s = cell.graphs := by simp [heldBy, hcell]
  exact Store.puts_putGraphs h.forest (hheld ▸ h.own.there s) (hheld ▸ h.own.once s) as

theorem puts_new (h : Apart store sessions managers) (as : List Graph) :
    Store.Puts .graphs store (store.putGraphs [] as).1 [] (store.putGraphs [] as).2 as :=
  Store.puts_putGraphs h.forest (by simp) List.nodup_nil as

theorem putSession (h : Apart store sessions managers) {s : SessionId} {cell : SessionCell}
    (hcell : sessions[s.index]? = some cell) (session : Session) :
    Apart (store.putGraphs cell.graphs session.graphs).1
      (sessions.set s.index (.of session (store.putGraphs cell.graphs session.graphs).2))
      managers := by
  have hput := h.puts hcell session.graphs
  have hheld : heldBy sessions s = cell.graphs := by simp [heldBy, hcell]
  refine h.put (s := s) hput (fun g hg => hheld ▸ hg) fun t => ?_
  rw [heldBy_set (List.getElem?_eq_some_iff.mp hcell).1, SessionCell.graphs_of hput.length_eq]

theorem addSession (h : Apart store sessions managers) (session : Session) :
    Apart (store.putGraphs [] session.graphs).1
      (sessions ++ [.of session (store.putGraphs [] session.graphs).2]) managers := by
  have hput := h.puts_new session.graphs
  refine h.put (s := ⟨sessions.length⟩) hput (List.nil_subset _) fun t => ?_
  rw [heldBy_append, SessionCell.graphs_of hput.length_eq]

theorem addSessionOn (h : Apart store sessions managers) (state : SessionState) (g : Ref Graph) :
    Apart (store.copyGraph g).1
      (sessions ++ [{ toSessionState := state, graph := some (store.copyGraph g).2 }])
      managers := by
  have hcopy := Store.copyGraph_eq h.forest g ▸ Store.puts_addGraph h.forest (store.graph g).clone
  exact h.put (s := ⟨sessions.length⟩) hcopy (List.nil_subset _) (heldBy_append _ _)

theorem keeps (h : Apart store sessions managers) {cached : Table String (Ref Graph)}
    (hcached : ∀ g ∈ cached.values, ∃ manager ∈ managers, g ∈ manager.conversations.values)
    (graphs : Table String Graph) :
    store.Keeps cached (store.keepAll cached graphs).1 (store.keepAll cached graphs).2 graphs :=
  Store.keeps_keepAll h.forest (fun g hg => by
    obtain ⟨manager, hmanager, hmem⟩ := hcached g hg
    exact (h.cached manager hmanager g hmem).1) graphs

theorem keepAll (h : Apart store sessions managers) {cached : Table String (Ref Graph)}
    (hcached : ∀ g ∈ cached.values, ∃ manager ∈ managers, g ∈ manager.conversations.values)
    (graphs : Table String Graph) {managers' : List ManagerCell}
    (hmanagers : ∀ manager ∈ managers', manager ∈ managers ∨
      manager.conversations = (store.keepAll cached graphs).2) :
    Apart (store.keepAll cached graphs).1 sessions managers' := by
  have hkeeps := h.keeps hcached graphs
  refine h.keep hkeeps.stays fun manager hmanager g hg => ?_
  rcases hmanagers manager hmanager with hmem | heq
  · exact ⟨Nat.lt_of_lt_of_le (h.cached manager hmem g hg).1 hkeeps.stays.grows,
      .inl ⟨manager, hmem, hg⟩⟩
  · rw [heq] at hg
    exact ⟨hkeeps.there g hg, (hkeeps.origin g hg).imp_left (hcached g)⟩

theorem modifyManager (h : Apart store sessions managers) {m : ManagerId} {cell : ManagerCell}
    (hcell : managers[m.index]? = some cell) (manager : Manager) :
    Apart (store.keepAll cell.conversations manager.conversations).1 sessions
      (managers.set m.index
        { toManagerState := manager.toManagerState
          conversations := (store.keepAll cell.conversations manager.conversations).2 }) := by
  refine h.keepAll (fun g hg => ⟨cell, List.mem_of_getElem? hcell, hg⟩) manager.conversations
    fun other hother => ?_
  rcases List.mem_or_eq_of_mem_set hother with hmem | rfl
  · exact .inl hmem
  · exact .inr rfl

theorem addManager (h : Apart store sessions managers) (manager : Manager) :
    Apart (store.keepAll Table.empty manager.conversations).1 sessions
      (managers ++
        [{ toManagerState := manager.toManagerState
           conversations := (store.keepAll Table.empty manager.conversations).2 }]) := by
  refine h.keepAll (fun g hg => absurd hg List.not_mem_nil) manager.conversations
    fun other hother => ?_
  rcases List.mem_append.mp hother with hmem | hnew
  · exact .inl hmem
  · exact .inr (List.mem_singleton.mp hnew ▸ rfl)

end Apart

/-- What sessions and managers hold, with the store that their references lead into. -/
structure Memory where
  store : Store := {}
  sessionCells : List SessionCell := []
  managerCells : List ManagerCell := []
  apart : Apart store sessionCells managerCells

namespace Memory

/-! ## Read through the references -/

def sessions (mem : Memory) : List Session :=
  mem.sessionCells.map (SessionCell.read mem.store)

def managers (mem : Memory) : List Manager :=
  mem.managerCells.map (ManagerCell.read mem.store)

def empty : Memory where
  apart :=
    { forest := ⟨.nothing, .nothing⟩
      own := .nothing
      cached := fun _ h => absurd h List.not_mem_nil }

/-! ## Sessions -/

/-- Change a session: its graphs are changed where they are, and what it has in addition is
stored. -/
def modifySession (mem : Memory) (s : SessionId) (f : Session → Session) : Memory :=
  match hcell : mem.sessionCells[s.index]? with
  | none => mem
  | some cell =>
    let session := f (cell.read mem.store)
    let put := mem.store.putGraphs cell.graphs session.graphs
    { store := put.1
      sessionCells := mem.sessionCells.set s.index (.of session put.2)
      managerCells := mem.managerCells
      apart := mem.apart.putSession hcell session }

/-- A new session, with graphs of its own. -/
def addSession (mem : Memory) (session : Session) : Memory :=
  let put := mem.store.putGraphs [] session.graphs
  { store := put.1
    sessionCells := mem.sessionCells ++ [.of session put.2]
    managerCells := mem.managerCells
    apart := mem.apart.addSession session }

/-- A new session with a copy of a graph. -/
def addSessionOn (mem : Memory) (state : SessionState) (g : Ref Graph) : Memory :=
  let copy := mem.store.copyGraph g
  { store := copy.1
    sessionCells := mem.sessionCells ++ [{ toSessionState := state, graph := some copy.2 }]
    managerCells := mem.managerCells
    apart := mem.apart.addSessionOn state g }

/-! ## Managers -/

/-- Change a manager.  A conversation that is replaced is not changed where it is: whoever
refers to it keeps what it was. -/
def modifyManager (mem : Memory) (m : ManagerId) (f : Manager → Manager) : Memory :=
  match hcell : mem.managerCells[m.index]? with
  | none => mem
  | some cell =>
    let manager := f (cell.read mem.store)
    let kept := mem.store.keepAll cell.conversations manager.conversations
    { store := kept.1
      sessionCells := mem.sessionCells
      managerCells := mem.managerCells.set m.index
        { toManagerState := manager.toManagerState, conversations := kept.2 }
      apart := mem.apart.modifyManager hcell manager }

def addManager (mem : Memory) (manager : Manager) : Memory :=
  let kept := mem.store.keepAll Table.empty manager.conversations
  { store := kept.1
    sessionCells := mem.sessionCells
    managerCells := mem.managerCells ++
      [{ toManagerState := manager.toManagerState, conversations := kept.2 }]
    apart := mem.apart.addManager manager }

/-! ## Read after a change -/

variable {mem : Memory} {s : SessionId}

theorem modify_eq_set {α : Type} {as : List α} {i : Nat} {a : α} (h : as[i]? = some a)
    (f : α → α) : as.modify i f = as.set i (f a) := by
  obtain ⟨hlt, rfl⟩ := List.getElem?_eq_some_iff.mp h
  refine List.ext_getElem? fun j => ?_
  rw [List.getElem?_modify, List.getElem?_set]
  split
  · rename_i hij
    subst hij
    simp [hlt]
  · simp

/-- A change to a session is the change that it is meant to be, and is seen nowhere else. -/
theorem read_modifySession (mem : Memory) (s : SessionId) (f : Session → Session) :
    (mem.modifySession s f).sessions = mem.sessions.modify s.index f ∧
      (mem.modifySession s f).managers = mem.managers := by
  unfold modifySession
  split
  · rename_i hcell
    refine ⟨(List.modify_eq_self ?_).symm, rfl⟩
    rw [sessions, List.length_map]
    exact List.getElem?_eq_none_iff.mp hcell
  · rename_i cell hcell
    have hput := mem.apart.puts hcell (f (cell.read mem.store)).graphs
    obtain ⟨hsessions, hmanagers⟩ := mem.apart.read_put hcell hput
    refine ⟨hsessions.trans ?_, hmanagers⟩
    have hold : mem.sessions[s.index]? = some (cell.read mem.store) := by
      rw [sessions, List.getElem?_map, hcell, Option.map_some]
    rw [SessionCell.read_of hput.reads, modify_eq_set hold, sessions]

theorem managerCells_modifySession (mem : Memory) (s : SessionId) (f : Session → Session) :
    (mem.modifySession s f).managerCells = mem.managerCells := by
  unfold modifySession
  split <;> rfl

theorem read_addSession (mem : Memory) (session : Session) :
    (mem.addSession session).sessions = mem.sessions ++ [session] ∧
      (mem.addSession session).managers = mem.managers := by
  have hput := mem.apart.puts_new session.graphs
  obtain ⟨hsessions, hmanagers⟩ := mem.apart.read_stays hput.stays
  refine ⟨?_, hmanagers⟩
  rw [sessions, addSession, List.map_append, hsessions, List.map_singleton,
    SessionCell.read_of hput.reads]
  rfl

theorem read_modifyManager (mem : Memory) (m : ManagerId) (f : Manager → Manager) :
    (mem.modifyManager m f).sessions = mem.sessions ∧
      (mem.modifyManager m f).managers = mem.managers.modify m.index f := by
  unfold modifyManager
  split
  · rename_i hcell
    refine ⟨rfl, (List.modify_eq_self ?_).symm⟩
    rw [managers, List.length_map]
    exact List.getElem?_eq_none_iff.mp hcell
  · rename_i cell hcell
    have hkeeps := mem.apart.keeps (fun g hg => ⟨cell, List.mem_of_getElem? hcell, hg⟩)
      (f (cell.read mem.store)).conversations
    obtain ⟨hsessions, hmanagers⟩ := mem.apart.read_stays hkeeps.stays
    refine ⟨hsessions, ?_⟩
    have hold : mem.managers[m.index]? = some (cell.read mem.store) := by
      rw [managers, List.getElem?_map, hcell, Option.map_some]
    rw [modify_eq_set hold]
    simp only [managers]
    rw [List.map_set, hmanagers, ManagerCell.read, hkeeps.reads]

theorem read_addManager (mem : Memory) (manager : Manager) :
    (mem.addManager manager).sessions = mem.sessions ∧
      (mem.addManager manager).managers = mem.managers ++ [manager] := by
  have hkeeps : mem.store.Keeps Table.empty _ _ manager.conversations :=
    mem.apart.keeps (fun g hg => absurd hg List.not_mem_nil) _
  obtain ⟨hsessions, hmanagers⟩ := mem.apart.read_stays hkeeps.stays
  refine ⟨hsessions, ?_⟩
  rw [managers, addManager, List.map_append, hmanagers, List.map_singleton, ManagerCell.read,
    hkeeps.reads]
  rfl

/-! ## Changes that come to the same -/

theorem ext {mem mem' : Memory} (hstore : mem'.store = mem.store)
    (hsessions : mem'.sessionCells = mem.sessionCells)
    (hmanagers : mem'.managerCells = mem.managerCells) : mem' = mem := by
  cases mem
  cases mem'
  simp_all

/-- A session with a copy of a graph has a graph of its own, which says the same with all cursors
at the first line. -/
theorem addSessionOn_eq (mem : Memory) (state : SessionState) (g : Ref Graph) :
    mem.addSessionOn state g =
      mem.addSession { toSessionState := state, graph := some (mem.store.graph g).clone } := by
  have hcopy := Store.copyGraph_eq mem.apart.forest g
  refine ext (congrArg Prod.fst hcopy) ?_ rfl
  show _ ++
    [({ toSessionState := state, graph := some (mem.store.copyGraph g).2 } : SessionCell)] = _
  rw [hcopy]
  rfl

/-- A session may be put back as it is. -/
theorem modifySession_self {session : Session} (h : mem.sessions[s.index]? = some session)
    {f : Session → Session} (hf : f session = session) : mem.modifySession s f = mem := by
  unfold modifySession
  split
  · rfl
  · rename_i cell hcell
    have hread : cell.read mem.store = session := by
      rw [sessions, List.getElem?_map, hcell] at h
      exact Option.some.inj h
    have hself : f (cell.read mem.store) = cell.read mem.store := by rw [hread, hf]
    have hput : mem.store.putGraphs cell.graphs (f (cell.read mem.store)).graphs =
        (mem.store, cell.graphs) := by
      rw [hself, SessionCell.graphs_read, Store.putGraphs_self]
    refine ext (congrArg Prod.fst hput) ?_ rfl
    show mem.sessionCells.set s.index (.of _ (mem.store.putGraphs _ _).2) = _
    rw [hput, hself, SessionCell.of_read]
    obtain ⟨hlt, rfl⟩ := List.getElem?_eq_some_iff.mp hcell
    exact List.set_getElem_self hlt

end Memory

end Parley
