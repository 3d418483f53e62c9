import Parley.World

/-!
# Graphs that no session holds

No session holds a graph that a manager has cached, or one of another session; so it has no node
and no line in common with them.  Whatever is changed in a memory, the graphs
that no session holds are left as they are, and no session comes to hold one of them (`Spares`):
sessions are given new graphs, and only what a session holds is ever changed in place.
-/

namespace Parley

namespace Memory

/-- A graph is there, and no session holds it. -/
structure Unheld (mem : Memory) (g : Ref Graph) : Prop where
  there : g.index < mem.store.graphs.length
  free : ∀ s, g ∉ heldBy mem.sessionCells s

/-- The graphs that no session holds are left as they are. -/
def Spares (mem mem' : Memory) : Prop :=
  ∀ g, mem.Unheld g → mem'.Unheld g ∧ mem'.store.graph g = mem.store.graph g

variable {mem mem' mem₁ mem₂ mem₃ : Memory}

theorem Spares.refl (mem : Memory) : mem.Spares mem :=
  fun _ hg => ⟨hg, rfl⟩

theorem Spares.trans (h : mem₁.Spares mem₂) (h' : mem₂.Spares mem₃) : mem₁.Spares mem₃ := by
  intro g hg
  obtain ⟨hg', hsame⟩ := h g hg
  obtain ⟨hg'', hsame'⟩ := h' g hg'
  exact ⟨hg'', hsame'.trans hsame⟩

theorem Spares.of_eq (h : mem' = mem) : mem.Spares mem' :=
  h ▸ .refl mem

/-- The graphs of one session change in place, or new ones come. -/
theorem Spares.of_puts {s : SessionId} {old new : List (Ref Graph)} {as : List Graph}
    (hput : Store.Puts .graphs mem.store mem'.store old new as)
    (hold : old ⊆ heldBy mem.sessionCells s)
    (hheld : ∀ t, heldBy mem'.sessionCells t =
      if t = s then new else heldBy mem.sessionCells t) : mem.Spares mem' := by
  intro g hg
  have hnot : g ∉ old := fun hmem => hg.free s (hold hmem)
  refine ⟨⟨Nat.lt_of_lt_of_le hg.there hput.grows, fun t ht => ?_⟩,
    hput.elsewhere g hg.there hnot⟩
  rw [hheld] at ht
  split at ht
  · rcases hput.origin g ht with hmem | hfresh
    · exact hnot hmem
    · exact absurd hg.there (Nat.not_lt.mpr hfresh)
  · exact hg.free t ht

/-- Nothing is given to a session. -/
theorem Spares.of_extends (hstays : mem.store.Extends mem'.store)
    (hsessions : mem'.sessionCells = mem.sessionCells) : mem.Spares mem' :=
  fun g hg => ⟨⟨Nat.lt_of_lt_of_le hg.there hstays.grows, hsessions ▸ hg.free⟩,
    hstays.graph g hg.there⟩

theorem spares_modifySession (mem : Memory) (s : SessionId) (f : Session → Session) :
    mem.Spares (mem.modifySession s f) := by
  unfold modifySession
  split
  · exact .refl mem
  · rename_i cell hcell
    have hput := mem.apart.puts hcell (f (cell.read mem.store)).graphs
    have hheld : heldBy mem.sessionCells s = cell.graphs := by simp [heldBy, hcell]
    refine .of_puts (s := s) hput (fun g hg => hheld ▸ hg) fun t => ?_
    rw [heldBy_set (List.getElem?_eq_some_iff.mp hcell).1, SessionCell.graphs_of hput.length_eq]

theorem spares_addSession (mem : Memory) (session : Session) :
    mem.Spares (mem.addSession session) := by
  have hput := mem.apart.puts_new session.graphs
  refine .of_puts (s := ⟨mem.sessionCells.length⟩) hput (List.nil_subset _) fun t => ?_
  rw [addSession, heldBy_append, SessionCell.graphs_of hput.length_eq]

theorem spares_modifyManager (mem : Memory) (m : ManagerId) (f : Manager → Manager) :
    mem.Spares (mem.modifyManager m f) := by
  unfold modifyManager
  split
  · exact .refl mem
  · rename_i cell hcell
    have hkeeps := mem.apart.keeps (fun g hg => ⟨cell, List.mem_of_getElem? hcell, hg⟩)
      (f (cell.read mem.store)).conversations
    exact .of_extends hkeeps.stays rfl

theorem spares_addManager (mem : Memory) (manager : Manager) :
    mem.Spares (mem.addManager manager) :=
  have hkeeps : mem.store.Keeps Table.empty _ _ manager.conversations :=
    mem.apart.keeps (fun _ hg => absurd hg List.not_mem_nil) _
  .of_extends hkeeps.stays rfl

end Memory

namespace World

variable {w : World} {s t : SessionId} {g g' : Ref Graph}

/-- The graphs of a session, by reference. -/
def graphsOf (w : World) (s : SessionId) : List (Ref Graph) :=
  heldBy w.memory.sessionCells s

theorem unheld_of_cached {m : ManagerId} {conversation : String}
    (h : w.cached? m conversation = some g) : w.memory.Unheld g := by
  obtain ⟨cell, hcell, hget⟩ := Option.bind_eq_some_iff.mp h
  obtain ⟨hthere, hfree⟩ := w.memory.apart.cached cell (List.mem_of_getElem? hcell) g
    (Table.mem_values_of_get? hget)
  exact ⟨hthere, hfree⟩

/-- Two sessions have no node and no line in common. -/
theorem disjoint_of_ne (hne : s ≠ t) (hg : g ∈ w.graphsOf s) (hg' : g' ∈ w.graphsOf t) :
    w.memory.store.Disjoint g g' := by
  refine w.memory.apart.forest.disjoint ?_
  rintro rfl
  exact hne (w.memory.apart.own.alone s t g hg hg')

/-- A session has no node and no line in common with a conversation that is cached. -/
theorem disjoint_of_cached {m : ManagerId} {conversation : String} (hg : g ∈ w.graphsOf s)
    (hcached : w.cached? m conversation = some g') : w.memory.store.Disjoint g g' := by
  refine w.memory.apart.forest.disjoint ?_
  rintro rfl
  exact (unheld_of_cached hcached).free s hg

end World

end Parley
