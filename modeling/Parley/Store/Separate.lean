import Parley.Store

/-!
# Things that are not shared

A store is a forest if each of its lines belongs to one node at most and each of its nodes to one
graph at most.  In a forest nothing but a thing itself is seen to change when the thing is
overwritten, and a copy has no part in common with its original, so that a change to one of the two
is not seen in the other.

## Strategy

All of this is told by one relation: between two stores, things of a kind have been put under some
references, old or new, and all others of the kind are as before (`Puts`).  Such changes can be made
one after the other as long as they are made in different places (`Puts.append`), and a change to
the parts of a thing is a change to the thing (`Puts.whole`).
-/

namespace Parley

/-! ## Owners -/

/-- Things with their parts: all parts are there, and each is a part of one thing only and only
once. -/
structure Owned {ι α : Type} (parts : ι → List (Ref α)) (count : Nat) : Prop where
  there : ∀ i, ∀ p ∈ parts i, p.index < count
  once : ∀ i, (parts i).Nodup
  alone : ∀ i j p, p ∈ parts i → p ∈ parts j → i = j

namespace Owned

variable {ι α : Type} {parts parts' : ι → List (Ref α)} {count count' : Nat}

theorem nothing : Owned (fun _ : ι => ([] : List (Ref α))) count :=
  ⟨by simp, by simp, by simp⟩

/-- The parts of one thing may change: some may go, and new ones may come. -/
theorem update [DecidableEq ι] (h : Owned parts count) {i : ι} {new : List (Ref α)}
    (hle : count ≤ count') (hthere : ∀ p ∈ new, p.index < count') (honce : new.Nodup)
    (horigin : ∀ p ∈ new, p ∈ parts i ∨ count ≤ p.index)
    (hparts : ∀ j, parts' j = if j = i then new else parts j) : Owned parts' count' := by
  have hnot : ∀ j p, j ≠ i → p ∈ new → p ∉ parts j := by
    intro j p hne hnew hold
    rcases horigin p hnew with hmem | hfresh
    · exact hne (h.alone j i p hold hmem)
    · exact absurd (h.there j p hold) (Nat.not_lt.mpr hfresh)
  constructor
  case there =>
    intro j p hp
    rw [hparts] at hp
    split at hp
    · exact hthere p hp
    · exact Nat.lt_of_lt_of_le (h.there j p hp) hle
  case once =>
    intro j
    rw [hparts]
    split
    · exact honce
    · exact h.once j
  case alone =>
    intro j k p hj hk
    rw [hparts] at hj hk
    by_cases hji : j = i <;> by_cases hki : k = i
    · rw [hji, hki]
    · rw [if_pos hji] at hj
      rw [if_neg hki] at hk
      exact absurd hk (hnot k p hki hj)
    · rw [if_neg hji] at hj
      rw [if_pos hki] at hk
      exact absurd hj (hnot j p hji hk)
    · rw [if_neg hji] at hj
      rw [if_neg hki] at hk
      exact h.alone j k p hj hk

end Owned

namespace Store

def linesOf (st : Store) (n : Ref Node) : List (Ref Line) :=
  (st.nodeCell n).lines

def nodesOf (st : Store) (g : Ref Graph) : List (Ref Node) :=
  (st.graphCell g).nodes.values

/-- No two nodes have a line in common, and no two graphs a node. -/
structure Forest (st : Store) : Prop where
  lines : Owned st.linesOf st.lines.length
  nodes : Owned st.nodesOf st.nodes.length

/-- Graphs that share a node are moved on together. -/
example :
    let shared : GraphCell := { nodes := ⟨[("a", ⟨0⟩)]⟩ }
    let st : Store := { nodes := [{ title := "A" }], graphs := [shared, shared] }
    let moved : Graph := { nodes := ⟨[("a", { title := "A", cursor := 1 })]⟩ }
    ((st.putGraph ⟨0⟩ moved).graph ⟨1⟩).nodes.values.map (·.cursor) = [1] := by decide

/-- Two graphs have no node and no line in common. -/
structure Disjoint (st : Store) (g g' : Ref Graph) : Prop where
  nodes : ∀ n ∈ st.nodesOf g, n ∉ st.nodesOf g'
  lines : ∀ n ∈ st.nodesOf g, ∀ n' ∈ st.nodesOf g', ∀ l ∈ st.linesOf n, l ∉ st.linesOf n'

theorem Forest.disjoint {st : Store} (h : st.Forest) {g g' : Ref Graph} (hne : g ≠ g') :
    st.Disjoint g g' where
  nodes n hn hn' := hne (h.nodes.alone g g' n hn hn')
  lines n hn n' hn' l hl hl' :=
    hne (h.nodes.alone g g' n hn (h.lines.alone n n' l hl hl' ▸ hn'))

/-! ## Putting things into a store -/

/-- How the things of a kind are found in a store, and what a store has that they are not made
of. -/
structure Kind (α δ : Type) where
  count : Store → Nat
  read : Store → Ref α → α
  above : Store → δ

namespace Kind

def lines : Kind Line (List NodeCell × List GraphCell) :=
  ⟨fun st => st.lines.length, line, fun st => (st.nodes, st.graphs)⟩

def nodes : Kind Node (List GraphCell) :=
  ⟨fun st => st.nodes.length, node, Store.graphs⟩

def graphs : Kind Graph Unit :=
  ⟨fun st => st.graphs.length, graph, fun _ => ()⟩

end Kind

variable {α β δ ε : Type} {K : Kind α δ} {st st₁ st₂ : Store}

/-- From one store to the next, things have been put under the references `new`, some of which led
to something else before.  Everything else of the kind is as it was, except what was under `old` and
is no longer of interest. -/
structure Puts (K : Kind α δ) (st st' : Store) (old new : List (Ref α)) (as : List α) : Prop where
  forest : st'.Forest
  grows : K.count st ≤ K.count st'
  above : K.above st' = K.above st
  reads : new.map (K.read st') = as
  once : new.Nodup
  there : ∀ i ∈ new, i.index < K.count st'
  origin : ∀ i ∈ new, i ∈ old ∨ K.count st ≤ i.index
  elsewhere : ∀ i, i.index < K.count st → i ∉ old → K.read st' i = K.read st i

theorem Puts.length_eq {old new : List (Ref α)} {as : List α} (h : Puts K st st₁ old new as) :
    new.length = as.length := by
  rw [← h.reads, List.length_map]

theorem Puts.nil (hst : st.Forest) (old : List (Ref α)) : Puts K st st old [] [] :=
  ⟨hst, Nat.le_refl _, rfl, rfl, List.nodup_nil, by simp, by simp, fun _ _ _ => rfl⟩

theorem Puts.append {old₁ new₁ old₂ new₂ : List (Ref α)} {as₁ as₂ : List α}
    (h₁ : Puts K st st₁ old₁ new₁ as₁) (h₂ : Puts K st₁ st₂ old₂ new₂ as₂)
    (hthere : ∀ i ∈ old₂, i.index < K.count st) (hdisjoint : ∀ i ∈ old₂, i ∉ old₁) :
    Puts K st st₂ (old₁ ++ old₂) (new₁ ++ new₂) (as₁ ++ as₂) := by
  have hkept : ∀ i ∈ new₁, i ∉ old₂ := by
    intro i hi hold
    rcases h₁.origin i hi with hmem | hfresh
    · exact hdisjoint i hold hmem
    · exact absurd (hthere i hold) (Nat.not_lt.mpr hfresh)
  constructor
  case forest => exact h₂.forest
  case grows => exact Nat.le_trans h₁.grows h₂.grows
  case above => exact h₂.above.trans h₁.above
  case reads =>
    have hsame : new₁.map (K.read st₂) = new₁.map (K.read st₁) :=
      List.map_congr_left fun i hi => h₂.elsewhere i (h₁.there i hi) (hkept i hi)
    rw [List.map_append, hsame, h₁.reads, h₂.reads]
  case once =>
    refine List.nodup_append.mpr ⟨h₁.once, h₂.once, fun i hi j hj => ?_⟩
    rintro rfl
    rcases h₂.origin i hj with hold | hfresh
    · exact hkept i hi hold
    · exact absurd (h₁.there i hi) (Nat.not_lt.mpr hfresh)
  case there =>
    intro i hi
    rcases List.mem_append.mp hi with hi | hi
    · exact Nat.lt_of_lt_of_le (h₁.there i hi) h₂.grows
    · exact h₂.there i hi
  case origin =>
    intro i hi
    rcases List.mem_append.mp hi with hi | hi
    · exact (h₁.origin i hi).imp_left (List.mem_append_left _)
    · exact (h₂.origin i hi).imp (List.mem_append_right _) (Nat.le_trans h₁.grows)
  case elsewhere =>
    intro i hi hnot
    rw [List.mem_append, not_or] at hnot
    rw [h₂.elsewhere i (Nat.lt_of_lt_of_le hi h₁.grows) hnot.2, h₁.elsewhere i hi hnot.1]

/-- The parts of a thing have been put into the store, and the thing with them. -/
theorem Puts.whole {L : Kind β ε} {parts : Store → Ref α → List (Ref β)} {n : Ref α} {a : α}
    {old new : List (Ref β)} {bs : List β} {oldWhole : List (Ref α)}
    (h : Puts L st st₁ old new bs) (howned : Owned (parts st) (L.count st))
    (hold : old ⊆ parts st n) (hforest : st₂.Forest) (hgrows : K.count st ≤ K.count st₂)
    (habove : K.above st₂ = K.above st) (hthere : n.index < K.count st₂)
    (horigin : n ∈ oldWhole ∨ K.count st ≤ n.index) (hread : K.read st₂ n = a)
    (hother : ∀ i, i ≠ n → (∀ p ∈ parts st i, L.read st₁ p = L.read st p) →
      K.read st₂ i = K.read st i) : Puts K st st₂ oldWhole [n] [a] := by
  have hn : ∀ i, i.index < K.count st → i ∉ oldWhole → i ≠ n := by
    rintro i hi hnot rfl
    rcases horigin with hmem | hfresh
    · exact hnot hmem
    · exact absurd hi (Nat.not_lt.mpr hfresh)
  refine ⟨hforest, hgrows, habove, congrArg (List.cons · []) hread, by simp,
    List.forall_mem_singleton.mpr hthere, List.forall_mem_singleton.mpr horigin,
    fun i hi hnot => hother i (hn i hi hnot) fun p hp => ?_⟩
  refine h.elsewhere p (howned.there i p hp) fun hmem => ?_
  exact hn i hi hnot (howned.alone i n p hp (hold hmem))

theorem Puts.owned {L : Kind β ε} (parts : Store → Ref α → List (Ref β)) {n : Ref α}
    {old new : List (Ref β)} {bs : List β} (h : Puts L st st₁ old new bs)
    (howned : Owned (parts st) (L.count st)) (hold : old ⊆ parts st n)
    (hparts : ∀ m, parts st₂ m = if m = n then new else parts st m) :
    Owned (parts st₂) (L.count st₁) :=
  howned.update h.grows h.there h.once (fun p hp => (h.origin p hp).imp_left (hold ·)) hparts

/-! ## Going through lists -/

theorem puts_each {add : Store → α → Store × Ref α}
    (hadd : ∀ st a, st.Forest → Puts K st (add st a).1 [] [(add st a).2] [a]) (hst : st.Forest)
    (as : List α) : Puts K st (each add st as).1 [] (each add st as).2 as := by
  induction as generalizing st with
  | nil => exact .nil hst []
  | cons a as ih => exact (hadd st a hst).append (ih (hadd st a hst).forest) (by simp) (by simp)

theorem each_cons {ρ : Type} (f : Store → α → Store × ρ) (st : Store) (a : α) (as : List α) :
    each f st (a :: as) =
      ((each f (f st a).1 as).1, (f st a).2 :: (each f (f st a).1 as).2) := rfl

/-- To copy things one after the other is to add what the copies are to say: no copy changes what is
still to be copied. -/
theorem each_copy {copy : Store → Ref α → Store × Ref α} {add : Store → α → Store × Ref α}
    (copied : α → α)
    (hcopy : ∀ st i, st.Forest → i.index < K.count st → copy st i = add st (copied (K.read st i)))
    (hadd : ∀ st a, st.Forest → Puts K st (add st a).1 [] [(add st a).2] [a]) (hst : st.Forest)
    {refs : List (Ref α)} (hrefs : ∀ i ∈ refs, i.index < K.count st) :
    each copy st refs = each add st (refs.map fun i => copied (K.read st i)) := by
  induction refs generalizing st with
  | nil => rfl
  | cons i refs ih =>
      have hfirst := hadd st (copied (K.read st i)) hst
      have hthere : ∀ j ∈ refs, j.index < K.count st :=
        fun j hj => hrefs j (List.mem_cons_of_mem i hj)
      have hrest := ih hfirst.forest fun j hj => Nat.lt_of_lt_of_le (hthere j hj) hfirst.grows
      rw [List.map_congr_left fun j hj =>
        congrArg copied (hfirst.elsewhere j (hthere j hj) (by simp))] at hrest
      rw [List.map_cons, each_cons, each_cons, hcopy st i hst (hrefs i List.mem_cons_self), hrest]

theorem puts_putAll {put : Store → Ref α → α → Store} {add : Store → α → Store × Ref α}
    (hput : ∀ st i a, st.Forest → i.index < K.count st → Puts K st (put st i a) [i] [i] [a])
    (hadd : ∀ st a, st.Forest → Puts K st (add st a).1 [] [(add st a).2] [a])
    {refs : List (Ref α)} (hst : st.Forest) (hrefs : ∀ i ∈ refs, i.index < K.count st)
    (honce : refs.Nodup) (as : List α) :
    Puts K st (putAll put add st refs as).1 refs (putAll put add st refs as).2 as := by
  induction as generalizing st refs with
  | nil =>
      rw [putAll]
      exact .nil hst refs
  | cons a as ih =>
      cases refs with
      | nil => exact puts_each hadd hst (a :: as)
      | cons i refs =>
          have hfirst := hput st i a hst (hrefs i List.mem_cons_self)
          obtain ⟨hnot, honce⟩ := List.nodup_cons.mp honce
          have hthere : ∀ j ∈ refs, j.index < K.count st :=
            fun j hj => hrefs j (List.mem_cons_of_mem i hj)
          have hrest := ih hfirst.forest
            (fun j hj => Nat.lt_of_lt_of_le (hthere j hj) hfirst.grows) honce
          refine hfirst.append hrest hthere fun j hj hmem => ?_
          exact hnot (List.mem_singleton.mp hmem ▸ hj)

/-! ## Places of a list -/

theorem getElem?_concat {γ : Type} (xs : List γ) (x : γ) (j : Nat) :
    (xs ++ [x])[j]? = if j = xs.length then some x else xs[j]? := by
  rcases Nat.lt_trichotomy j xs.length with hlt | rfl | hgt
  · rw [if_neg (Nat.ne_of_lt hlt), List.getElem?_append_left hlt]
  · rw [if_pos rfl, List.getElem?_concat_length]
  · have hlength : (xs ++ [x]).length ≤ j := by
      rw [List.length_append]
      exact hgt
    rw [if_neg (Nat.ne_of_gt hgt), List.getElem?_eq_none hlength,
      List.getElem?_eq_none (Nat.le_of_lt hgt)]

theorem set_getD_self {γ : Type} (xs : List γ) (i : Nat) (d : γ) : xs.set i (xs.getD i d) = xs := by
  rcases Nat.lt_or_ge i xs.length with hlt | hge
  · simp [hlt]
  · exact List.set_eq_of_length_le hge

/-! ## Lines -/

theorem Forest.of_cells (h : st.Forest) (hlines : st.lines.length ≤ st₁.lines.length)
    (hnodes : st₁.nodes = st.nodes) (hgraphs : st₁.graphs = st.graphs) : st₁.Forest := by
  obtain ⟨lines, nodes, graphs⟩ := st
  obtain ⟨lines₁, nodes₁, graphs₁⟩ := st₁
  subst hnodes hgraphs
  exact ⟨⟨fun n l hl => Nat.lt_of_lt_of_le (h.lines.there n l hl) hlines, h.lines.once,
    h.lines.alone⟩, h.nodes⟩

theorem puts_putLine {l : Ref Line} (hst : st.Forest) (hl : l.index < st.lines.length)
    (a : Line) : Puts .lines st (st.putLine l a) [l] [l] [a] := by
  have hlength : (st.putLine l a).lines.length = st.lines.length := List.length_set
  constructor
  case forest => exact hst.of_cells (Nat.le_of_eq hlength.symm) rfl rfl
  case grows => exact Nat.le_of_eq hlength.symm
  case above => rfl
  case reads => simp [Kind.lines, line, putLine, hl]
  case once => simp
  case there => exact List.forall_mem_singleton.mpr (Nat.lt_of_lt_of_eq hl hlength.symm)
  case origin => exact List.forall_mem_singleton.mpr (.inl List.mem_cons_self)
  case elsewhere =>
    intro i hi hnot
    have hne : l.index ≠ i.index := fun h => hnot (by simp [show i = l from congrArg Ref.mk h.symm])
    simp [Kind.lines, line, putLine, hne]

theorem puts_addLine (hst : st.Forest) (a : Line) :
    Puts .lines st (st.addLine a).1 [] [(st.addLine a).2] [a] := by
  have hlength : (st.addLine a).1.lines.length = st.lines.length + 1 := List.length_append
  constructor
  case forest => exact hst.of_cells (by omega) rfl rfl
  case grows => exact Nat.le_of_lt (Nat.lt_of_lt_of_eq (Nat.lt_succ_self _) hlength.symm)
  case above => rfl
  case reads => simp [Kind.lines, line, addLine]
  case once => simp
  case there =>
    exact List.forall_mem_singleton.mpr (Nat.lt_of_lt_of_eq (Nat.lt_succ_self _) hlength.symm)
  case origin => exact List.forall_mem_singleton.mpr (.inr (Nat.le_refl _))
  case elsewhere =>
    intro i hi _
    have hi : i.index < st.lines.length := hi
    simp [Kind.lines, line, addLine, getElem?_concat, Nat.ne_of_lt hi]

/-! ## Nodes -/

theorem nodeCell_putNodeCell {n : Ref Node} (hn : n.index < st.nodes.length) (cell : NodeCell)
    (m : Ref Node) :
    (st.putNodeCell n cell).nodeCell m = if m = n then cell else st.nodeCell m := by
  obtain ⟨i⟩ := n
  obtain ⟨j⟩ := m
  have hi : i < st.nodes.length := hn
  by_cases h : j = i
  · subst h
    simp [nodeCell, putNodeCell, hi]
  · simp [nodeCell, putNodeCell, h, Ne.symm h]

theorem nodeCell_addNodeCell (cell : NodeCell) (m : Ref Node) :
    (st.addNodeCell cell).1.nodeCell m =
      if m = (st.addNodeCell cell).2 then cell else st.nodeCell m := by
  obtain ⟨j⟩ := m
  by_cases h : j = st.nodes.length <;> simp [nodeCell, addNodeCell, getElem?_concat, h]

theorem node_eq_of_lines {n : Ref Node} (hcell : st₁.nodeCell n = st.nodeCell n)
    (hlines : ∀ l ∈ st.linesOf n, st₁.line l = st.line l) : st₁.node n = st.node n := by
  have hmap : (st.nodeCell n).lines.map st₁.line = (st.nodeCell n).lines.map st.line :=
    List.map_congr_left hlines
  rw [node, hcell]
  simp only [hmap]
  rfl

/-- A node is stored once its lines are. -/
theorem Puts.node {old : List (Ref Line)} {as : List Line} {n : Ref Node} (cell : NodeCell)
    {oldNodes : List (Ref Node)} (h : Puts .lines st st₁ old cell.lines as) (hst : st.Forest)
    (hold : old ⊆ st.linesOf n)
    (hcells : ∀ m, st₂.nodeCell m = if m = n then cell else st.nodeCell m)
    (hlines : st₂.lines = st₁.lines) (hgraphs : st₂.graphs = st.graphs)
    (hgrows : st.nodes.length ≤ st₂.nodes.length) (hthere : n.index < st₂.nodes.length)
    (horigin : n ∈ oldNodes ∨ st.nodes.length ≤ n.index) :
    Puts .nodes st st₂ oldNodes [n]
      [{ title := cell.title, lines := as, tags := cell.tags, cursor := cell.cursor }] := by
  have hline : st₂.line = st₁.line := by
    funext l
    rw [line, hlines, line]
  have hforest : st₂.Forest := by
    constructor
    case lines =>
      have hparts : ∀ m, st₂.linesOf m = if m = n then cell.lines else st.linesOf m := by
        intro m
        rw [linesOf, hcells]
        split <;> rfl
      exact hlines ▸ h.owned linesOf hst.lines hold hparts
    case nodes =>
      have hnodes : st₂.nodesOf = st.nodesOf := by
        funext g
        rw [nodesOf, graphCell, hgraphs, nodesOf, graphCell]
      rw [hnodes]
      exact ⟨fun g m hm => Nat.lt_of_lt_of_le (hst.nodes.there g m hm) hgrows, hst.nodes.once,
        hst.nodes.alone⟩
  refine h.whole (K := .nodes) hst.lines hold hforest hgrows hgraphs hthere horigin ?_ ?_
  · have hreads : cell.lines.map st₁.line = as := h.reads
    show st₂.node n = _
    rw [Store.node, hcells, if_pos rfl, hline, hreads]
  · intro m hm hkept
    refine node_eq_of_lines ((hcells m).trans (if_neg hm)) fun l hl => ?_
    rw [hline]
    exact hkept l hl

theorem puts_putNode {n : Ref Node} (hst : st.Forest) (hn : n.index < st.nodes.length)
    (a : Node) : Puts .nodes st (st.putNode n a) [n] [n] [a] := by
  have h := puts_putAll (K := .lines) (fun _ _ a hst hl => puts_putLine hst hl a)
    (fun _ a hst => puts_addLine hst a) hst (hst.lines.there n) (hst.lines.once n) a.lines
  have habove := Prod.mk.inj h.above
  generalize hput : putAll putLine addLine st (st.linesOf n) a.lines = put at h habove
  have hn' : n.index < put.1.nodes.length := habove.1 ▸ hn
  let cell : NodeCell := ⟨a.title, put.2, a.tags, a.cursor⟩
  have hnode : st.putNode n a = put.1.putNodeCell n cell := by
    subst hput
    rfl
  rw [hnode]
  refine h.node cell hst (List.Subset.refl _) (fun m => ?_) rfl habove.2 ?_ ?_
    (.inl List.mem_cons_self)
  · rw [nodeCell_putNodeCell hn', nodeCell, habove.1, nodeCell]
  · exact Nat.le_of_eq (habove.1 ▸ List.length_set.symm)
  · exact Nat.lt_of_lt_of_eq hn' List.length_set.symm

/-- A node is added once its lines are. -/
theorem Puts.newNode {lines : List (Ref Line)} {as : List Line}
    (h : Puts .lines st st₁ [] lines as) (hst : st.Forest) {cell : NodeCell}
    (hcell : cell.lines = lines) :
    Puts .nodes st (st₁.addNodeCell cell).1 [] [(st₁.addNodeCell cell).2]
      [{ title := cell.title, lines := as, tags := cell.tags, cursor := cell.cursor }] := by
  subst hcell
  have habove := Prod.mk.inj h.above
  have hcount : st₁.nodes.length = st.nodes.length := congrArg List.length habove.1
  have hlength : (st₁.addNodeCell cell).1.nodes.length = st.nodes.length + 1 :=
    List.length_append.trans (congrArg (· + 1) hcount)
  refine h.node cell hst (List.nil_subset _) (fun m => ?_) rfl habove.2 (by omega) ?_
    (.inr (Nat.le_of_eq hcount.symm))
  · rw [nodeCell_addNodeCell, nodeCell, habove.1, nodeCell]
  · exact hlength ▸ hcount ▸ Nat.lt_succ_self _

theorem puts_addNode (hst : st.Forest) (a : Node) :
    Puts .nodes st (st.addNode a).1 [] [(st.addNode a).2] [a] :=
  (puts_each (fun _ a hst => puts_addLine hst a) hst a.lines).newNode hst rfl

/-- A copy of a node is a new node that says the same, from the first line on. -/
theorem copyNode_eq (hst : st.Forest) (n : Ref Node) :
    st.copyNode n = st.addNode (st.node n).clone := by
  have hlines : each copyLine st (st.linesOf n) = each addLine st ((st.linesOf n).map st.line) :=
    each_copy (K := .lines) id (fun _ _ _ _ => rfl) (fun _ a hst => puts_addLine hst a) hst
      (hst.lines.there n)
  unfold copyNode
  dsimp only
  rw [← linesOf, hlines]
  rfl

/-! ## Graphs -/

theorem graphCell_putGraphCell {g : Ref Graph} (hg : g.index < st.graphs.length)
    (cell : GraphCell) (i : Ref Graph) :
    (st.putGraphCell g cell).graphCell i = if i = g then cell else st.graphCell i := by
  obtain ⟨k⟩ := g
  obtain ⟨j⟩ := i
  have hk : k < st.graphs.length := hg
  by_cases h : j = k
  · subst h
    simp [graphCell, putGraphCell, hk]
  · simp [graphCell, putGraphCell, h, Ne.symm h]

theorem graphCell_addGraphCell (cell : GraphCell) (i : Ref Graph) :
    (st.addGraphCell cell).1.graphCell i =
      if i = (st.addGraphCell cell).2 then cell else st.graphCell i := by
  obtain ⟨j⟩ := i
  by_cases h : j = st.graphs.length <;> simp [graphCell, addGraphCell, getElem?_concat, h]

theorem graph_eq_of_nodes {g : Ref Graph} (hcell : st₁.graphCell g = st.graphCell g)
    (hnodes : ∀ n ∈ st.nodesOf g, st₁.node n = st.node n) : st₁.graph g = st.graph g := by
  have hmap : (st.graphCell g).nodes.map st₁.node = (st.graphCell g).nodes.map st.node := by
    refine congrArg Table.mk (List.map_congr_left fun entry hentry => ?_)
    exact congrArg (Prod.mk entry.1) (hnodes entry.2 (List.mem_map_of_mem hentry))
  rw [graph, hcell]
  simp only [hmap]
  rfl

/-- Keys with references, and the same keys with what the references lead to. -/
theorem map_zip_keys {γ : Type} {table : Table String γ} {refs : List (Ref α)} {f : Ref α → γ}
    (h : refs.map f = table.values) :
    (Table.mk (table.keys.zip refs)).map f = table := by
  obtain ⟨entries⟩ := table
  have hvalues : refs.map f = entries.map Prod.snd := h
  have hzip : (entries.map Prod.fst).zip (entries.map Prod.snd) = entries := by
    rw [← List.unzip_fst, ← List.unzip_snd, List.zip_unzip]
  refine congrArg Table.mk ?_
  show ((entries.map Prod.fst).zip refs).map (Prod.map id f) = entries
  rw [← List.zip_map_right, hvalues, hzip]

/-- A graph is stored once its nodes are. -/
theorem Puts.graph {old nodes : List (Ref Node)} {a : Graph} {g : Ref Graph}
    {oldGraphs : List (Ref Graph)} (h : Puts .nodes st st₁ old nodes a.nodes.values)
    (hst : st.Forest) (hold : old ⊆ st.nodesOf g)
    (hcells : ∀ i, st₂.graphCell i =
      if i = g then ⟨a.caseSensitive, ⟨a.nodes.keys.zip nodes⟩⟩ else st.graphCell i)
    (hlines : st₂.lines = st₁.lines) (hnodes : st₂.nodes = st₁.nodes)
    (hgrows : st.graphs.length ≤ st₂.graphs.length) (hthere : g.index < st₂.graphs.length)
    (horigin : g ∈ oldGraphs ∨ st.graphs.length ≤ g.index) :
    Puts .graphs st st₂ oldGraphs [g] [a] := by
  have hnode : st₂.node = st₁.node := by
    funext n
    have hline : st₂.line = st₁.line := by
      funext l
      rw [line, hlines, line]
    rw [Store.node, nodeCell, hnodes, hline, Store.node, nodeCell]
  have hlength : nodes.length = a.nodes.keys.length := by
    rw [h.length_eq, Table.values, Table.keys, List.length_map, List.length_map]
  have hrefs : (Table.mk (a.nodes.keys.zip nodes)).values = nodes :=
    List.map_snd_zip (Nat.le_of_eq hlength)
  have hparts : ∀ i, st₂.nodesOf i = if i = g then nodes else st.nodesOf i := by
    intro i
    rw [nodesOf, hcells]
    split
    · exact hrefs
    · rfl
  have hforest : st₂.Forest := by
    constructor
    case lines =>
      have hlinesOf : st₂.linesOf = st₁.linesOf := by
        funext n
        rw [linesOf, nodeCell, hnodes, linesOf, nodeCell]
      rw [hlinesOf, hlines]
      exact h.forest.lines
    case nodes => exact hnodes ▸ h.owned nodesOf hst.nodes hold hparts
  refine h.whole (K := .graphs) hst.nodes hold hforest hgrows rfl hthere horigin ?_ ?_
  · show st₂.graph g = a
    rw [Store.graph, hcells, if_pos rfl, hnode]
    exact congrArg (Graph.mk a.caseSensitive) (map_zip_keys h.reads)
  · intro i hi hkept
    refine graph_eq_of_nodes ((hcells i).trans (if_neg hi)) fun n hn => ?_
    rw [hnode]
    exact hkept n hn

theorem puts_putGraph {g : Ref Graph} (hst : st.Forest) (hg : g.index < st.graphs.length)
    (a : Graph) : Puts .graphs st (st.putGraph g a) [g] [g] [a] := by
  have h := puts_putAll (K := .nodes) (fun _ _ a hst hn => puts_putNode hst hn a)
    (fun _ a hst => puts_addNode hst a) hst (hst.nodes.there g) (hst.nodes.once g) a.nodes.values
  generalize hput : putAll putNode addNode st (st.nodesOf g) a.nodes.values = put at h
  have habove : put.1.graphs = st.graphs := h.above
  have hg' : g.index < put.1.graphs.length := habove ▸ hg
  let cell : GraphCell := ⟨a.caseSensitive, ⟨a.nodes.keys.zip put.2⟩⟩
  have hgraph : st.putGraph g a = put.1.putGraphCell g cell := by
    subst hput
    rfl
  rw [hgraph]
  refine h.graph hst (List.Subset.refl _) (fun i => ?_) rfl rfl ?_ ?_ (.inl List.mem_cons_self)
  · rw [graphCell_putGraphCell hg', graphCell, habove, graphCell]
  · exact Nat.le_of_eq (habove ▸ List.length_set.symm)
  · exact Nat.lt_of_lt_of_eq hg' List.length_set.symm

/-- A graph is added once its nodes are. -/
theorem Puts.newGraph {nodes : List (Ref Node)} {a : Graph}
    (h : Puts .nodes st st₁ [] nodes a.nodes.values) (hst : st.Forest) {cell : GraphCell}
    (hcell : cell = ⟨a.caseSensitive, ⟨a.nodes.keys.zip nodes⟩⟩) :
    Puts .graphs st (st₁.addGraphCell cell).1 [] [(st₁.addGraphCell cell).2] [a] := by
  subst hcell
  have habove : st₁.graphs = st.graphs := h.above
  have hcount : st₁.graphs.length = st.graphs.length := congrArg List.length habove
  have hlength : ∀ cell, (st₁.addGraphCell cell).1.graphs.length = st.graphs.length + 1 :=
    fun cell => List.length_append.trans (congrArg (· + 1) hcount)
  refine h.graph hst (List.nil_subset _) (fun i => ?_) rfl rfl ?_ ?_
    (.inr (Nat.le_of_eq hcount.symm))
  · rw [graphCell_addGraphCell, graphCell, habove, graphCell]
  · rw [hlength]
    exact Nat.le_succ _
  · exact hlength _ ▸ hcount ▸ Nat.lt_succ_self _

theorem puts_addGraph (hst : st.Forest) (a : Graph) :
    Puts .graphs st (st.addGraph a).1 [] [(st.addGraph a).2] [a] :=
  (puts_each (fun _ a hst => puts_addNode hst a) hst a.nodes.values).newGraph hst rfl

/-- A copy of a graph is a new graph that says the same, with all cursors at the first line. -/
theorem copyGraph_eq (hst : st.Forest) (g : Ref Graph) :
    st.copyGraph g = st.addGraph (st.graph g).clone := by
  have hnodes : each copyNode st (st.nodesOf g) =
      each addNode st ((st.nodesOf g).map fun n => (st.node n).clone) :=
    each_copy (K := .nodes) Node.clone (fun _ n hst _ => copyNode_eq hst n)
      (fun _ a hst => puts_addNode hst a) hst (hst.nodes.there g)
  have hvalues : (st.graph g).clone.nodes.values =
      (st.nodesOf g).map fun n => (st.node n).clone := by
    simp [nodesOf, graph, Graph.clone, Table.values, Table.map, Function.comp_def]
  have hkeys : (st.graph g).clone.nodes.keys = (st.graphCell g).nodes.keys := by
    simp [graph, Graph.clone, Table.keys, Table.map, Function.comp_def]
  unfold copyGraph addGraph
  dsimp only
  rw [← nodesOf, hnodes, hvalues, hkeys]
  rfl

theorem puts_putGraphs {refs : List (Ref Graph)} (hst : st.Forest)
    (hrefs : ∀ g ∈ refs, g.index < st.graphs.length) (honce : refs.Nodup) (as : List Graph) :
    Puts .graphs st (st.putGraphs refs as).1 refs (st.putGraphs refs as).2 as :=
  puts_putAll (fun _ _ a hst hg => puts_putGraph hst hg a) (fun _ a hst => puts_addGraph hst a)
    hst hrefs honce as

/-! ## Putting back what is there -/

theorem putAll_self {put : Store → Ref α → α → Store} (add : Store → α → Store × Ref α)
    {read : Store → Ref α → α} (hput : ∀ i, put st i (read st i) = st) (refs : List (Ref α)) :
    putAll put add st refs (refs.map (read st)) = (st, refs) := by
  induction refs with
  | nil => rfl
  | cons i refs ih =>
      rw [List.map_cons, putAll, hput, ih]

theorem putLine_self (st : Store) (l : Ref Line) : st.putLine l (st.line l) = st := by
  rw [putLine, line, set_getD_self]

theorem putNode_self (st : Store) (n : Ref Node) : st.putNode n (st.node n) = st := by
  have h := putAll_self addLine st.putLine_self (st.nodeCell n).lines
  unfold putNode
  simp only [node, h]
  show st.putNodeCell n (st.nodeCell n) = st
  rw [putNodeCell, nodeCell, set_getD_self]

theorem putGraph_self (st : Store) (g : Ref Graph) : st.putGraph g (st.graph g) = st := by
  have h := putAll_self addNode st.putNode_self (st.graphCell g).nodes.values
  have hvalues : (st.graph g).nodes.values = (st.graphCell g).nodes.values.map st.node := by
    simp [graph, Table.values, Table.map, Function.comp_def]
  have hkeys : (st.graph g).nodes.keys = (st.graphCell g).nodes.keys := by
    simp [graph, Table.keys, Table.map, Function.comp_def]
  have hcell : (⟨(st.graph g).caseSensitive,
      ⟨(st.graph g).nodes.keys.zip (st.graphCell g).nodes.values⟩⟩ : GraphCell) =
        st.graphCell g := by
    rw [hkeys, Table.keys, Table.values, ← List.unzip_fst, ← List.unzip_snd, List.zip_unzip]
    rfl
  unfold putGraph
  simp only [hvalues, h, hcell, putGraphCell]
  rw [graphCell, set_getD_self]

theorem putGraphs_self (st : Store) (refs : List (Ref Graph)) :
    st.putGraphs refs (refs.map st.graph) = (st, refs) :=
  putAll_self addGraph st.putGraph_self refs

/-! ## Storing a table of graphs -/

/-- What a store has is still there, and no thing has been given away. -/
structure Extends (st st' : Store) : Prop where
  forest : st'.Forest
  grows : st.graphs.length ≤ st'.graphs.length
  graph : ∀ g : Ref Graph, g.index < st.graphs.length → st'.graph g = st.graph g

theorem Puts.stays {new : List (Ref Graph)} {as : List Graph}
    (h : Puts .graphs st st₁ [] new as) : st.Extends st₁ :=
  ⟨h.forest, h.grows, fun g hg => h.elsewhere g hg (by simp)⟩

theorem Extends.refl (hst : st.Forest) : st.Extends st :=
  ⟨hst, Nat.le_refl _, fun _ _ => rfl⟩

theorem Extends.trans (h : st.Extends st₁) (h' : st₁.Extends st₂) : st.Extends st₂ :=
  ⟨h'.forest, Nat.le_trans h.grows h'.grows, fun g hg =>
    (h'.graph g (Nat.lt_of_lt_of_le hg h.grows)).trans (h.graph g hg)⟩

variable {cached : Table String (Ref Graph)}

theorem keep_spec (hst : st.Forest) (hcached : ∀ g ∈ cached.values, g.index < st.graphs.length)
    (entry : String × Graph) :
    st.Extends (keep cached st entry).1 ∧ (keep cached st entry).2.1 = entry.1 ∧
      (keep cached st entry).1.graph (keep cached st entry).2.2 = entry.2 ∧
      (keep cached st entry).2.2.index < (keep cached st entry).1.graphs.length ∧
      ((keep cached st entry).2.2 ∈ cached.values ∨
        st.graphs.length ≤ (keep cached st entry).2.2.index) := by
  unfold keep
  split
  · rename_i g hg
    obtain ⟨hget, hsame⟩ := Option.filter_eq_some_iff.mp hg
    have hmem : g ∈ cached.values := Table.mem_values_of_get? hget
    exact ⟨.refl hst, rfl, of_decide_eq_true hsame, hcached g hmem, .inl hmem⟩
  · have h := puts_addGraph hst entry.2
    exact ⟨h.stays, rfl, (List.cons.inj h.reads).1, h.there _ List.mem_cons_self,
      .inr ((h.origin _ List.mem_cons_self).resolve_left (by simp))⟩

/-- A table of graphs has been stored: every key has a reference to its graph, and no reference
leads to what was there before and not cached. -/
structure Keeps (st : Store) (cached : Table String (Ref Graph)) (st' : Store)
    (kept : Table String (Ref Graph)) (graphs : Table String Graph) : Prop where
  stays : st.Extends st'
  reads : kept.map st'.graph = graphs
  there : ∀ g ∈ kept.values, g.index < st'.graphs.length
  origin : ∀ g ∈ kept.values, g ∈ cached.values ∨ st.graphs.length ≤ g.index

theorem keeps_keepAll (hst : st.Forest)
    (hcached : ∀ g ∈ cached.values, g.index < st.graphs.length) (graphs : Table String Graph) :
    st.Keeps cached (st.keepAll cached graphs).1 (st.keepAll cached graphs).2 graphs := by
  obtain ⟨graphs⟩ := graphs
  show st.Keeps cached (each (keep cached) st graphs).1 ⟨(each (keep cached) st graphs).2⟩ _
  induction graphs generalizing st with
  | nil => exact ⟨.refl hst, rfl, by simp [each, Table.values], by simp [each, Table.values]⟩
  | cons entry graphs ih =>
      obtain ⟨hstays, hkey, hgraph, hthere, horigin⟩ := keep_spec hst hcached entry
      have hrest := ih hstays.forest fun g hg =>
        Nat.lt_of_lt_of_le (hcached g hg) hstays.grows
      constructor
      case stays => exact hstays.trans hrest.stays
      case reads =>
        refine congrArg Table.mk (List.cons_eq_cons.mpr ⟨Prod.ext hkey ?_,
          Table.mk.inj hrest.reads⟩)
        exact (hrest.stays.graph _ hthere).trans hgraph
      case there =>
        exact List.forall_mem_cons.mpr
          ⟨Nat.lt_of_lt_of_le hthere hrest.stays.grows, hrest.there⟩
      case origin =>
        exact List.forall_mem_cons.mpr ⟨horigin, fun other hother =>
          (hrest.origin other hother).imp_right (Nat.le_trans hstays.grows)⟩

end Store

end Parley
