import Parley.Proofs.Display.Handling

/-!
# The session attached to a display

A display is attached to the session that was made on it last, for as long as that session is
alive and has not taken note that the display has closed (`attachment_follows_newest`).  It does
not matter how many sessions are made on the display, when each of them is finished, or when and
in which order the display lets them take note of it: an older session that takes note of its
closing late leaves a newer one attached, and no older session comes back.

A display of the machine puts all closings off or none, and lets them happen in the order in which
it noted them.  Other displays may do as they like, so this is shown of executions in which a
display may change all but its bus and its attachment at any time (`FreeExecution`).

## Strategy

A display refers to a session whether or not that is alive, so being alive is put aside:
`linked` is what it refers to, and `attachment` is that as long as it is alive.  A step makes a
session on the display, or has one take note of its closing, or changes neither what is made on
it nor what it refers to (`Relinks`).  In each case the display goes on to refer to the newest
session exactly if that has not taken note (`Tracks.succ`).  A session that takes note is alive
while it does, because the task holds on to it; so the test that keeps it from detaching another
session never keeps it from detaching itself (`linked_of_callback`).
-/

namespace Parley

namespace World

variable {w w' : World} {d : DisplayId} {s t : SessionId}

/-- The newest of the sessions that were made on a display. -/
structure Newest (w : World) (d : DisplayId) (s : SessionId) : Prop where
  made : w.MadeOn d s
  last : ∀ t, w.MadeOn d t → t.index ≤ s.index

theorem Newest.eq (h : w.Newest d s) (h' : w.Newest d t) : s = t := by
  obtain ⟨i⟩ := s
  obtain ⟨j⟩ := t
  have hle : j ≤ i := h.last _ h'.made
  have hge : i ≤ j := h'.last _ h.made
  rw [Nat.le_antisymm hge hle]

theorem newest_congr (h : ∀ t, w'.MadeOn d t ↔ w.MadeOn d t) :
    w'.Newest d s ↔ w.Newest d s := by
  constructor
  · intro hnewest
    exact ⟨(h s).mp hnewest.made, fun t ht => hnewest.last t ((h t).mpr ht)⟩
  · intro hnewest
    exact ⟨(h s).mpr hnewest.made, fun t ht => hnewest.last t ((h t).mp ht)⟩

end World

namespace Machine

open World

variable {x : ℕ → Machine} {m m' : Machine} {d : DisplayId} {s t : SessionId} {i j k n : ℕ}

/-- The session that a display refers to, alive or not. -/
def linked (d : DisplayId) (m : Machine) : Option SessionId :=
  (m.world.display? d).bind Display.attached

/-- The session that is attached to a display: the one that it refers to, if that is alive. -/
def attachment (d : DisplayId) (m : Machine) : Option SessionId :=
  (m.world.display? d).bind (m.world.attachedTo (Task.heldBy m.world m.agenda))

/-- Whether a session is alive while the machine is at work. -/
def living (s : SessionId) (m : Machine) : Bool :=
  m.world.sessionAlive (Task.heldBy m.world m.agenda) s

/-- Whether the next step has a session take note that its display has closed. -/
def takesNote (s : SessionId) (m : Machine) : Bool :=
  match m.agenda.head? with
  | some (.callback (.session t _)) => t = s && (m.world.session? s).isSome
  | _ => false

/-- Whether the next step has the host itself attach a session to a display, or detach it. -/
def rewires (d : DisplayId) (m : Machine) : Bool :=
  match m.agenda.head? with
  | some (.perform (.display name (.attach _))) | some (.perform (.display name .detach)) =>
    m.world.displayNames.get? name = some d
  | _ => false

/-- What may come after a machine whose displays do as they like: its next, or some change to a
display while no session takes note.  The display may open or shut, put closings off or no longer,
hold back those that it has noted or take them up in another order.  Only its bus and the session
that it refers to are not its own to change. -/
inductive NextFreely (m : Machine) : Machine → Prop
  | next {m' : Machine} (hnext : Next m m') : NextFreely m m'
  | display (d : DisplayId) (f : Display → Display) (hquiet : ∀ s, takesNote s m = false)
      (hbus : ∀ display, (f display).bus = display.bus)
      (hattached : ∀ display, (f display).attached = display.attached) :
      NextFreely m { m with world := m.world.modifyDisplay d f }

/-- An execution in which displays do as they like. -/
structure FreeExecution (x : ℕ → Machine) : Prop where
  initial : Initial (x 0)
  next : ∀ i, NextFreely (x i) (x (i + 1))

theorem Execution.free (h : Execution x) : FreeExecution x :=
  ⟨h.initial, fun i => .next (h.next i)⟩

/-! ## What is attached and what is referred to -/

theorem linked_eq_of_face {face : Display} (h : m.world.face? d = some face) :
    linked d m = face.attached := by
  obtain ⟨display, hdisplay, rfl⟩ := Option.map_eq_some_iff.mp h
  rw [linked, hdisplay]
  rfl

theorem attachment_eq_some_iff :
    attachment d m = some s ↔ linked d m = some s ∧ living s m = true := by
  unfold attachment linked living attachedTo
  cases m.world.display? d with
  | none => simp
  | some display => simp [Option.filter_eq_some_iff]

theorem exists_of_takesNote (h : takesNote s m = true) :
    ∃ onComplete rest, m.agenda = .callback (.session s onComplete) :: rest ∧
      (m.world.session? s).isSome = true := by
  unfold takesNote at h
  split at h
  · rename_i t onComplete hhead
    simp only [Bool.and_eq_true, decide_eq_true_eq] at h
    obtain ⟨rest, hagenda⟩ := List.head?_eq_some_iff.mp hhead
    exact ⟨onComplete, rest, h.1 ▸ hagenda, h.2⟩
  · exact absurd h (by simp)

/-- One session at a time takes note. -/
theorem eq_of_takesNote (hs : takesNote s m = true) (ht : takesNote t m = true) : s = t := by
  obtain ⟨_, _, hagenda, -⟩ := exists_of_takesNote hs
  obtain ⟨_, _, hagenda', -⟩ := exists_of_takesNote ht
  rw [hagenda, List.cons.injEq] at hagenda'
  obtain ⟨rfl, -⟩ := (Callback.session.injEq ..).mp (Task.callback.inj hagenda'.1)
  rfl

theorem takesNote_of_head {onComplete : Option HandlerId}
    (hhead : m.agenda.head? = some (.callback (.session s onComplete))) (hs : m.world.MadeOn d s) :
    takesNote s m = true := by
  obtain ⟨session, hs, -⟩ := hs
  simp [takesNote, hhead, hs]

/-- A session is alive while it takes note of its closing. -/
theorem living_of_takesNote (h : takesNote s m = true) : living s m = true := by
  obtain ⟨onComplete, rest, hagenda, -⟩ := exists_of_takesNote h
  rw [living, sessionAlive, List.contains_iff_mem, hagenda]
  simp [liveSessions, Task.heldBy, Task.sessions, callbackSessions]

/-! ## One step -/

/-- What a step does to the sessions made on a display and to the one it refers to. -/
inductive Relinks (d : DisplayId) (m m' : Machine) : Prop
  | aside (hlinked : linked d m' = linked d m)
      (hmade : ∀ t, m'.world.MadeOn d t ↔ m.world.MadeOn d t)
      (hquiet : ∀ t, m.world.MadeOn d t → takesNote t m = false)
  | joined {s : SessionId} (hlinked : linked d m' = some s) (hs : m'.world.MadeOn d s)
      (hmade : ∀ t, m'.world.MadeOn d t → t = s ∨ m.world.MadeOn d t ∧ t.index < s.index)
      (hnone : m.world.session? s = none) (hquiet : ∀ t, takesNote t m = false)
  | left {s : SessionId} (hnote : takesNote s m = true)
      (hlinked : linked d m' = if linked d m = some s then none else linked d m)
      (hmade : ∀ t, m'.world.MadeOn d t ↔ m.world.MadeOn d t)

/-- A session that takes note of its closing makes no session. -/
theorem session?_of_takesNote (hnext : Next m m') (hnote : takesNote t m = true)
    (s : SessionId) : m'.world.session? s = m.world.session? s := by
  obtain ⟨onComplete, rest, hagenda, hsome⟩ := exists_of_takesNote hnote
  obtain ⟨session, ht⟩ := Option.isSome_iff_exists.mp hsome
  cases hnext with
  | step => rw [world_callback hagenda ht]; rfl
  | host hidle => exact absurd (hagenda.symm.trans hidle) (by simp)

/-- A session that takes note is alive, so if its display refers to it, it is attached. -/
theorem linked_of_callback {face : Display} (hnote : takesNote s m = true)
    (hface : m.world.face? d = some face)
    (hnext : m'.world.face? d = (m.world.face? d).map fun face =>
      if m.world.attachedTo (Task.heldBy m.world m.agenda) face = some s then
        { face with attached := none } else face) :
    linked d m' = if linked d m = some s then none else linked d m := by
  have hattached : m.world.attachedTo (Task.heldBy m.world m.agenda) face = some s ↔
      face.attached = some s := by
    rw [attachedTo, Option.filter_eq_some_iff]
    exact and_iff_left (living_of_takesNote hnote)
  rw [hface, Option.map_some] at hnext
  rw [linked_eq_of_face hnext, linked_eq_of_face hface]
  simp only [hattached]
  split <;> rfl

/-- A session that was made before a step, and is on a display after it, was made on it. -/
theorem madeOn_of_next (hpasses : ∀ s, Passes s m m') (hold : m.world.session? s ≠ none)
    (hs : m'.world.MadeOn d s) : m.world.MadeOn d s := by
  obtain ⟨session, hsession⟩ := Option.ne_none_iff_exists'.mp hold
  obtain ⟨session', hs', hpassage⟩ := (hpasses s).passage session hsession
  obtain ⟨found, hfound, hdisplay⟩ := hs
  rw [hs', Option.some.injEq] at hfound
  exact ⟨session, hsession, hpassage.display_eq.symm.trans (hfound ▸ hdisplay)⟩

/-- A display that nobody makes a session on, and that no session on it lets go of, refers to
the session that it referred to before. -/
theorem Handling.attached_eq {face face' : Display} (h : Handling d m m' face face')
    (hold : ∀ s, m'.world.MadeOn d s → m.world.session? s ≠ none)
    (hquiet : ∀ s, m.world.MadeOn d s → takesNote s m = false) (hleft : rewires d m = false) :
    face'.attached = face.attached := by
  cases h with
  | joined hhead hmade => exact absurd (session?_length m.world) (hold _ hmade)
  | launched hhead hmade => exact absurd (session?_length m.world) (hold _ hmade)
  | left hhead hs => exact absurd (takesNote_of_head hhead hs) (by simp [hquiet _ hs])
  | attached h hs =>
      obtain ⟨name, hhead, hname⟩ := h
      exact absurd hleft (by simp [rewires, hhead, hname])
  | detached h =>
      obtain ⟨name, hhead, hname⟩ := h
      exact absurd hleft (by simp [rewires, hhead, hname])
  | _ => rfl

/-- A session that is new on a display is the newest there, and the display refers to it. -/
theorem Sound.relinks_of_new (h : Sound m) (hnext : Next m m') {face' : Display}
    (hface' : m'.world.face? d = some face') (hnone : m.world.session? s = none)
    (hs : m'.world.MadeOn d s) : Relinks d m m' := by
  have hfresh := (handles_next d hnext).fresh
  obtain ⟨hindex, hattached⟩ := hfresh s hnone hs
  refine .joined ((linked_eq_of_face hface').trans (hattached face' hface')) hs ?_ hnone ?_
  · intro t ht
    by_cases hold : m.world.session? t = none
    · left
      obtain ⟨i⟩ := s
      obtain ⟨j⟩ := t
      have hj : j = m.world.sessions.length := (hfresh _ hold ht).1
      rw [hj, ← hindex]
    · right
      obtain ⟨session, hsession⟩ := Option.ne_none_iff_exists'.mp hold
      have hlt : t.index < m.world.sessions.length := (List.getElem?_eq_some_iff.mp hsession).1
      exact ⟨madeOn_of_next (h.passes_next hnext) hold ht, hindex ▸ hlt⟩
  · intro t
    refine Bool.eq_false_iff.mpr fun hnote => ?_
    obtain ⟨session, hsession, -⟩ := hs
    rw [session?_of_takesNote hnext hnote, hnone] at hsession
    exact absurd hsession (by simp)

theorem Sound.relinks_next (h : Sound m) (hnext : Next m m') {face : Display}
    (hface : m.world.face? d = some face) (hleft : rewires d m = false) : Relinks d m m' := by
  obtain ⟨face', hface', hhandling⟩ := (handles_next d hnext).handling face hface
  by_cases hnew : ∃ s, m.world.session? s = none ∧ m'.world.MadeOn d s
  · obtain ⟨s, hnone, hs⟩ := hnew
    exact h.relinks_of_new hnext hface' hnone hs
  · have hpasses : ∀ s, Passes s m m' := h.passes_next hnext
    have hold : ∀ s, m'.world.MadeOn d s → m.world.session? s ≠ none := fun s hs hnone =>
      hnew ⟨s, hnone, hs⟩
    have hmade : ∀ t, m'.world.MadeOn d t ↔ m.world.MadeOn d t := fun t =>
      ⟨fun ht => madeOn_of_next hpasses (hold t ht) ht, MadeOn.next hpasses⟩
    by_cases hnote : ∃ s, m.world.MadeOn d s ∧ takesNote s m = true
    · obtain ⟨s, hs, hnote⟩ := hnote
      obtain ⟨onComplete, rest, hagenda, -⟩ := exists_of_takesNote hnote
      cases hnext with
      | step =>
          exact .left hnote (linked_of_callback hnote hface (face?_callback hagenda hs)) hmade
      | host hidle => exact absurd (hagenda.symm.trans hidle) (by simp)
    · have hquiet : ∀ s, m.world.MadeOn d s → takesNote s m = false := fun s hs =>
        Bool.eq_false_iff.mpr fun h => hnote ⟨s, hs, h⟩
      refine .aside ?_ hmade hquiet
      rw [linked_eq_of_face hface', linked_eq_of_face hface]
      exact hhandling.attached_eq hold hquiet hleft

/-- A session that takes note of its closing detaches no other. -/
theorem Relinks.linked_eq (h : Relinks d m m') (hnote : takesNote t m = true)
    (hother : linked d m ≠ some t) : linked d m' = linked d m := by
  cases h with
  | aside hlinked hmade hquiet => exact hlinked
  | joined hlinked hs hmade hnone hquiet => exact absurd hnote (by simp [hquiet t])
  | left hnote' hlinked hmade =>
      obtain rfl := eq_of_takesNote hnote hnote'
      rw [hlinked, if_neg hother]

/-! ## Displays that do as they like -/

theorem Sound.next_freely (h : Sound m) (hnext : NextFreely m m') : Sound m' := by
  cases hnext with
  | next hnext =>
      cases hnext with
      | step => exact h.step
      | host hagenda step => exact h.host hagenda step
  | display e f hquiet hbus hattached =>
      have hbuses := sameBuses_modifyDisplay (w := m.world) (d := e) hbus
      refine ⟨fun task htask => (h.known task htask).grow hbuses.grows, h.stacked, fun b => ?_⟩
      obtain ⟨hdepth, hwaiting, hdraining⟩ := h.accounted b
      rw [← hbuses.bus b] at hdepth hwaiting hdraining
      exact ⟨hdepth, hwaiting, hdraining⟩

theorem Sound.madeOn_next_freely (h : Sound m) (hnext : NextFreely m m')
    (hs : m.world.MadeOn d s) : m'.world.MadeOn d s := by
  cases hnext with
  | next hnext => exact MadeOn.next (h.passes_next hnext) hs
  | display e f hquiet hbus hattached => exact hs

/-- A display is not taken away. -/
theorem exists_face_next_freely (hnext : NextFreely m m') {face : Display}
    (hface : m.world.face? d = some face) : ∃ face', m'.world.face? d = some face' := by
  cases hnext with
  | next hnext =>
      obtain ⟨face', hface', -⟩ := (handles_next d hnext).handling face hface
      exact ⟨face', hface'⟩
  | display e f hquiet hbus hattached =>
      obtain ⟨display, hdisplay, rfl⟩ := Option.map_eq_some_iff.mp hface
      rw [face?_modifyDisplay, face?, hdisplay]
      split <;> exact ⟨_, rfl⟩

theorem Sound.relinks (h : Sound m) (hnext : NextFreely m m') {face : Display}
    (hface : m.world.face? d = some face) (hleft : rewires d m = false) : Relinks d m m' := by
  cases hnext with
  | next hnext => exact h.relinks_next hnext hface hleft
  | display e f hquiet hbus hattached =>
      refine .aside ?_ (fun _ => Iff.rfl) fun t _ => hquiet t
      rw [linked, linked, display?_modifyDisplay]
      split
      · cases hdisplay : m.world.display? d with
        | none => rfl
        | some display => exact hattached display
      · rfl

/-! ## A whole run -/

theorem FreeExecution.sound (h : FreeExecution x) (i : ℕ) : Sound (x i) := by
  induction i with
  | zero => exact h.initial.sound
  | succ i ih => exact ih.next_freely (h.next i)

theorem FreeExecution.madeOn_of_le (h : FreeExecution x) (hs : (x i).world.MadeOn d s)
    (hij : i ≤ j) : (x j).world.MadeOn d s := by
  induction j, hij using Nat.le_induction with
  | base => exact hs
  | succ j hij ih => exact (h.sound j).madeOn_next_freely (h.next j) ih

theorem FreeExecution.exists_face_of_le (h : FreeExecution x) {face : Display}
    (hface : (x i).world.face? d = some face) (hij : i ≤ j) :
    ∃ face', (x j).world.face? d = some face' := by
  induction j, hij using Nat.le_induction with
  | base => exact ⟨face, hface⟩
  | succ j hij ih =>
      obtain ⟨found, hfound⟩ := ih
      exact exists_face_next_freely (h.next j) hfound

/-- A session has not taken note of its closing up to a time. -/
def Unaware (s : SessionId) (x : ℕ → Machine) (i : ℕ) : Prop :=
  ∀ j < i, takesNote s (x j) = false

theorem unaware_succ : Unaware s x (i + 1) ↔ Unaware s x i ∧ takesNote s (x i) = false := by
  constructor
  · intro h
    exact ⟨fun j hj => h j (Nat.lt_succ_of_lt hj), h i (Nat.lt_succ_self i)⟩
  · rintro ⟨hbefore, hnow⟩ j hj
    rcases Nat.lt_succ_iff_lt_or_eq.mp hj with hlt | rfl
    · exact hbefore j hlt
    · exact hnow

/-- A session that is not there has had nothing to take note of. -/
theorem FreeExecution.unaware_of_none (h : FreeExecution x)
    (hnone : (x i).world.session? s = none) : Unaware s x (i + 1) := by
  intro j hj
  refine Bool.eq_false_iff.mpr fun hnote => ?_
  obtain ⟨-, -, -, hsome⟩ := exists_of_takesNote hnote
  obtain ⟨session, hs⟩ := Option.isSome_iff_exists.mp hsome
  obtain ⟨session', hs', -⟩ := h.madeOn_of_le ⟨session, hs, rfl⟩ (Nat.le_of_lt_succ hj)
  exact absurd (hnone.symm.trans hs') (by simp)

/-- A display refers to the newest session on it, until that has taken note of its closing. -/
def Tracks (d : DisplayId) (x : ℕ → Machine) (i : ℕ) : Prop :=
  ∀ s, linked d (x i) = some s ↔ (x i).world.Newest d s ∧ Unaware s x i

theorem Tracks.succ (h : FreeExecution x) (htracks : Tracks d x i)
    (hrelinks : Relinks d (x i) (x (i + 1))) : Tracks d x (i + 1) := by
  intro t
  cases hrelinks with
  | aside hlinked hmade hquiet =>
      rw [hlinked, htracks t, newest_congr hmade, unaware_succ]
      refine and_congr_right fun hnewest => ?_
      exact (and_iff_left (hquiet t hnewest.made)).symm
  | @joined s hlinked hs hmade hnone hquiet =>
      have hnewest : (x (i + 1)).world.Newest d s := by
        refine ⟨hs, fun t ht => ?_⟩
        rcases hmade t ht with rfl | ⟨-, hlt⟩
        · exact Nat.le_refl _
        · exact Nat.le_of_lt hlt
      rw [hlinked, Option.some.injEq]
      constructor
      · rintro rfl
        exact ⟨hnewest, h.unaware_of_none hnone⟩
      · rintro ⟨hother, -⟩
        exact hnewest.eq hother
  | @left s hnote hlinked hmade =>
      rw [hlinked, newest_congr hmade, unaware_succ, ← and_assoc, ← htracks t]
      by_cases hst : s = t
      · subst hst
        simp [hnote]
      · have hother : takesNote t (x i) = false :=
          Bool.eq_false_iff.mpr fun ht => hst (eq_of_takesNote hnote ht)
        split
        · rename_i hself
          simp [hself, hst]
        · simp [hother]

theorem FreeExecution.relinks (h : FreeExecution x) {face : Display}
    (hface : (x k).world.face? d = some face) (hki : k ≤ i) (hleft : rewires d (x i) = false) :
    Relinks d (x i) (x (i + 1)) := by
  obtain ⟨face', hface'⟩ := h.exists_face_of_le hface hki
  exact (h.sound i).relinks (h.next i) hface' hleft

theorem FreeExecution.tracks (h : FreeExecution x) {face : Display}
    (hface : (x k).world.face? d = some face) (hd : face.attached = none)
    (hnone : ∀ s, ¬ (x k).world.MadeOn d s)
    (hleft : ∀ j, k ≤ j → j < n → rewires d (x j) = false) (hki : k ≤ i) (hi : i ≤ n) :
    Tracks d x i := by
  induction i, hki using Nat.le_induction with
  | base =>
      intro s
      rw [linked_eq_of_face hface, hd]
      exact iff_of_false (by simp) fun ⟨hnewest, _⟩ => hnone s hnewest.made
  | succ i hki ih =>
      exact (ih (Nat.le_of_succ_le hi)).succ h (h.relinks hface hki (hleft i hki hi))

/-- From when a display is new on, as long as the host does not attach sessions to it by itself or
detach them, a session is attached to it exactly if it is the newest of the sessions that were
made on it, is alive, and has not taken note of its closing.  A session that takes note while the
display refers to another leaves it so, and a session that it refers to later is no older. -/
theorem attachment_follows_newest (h : FreeExecution x)
    (hd : ((x k).world.display? d).map Display.attached = some none)
    (hnone : ∀ s, ¬ (x k).world.MadeOn d s)
    (hleft : ∀ i, k ≤ i → i < n → rewires d (x i) = false) :
    (∀ i, k ≤ i → i ≤ n → ∀ s, attachment d (x i) = some s ↔
        (x i).world.Newest d s ∧ living s (x i) = true ∧ Unaware s x i) ∧
      (∀ i, k ≤ i → i < n → ∀ t, takesNote t (x i) = true → linked d (x i) ≠ some t →
        linked d (x (i + 1)) = linked d (x i)) ∧
      ∀ i j, k ≤ i → i ≤ j → j ≤ n → ∀ s t, linked d (x i) = some s → linked d (x j) = some t →
        s.index ≤ t.index := by
  obtain ⟨display, hdisplay, hattached⟩ := Option.map_eq_some_iff.mp hd
  have hface : (x k).world.face? d = some display.face := by rw [face?, hdisplay]; rfl
  have htracks : ∀ i, k ≤ i → i ≤ n → Tracks d x i := fun i hki hi =>
    h.tracks hface hattached hnone hleft hki hi
  refine ⟨?_, ?_, ?_⟩
  · intro i hki hi s
    rw [attachment_eq_some_iff, htracks i hki hi s, and_assoc, and_comm (a := Unaware s x i)]
  · intro i hki hi t hnote hother
    exact (h.relinks hface hki (hleft i hki hi)).linked_eq hnote hother
  · intro i j hki hij hj s t hs ht
    obtain ⟨hnewest, -⟩ := (htracks i hki (hij.trans hj) s).mp hs
    obtain ⟨hnewest', -⟩ := (htracks j (hki.trans hij) hj t).mp ht
    exact hnewest'.last s (h.madeOn_of_le hnewest.made hij)

/-- A host that makes a second session before the display lets the first take note. -/
def overtaken : ℕ → Machine :=
  course { world := World.ofHandlers [] }
    [.newDisplay "c" "c" (.recording {} true),
      .newSession "s" "c" none (.graph none), .session "s" (.finish none),
      .newSession "t" "c" none (.graph none), .display "c" .flushClose,
      .session "t" (.finish none), .display "c" .flushClose]

theorem attachment_follows_newest_overtaken :
    FreeExecution overtaken ∧ takesNote ⟨0⟩ (overtaken 19) = true ∧
      linked ⟨0⟩ (overtaken 19) = some ⟨1⟩ ∧ linked ⟨0⟩ (overtaken 20) = some ⟨1⟩ ∧
      (overtaken 28).world.Newest ⟨0⟩ ⟨1⟩ ∧ Unaware ⟨1⟩ overtaken 28 ∧
      attachment ⟨0⟩ (overtaken 40) = none := by
  have h : FreeExecution overtaken := (execution_course (initial_ofHandlers _) _).free
  have hd : ((overtaken 2).world.display? ⟨0⟩).map Display.attached = some none := by
    decide +kernel
  have hempty : (overtaken 2).world.sessions.isEmpty = true := by decide +kernel
  have hnone : ∀ s, ¬ (overtaken 2).world.MadeOn ⟨0⟩ s := by
    rintro s ⟨session, hs, -⟩
    rw [session?, List.isEmpty_iff.mp hempty] at hs
    exact absurd hs (by simp)
  have hleft : ∀ i < 40, rewires ⟨0⟩ (overtaken i) = false := by decide +kernel
  obtain ⟨hfollows, hstays, -⟩ :=
    attachment_follows_newest h hd hnone fun i _ hi => hleft i hi
  have hnote : takesNote ⟨0⟩ (overtaken 19) = true := by decide +kernel
  have hlinked : linked ⟨0⟩ (overtaken 19) = some ⟨1⟩ := by decide +kernel
  have hkept : linked ⟨0⟩ (overtaken 20) = linked ⟨0⟩ (overtaken 19) :=
    hstays 19 (by omega) (by omega) ⟨0⟩ hnote (by rw [hlinked]; decide)
  have hattached : attachment ⟨0⟩ (overtaken 28) = some ⟨1⟩ := by decide +kernel
  obtain ⟨hnewest, -, hunaware⟩ := (hfollows 28 (by omega) (by omega) ⟨1⟩).mp hattached
  exact ⟨h, hnote, hlinked, hkept.trans hlinked, hnewest, hunaware, by decide +kernel⟩

end Machine

end Parley
