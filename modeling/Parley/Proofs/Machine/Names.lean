import Parley.Machine.Names

/-!
# What names lead to

Each look-up of a name either leads on to what the name stands for, or fails.
-/

namespace Parley.Machine

variable (m : Machine)

theorem withSession_cases (name : String) (f : SessionId → Session → Machine) :
    (∃ s session, m.world.sessionNames.get? name = some s ∧
        m.world.session? s = some session ∧ m.withSession name f = f s session) ∨
      m.withSession name f = m.fail .unknownName := by
  unfold withSession
  split
  · rename_i s session heq
    obtain ⟨t, hname, ht⟩ := Option.bind_eq_some_iff.mp heq
    obtain ⟨found, hfound, hpair⟩ := Option.map_eq_some_iff.mp ht
    obtain ⟨rfl, rfl⟩ := Prod.mk.inj hpair
    exact .inl ⟨t, found, hname, hfound, rfl⟩
  · exact .inr rfl

theorem withDisplay_cases (name : String) (f : DisplayId → Display → Machine) :
    (∃ d display, m.world.displayNames.get? name = some d ∧
        m.world.display? d = some display ∧ m.withDisplay name f = f d display) ∨
      m.withDisplay name f = m.fail .unknownName := by
  unfold withDisplay
  split
  · rename_i d display heq
    obtain ⟨e, hname, he⟩ := Option.bind_eq_some_iff.mp heq
    obtain ⟨found, hfound, hpair⟩ := Option.map_eq_some_iff.mp he
    obtain ⟨rfl, rfl⟩ := Prod.mk.inj hpair
    exact .inl ⟨e, found, hname, hfound, rfl⟩
  · exact .inr rfl

theorem withHandler_cases (name : String) (f : HandlerId → Machine) :
    (∃ h, m.world.handlerNames.get? name = some h ∧ m.withHandler name f = f h) ∨
      m.withHandler name f = m.fail .unknownName := by
  unfold withHandler
  split
  · rename_i h hname
    exact .inl ⟨h, hname, rfl⟩
  · exact .inr rfl

theorem withHandler?_cases (name : Option String) (f : Option HandlerId → Machine) :
    (∃ h, m.withHandler? name f = f h) ∨ m.withHandler? name f = m.fail .unknownName := by
  cases name with
  | none => exact .inl ⟨none, rfl⟩
  | some name =>
      rcases m.withHandler_cases name fun h => f (some h) with ⟨h, -, heq⟩ | heq
      · exact .inl ⟨some h, heq⟩
      · exact .inr heq

theorem withBus_cases (name : BusName) (f : BusId → Machine) :
    (∃ b, m.withBus name f = f b ∧
        ((∃ s session, b = .session s ∧ m.world.session? s = some session) ∨
          (∃ d display, b = .display d ∧ m.world.display? d = some display) ∨
          ∃ free, b = .free free)) ∨
      m.withBus name f = m.fail .unknownName := by
  cases name with
  | session name =>
      rcases m.withSession_cases name fun s _ => f (.session s) with ⟨s, session, -, hs, heq⟩ | heq
      · exact .inl ⟨.session s, heq, .inl ⟨s, session, rfl, hs⟩⟩
      · exact .inr heq
  | display name =>
      rcases m.withDisplay_cases name fun d _ => f (.display d) with ⟨d, display, -, hd, heq⟩ | heq
      · exact .inl ⟨.display d, heq, .inr (.inl ⟨d, display, rfl, hd⟩)⟩
      · exact .inr heq
  | free name => exact .inl ⟨.free name, rfl, .inr (.inr ⟨name, rfl⟩)⟩

theorem withSettings_cases (settings : Option Json.Value) (f : Config → Machine) :
    (∃ config, m.withSettings settings f = f config) ∨
      ∃ failure, m.withSettings settings f = m.fail failure := by
  unfold withSettings
  split
  · exact .inl ⟨_, rfl⟩
  · split
    · exact .inl ⟨_, rfl⟩
    · exact .inr ⟨_, rfl⟩

theorem withNode_cases (session : Session) (title : Option String)
    (f : String → Node → Machine) :
    (∃ key node, session.graph.bind (·.nodes.get? key) = some node ∧
        m.withNode session title f = f key node) ∨
      m.withNode session title f = m.fail .unknownName := by
  unfold withNode
  dsimp only
  cases title with
  | none =>
      split
      · rename_i heq
        obtain ⟨here, hhere, hnode⟩ := Option.bind_eq_some_iff.mp heq
        obtain ⟨found, hcurrent, hpair⟩ := Option.map_eq_some_iff.mp hnode
        obtain ⟨rfl, rfl⟩ := Prod.mk.inj hpair
        exact .inl ⟨here, found, by simpa [Session.currentNode?, hhere] using hcurrent, rfl⟩
      · exact .inr rfl
  | some title =>
      split
      · rename_i heq
        obtain ⟨graph, hgraph, hnode⟩ := Option.bind_eq_some_iff.mp heq
        obtain ⟨found, hget, hpair⟩ := Option.map_eq_some_iff.mp hnode
        obtain ⟨rfl, rfl⟩ := Prod.mk.inj hpair
        exact .inl ⟨_, found, Option.bind_eq_some_iff.mpr ⟨graph, hgraph, hget⟩, rfl⟩
      · exact .inr rfl

theorem withLine_cases (s : SessionId) (session : Session) (place : LinePlace)
    (f : LineRef → Machine) :
    (∃ line, m.withLine s session place f = f line) ∨
      ∃ failure, m.withLine s session place f = m.fail failure := by
  unfold withLine
  rcases m.withNode_cases session place.title _ with ⟨key, node, -, heq⟩ | heq
  · rw [heq]
    split
    · split
      · exact .inl ⟨_, rfl⟩
      · exact .inr ⟨_, rfl⟩
    · split
      · exact .inl ⟨_, rfl⟩
      · exact .inr ⟨_, rfl⟩
  · exact .inr ⟨_, heq⟩

end Parley.Machine
