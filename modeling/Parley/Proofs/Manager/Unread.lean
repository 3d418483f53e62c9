import Parley.Proofs.Machine.Execution
import Parley.Proofs.Machine.Names
import Parley.Proofs.Manager.Records

/-!
# Cached conversations are never read

A graph that has just been loaded is unread: the cursors of its nodes are all at the first line.
So is every conversation that a manager has cached.  A session works on a copy of its own, and the
cursors that move are those of the copy (`Execution.unread`).
-/

namespace Parley

variable {w : World} {id : ManagerId}

/-! ## What a manager caches -/

namespace Manager

/-- The conversations that a manager has cached are unread. -/
def Unread (manager : Manager) : Prop :=
  ∀ conversation graph, manager.conversations.get? conversation = some graph → graph.Unread

theorem Unread.add {manager : Manager} {config : Config} {conversation : String}
    {data : Json.Value} {logged : Logged Manager} (hmanager : manager.Unread)
    (h : manager.add config conversation data = .ok logged) : logged.value.Unread := by
  obtain ⟨loaded, hload, hvalue⟩ := add_eq_ok h
  rw [hvalue]
  intro other graph hgraph
  rw [Table.get?_insert] at hgraph
  split at hgraph
  · exact Option.some.inj hgraph ▸ Graph.unread_load hload
  · exact hmanager other graph hgraph

theorem Unread.loadFolder {manager : Manager} (h : manager.Unread) (config : Config)
    (folder : Folder) (place : List String) :
    (manager.loadFolder config folder place).value.1.Unread :=
  loadFolder_keeps (fun _ _ _ _ hmanager hadd => hmanager.add hadd) h folder place

end Manager

namespace World

/-- All that is cached in a world is unread. -/
def Unread (w : World) : Prop :=
  ∀ id manager, w.manager? id = some manager → manager.Unread

theorem Unread.of_eq {w' : World} (h : w.Unread) (hmanagers : w'.managers = w.managers) :
    w'.Unread := by
  intro id manager hmanager
  rw [manager?, hmanagers] at hmanager
  exact h id manager hmanager

/-- What a reference leads to that a manager has cached is unread. -/
theorem Unread.graph (h : w.Unread) {conversation : String} {g : Ref Graph}
    (hcached : w.cached? id conversation = some g) : (w.graph g).Unread := by
  have hfound := w.map_cached? id conversation
  rw [hcached] at hfound
  obtain ⟨manager, hmanager, hgraph⟩ := Option.bind_eq_some_iff.mp hfound.symm
  exact h id manager hmanager conversation _ hgraph

theorem Unread.modifyManager (h : w.Unread) (id : ManagerId) {f : Manager → Manager}
    (hf : ∀ manager : Manager, manager.Unread → (f manager).Unread) :
    (w.modifyManager id f).Unread := by
  intro other manager hmanager
  rw [manager?_modifyManager] at hmanager
  split at hmanager
  · obtain ⟨before, hbefore, rfl⟩ := Option.map_eq_some_iff.mp hmanager
    exact hf before (h other before hbefore)
  · exact h other manager hmanager

theorem Unread.addManager (h : w.Unread) {w' : World} {manager : Manager}
    (hmanager : manager.Unread) (hmanagers : w'.managers = w.managers ++ [manager]) :
    w'.Unread := by
  intro id found hfound
  rw [manager?, hmanagers] at hfound
  rcases List.mem_append.mp (List.mem_of_getElem? hfound) with hold | hnew
  · obtain ⟨n, hn⟩ := List.mem_iff_getElem?.mp hold
    exact h ⟨n⟩ found hn
  · exact List.mem_singleton.mp hnew ▸ hmanager

end World

/-! ## Steps of a machine -/

namespace Machine

variable {m : Machine} {task : Task} {rest : List Task}

theorem managers_exec_of_moves {s : SessionId} (htask : task.Moves s) (now : List Task) :
    (m.exec now task).world.managers = m.world.managers := by
  rcases world_exec_of_moves htask now with heq | ⟨moved, heq⟩ <;> rw [heq]
  exact managers_setSession m s moved

/-- The tasks that move a session leave the managers alone. -/
theorem managers_exec {now : List Task} (h : task.isPlain = false)
    (hmanagers : (∀ step, task ≠ .perform step) ∧ task.managers = []) :
    (m.exec now task).world.managers = m.world.managers := by
  cases task with
  | start s title => exact managers_exec_of_moves (.start title) now
  | proceed s => exact managers_exec_of_moves .proceed now
  | follow s key destination => exact managers_exec_of_moves (.follow key destination) now
  | load s data start =>
      dsimp only [exec, load]
      split
      · rw [world_fail]
      · split
        · rw [world_fail]
        · exact managers_setSession ..
  | finish s onComplete =>
      dsimp only [exec, finish]
      split
      · rw [world_fail]
      · split
        · rfl
        · exact World.managers_modifySession ..
  | launch _ _ _ _ _ _ | forget _ => exact absurd hmanagers.2 (by simp [Task.managers])
  | perform step => exact absurd rfl (hmanagers.1 step)
  | _ => exact absurd h (by simp [Task.isPlain])

theorem unread_launch (h : m.world.Unread) (id : ManagerId) (graph : Ref Graph) (d : DisplayId)
    (title : String) (node : Option String) (name : String) :
    (m.launch id graph d title node name).world.Unread := by
  rw [launch_eq]
  split
  · rw [world_fail]
    exact h
  · exact World.Unread.modifyManager (h.of_eq (World.managers_addSession ..)) id
      fun _ hmanager => hmanager

theorem unread_converse (h : m.world.Unread) (id : ManagerId) (manager : Manager)
    (conversation title : String) (node : Option String) (name : String) :
    (m.converse id manager conversation title node name).world.Unread := by
  have hforgot : (m.world.modifyManager id fun manager =>
      { manager with sessions := manager.sessions.erase title }).Unread :=
    h.modifyManager id fun _ hmanager => hmanager
  unfold converse
  split
  · exact h
  · split
    · exact h
    · dsimp only
      split
      · exact hforgot
      · split <;> exact hforgot

theorem unread_performManager (h : m.world.Unread) {manager : Manager}
    (hmanager : m.world.manager? id = some manager) (step : ManagerStep) :
    (m.performManager id manager step).world.Unread := by
  have hunread : manager.Unread := h id manager hmanager
  have hset : ∀ manager' : Manager, manager'.Unread →
      (m.world.modifyManager id fun _ => manager').Unread :=
    fun _ hmanager' => h.modifyManager id fun _ _ => hmanager'
  cases step with
  | register display =>
      dsimp only [performManager]
      rcases m.withDisplay_cases display _ with ⟨d, found, -, -, heq⟩ | heq <;> rw [heq]
      · exact hset _ hunread
      · rw [world_fail]
        exact h
  | displayOf title => exact h
  | add conversation data =>
      dsimp only [performManager]
      split
      · rw [world_fail]
        exact h
      · rename_i logged hadd
        exact hset _ (hunread.add hadd)
  | get conversation => exact h
  | conversations => exact h
  | loadFolder folder place => exact hset _ (hunread.loadFolder _ folder place)
  | start conversation title node name =>
      exact unread_converse h id manager conversation title node name
  | active => exact hset _ hunread
  | endAll => exact hset _ hunread

theorem managers_newSession (name : String) (d : DisplayId) (config : Config)
    (source : SessionSource) :
    (m.newSession name d config source).world.managers = m.world.managers := by
  unfold newSession
  split
  · rfl
  · split
    · rw [world_fail]
    · exact World.managers_addSession ..
  · exact World.managers_addSession ..

theorem unread_perform (h : m.world.Unread) (now : List Task) {step : Step}
    (hstep : step.isPlain = false) : (m.perform now step).world.Unread := by
  have hfail : ∀ failure, (m.fail failure).world.Unread := by
    intro failure
    rw [world_fail]
    exact h
  cases step with
  | newSession name display settings source =>
      dsimp only [perform]
      rcases m.withDisplay_cases display _ with ⟨d, found, -, -, heq⟩ | heq <;> rw [heq]
      · rcases m.withSettings_cases settings _ with ⟨config, heq⟩ | ⟨failure, heq⟩ <;> rw [heq]
        · exact h.of_eq (managers_newSession name d config source)
        · exact hfail failure
      · exact hfail _
  | newManager settings =>
      dsimp only [perform]
      rcases m.withSettings_cases settings _ with ⟨config, heq⟩ | ⟨failure, heq⟩ <;> rw [heq]
      · have hnew : ({ config := ⟨m.world.configs.length⟩ } : Manager).Unread :=
          fun conversation graph hgraph => absurd hgraph (by simp)
        exact h.addManager hnew (World.managers_addManager ..)
      · exact hfail failure
  | session name step =>
      cases step with
      | node title step =>
          dsimp only [perform]
          rcases m.withSession_cases name _ with ⟨t, session, -, -, heq⟩ | heq <;> rw [heq]
          · dsimp only [performSession]
            rcases m.withNode_cases session title _ with ⟨key, node, -, heq⟩ | heq <;> rw [heq]
            · unfold performNodeStep
              dsimp only
              split
              · rw [world_fail]
                exact h
              · split <;> exact h.of_eq (managers_setSession ..)
            · exact hfail _
          · exact hfail _
      | _ => exact absurd hstep (by simp [Step.isPlain])
  | manager step =>
      dsimp only [perform]
      split
      · exact hfail _
      · rename_i id manager hcurrent
        obtain ⟨current, -, hpaired⟩ := Option.bind_eq_some_iff.mp hcurrent
        obtain ⟨found, hfound, hpair⟩ := Option.map_eq_some_iff.mp hpaired
        obtain ⟨rfl, rfl⟩ := Prod.mk.inj hpair
        exact unread_performManager h hfound step
  | _ => exact absurd hstep (by simp [Step.isPlain])

theorem Sound.unread_step (hm : Sound m) (h : m.world.Unread) : m.step.world.Unread := by
  cases hagenda : m.agenda with
  | nil =>
      rw [step_of_isDone (by rw [isDone, hagenda]; rfl)]
      exact h
  | cons task rest =>
      cases hplain : task.isPlain with
      | true => exact h.of_eq (hm.steady_step hagenda hplain).managers
      | false =>
          rw [step_eq hagenda]
          have h' : ({ m with agenda := rest } : Machine).world.Unread := h
          cases task with
          | launch id graph d title node name => exact unread_launch h' id graph d title node name
          | forget id => exact h.modifyManager id fun _ hmanager => hmanager
          | perform step => exact unread_perform h' _ hplain
          | start _ _ | proceed _ | follow _ _ _ | load _ _ _ | finish _ _ =>
              exact h'.of_eq (managers_exec hplain ⟨by simp, rfl⟩)
          | _ => exact absurd hplain (by simp [Task.isPlain])

/-! ## Executions -/

/-- A host that starts without managers never has a cached conversation that is not unread. -/
theorem Execution.unread {x : ℕ → Machine} (h : Execution x)
    (hnone : (x 0).world.managers = []) (i : ℕ) : (x i).world.Unread := by
  induction i with
  | zero =>
      intro id manager hmanager
      rw [World.manager?, hnone] at hmanager
      exact absurd hmanager (by simp)
  | succ i ih =>
      generalize hm : x (i + 1) = m
      cases (hm ▸ h.next i : Next (x i) m) with
      | step => exact (h.reachable i).sound.unread_step ih
      | host hagenda step => exact ih

end Machine

end Parley
