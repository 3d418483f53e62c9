import Parley.Machine.Basic

/-!
# What names stand for

The steps of a host name sessions, displays, handlers, buses, nodes and lines.  Each function
here goes on with what a name stands for, or fails if it stands for nothing.
-/

namespace Parley.Machine

/-- Go on with the session of a name. -/
def withSession (m : Machine) (name : String)
    (f : SessionId → Session → Machine) : Machine :=
  match (m.world.sessionNames.get? name).bind fun s => (m.world.session? s).map (s, ·) with
  | some (s, session) => f s session
  | none => m.fail .unknownName

/-- Go on with the display of a name. -/
def withDisplay (m : Machine) (name : String)
    (f : DisplayId → Display → Machine) : Machine :=
  match (m.world.displayNames.get? name).bind fun d => (m.world.display? d).map (d, ·) with
  | some (d, display) => f d display
  | none => m.fail .unknownName

/-- Go on with the handler of a name. -/
def withHandler (m : Machine) (name : String) (f : HandlerId → Machine) : Machine :=
  match m.world.handlerNames.get? name with
  | some h => f h
  | none => m.fail .unknownName

/-- Go on with the handler of a name, if a name is given. -/
def withHandler? (m : Machine) (name : Option String)
    (f : Option HandlerId → Machine) : Machine :=
  match name with
  | none => f none
  | some name => m.withHandler name fun h => f (some h)

/-- Go on with the bus of a name. -/
def withBus (m : Machine) (name : BusName) (f : BusId → Machine) : Machine :=
  match name with
  | .session name => m.withSession name fun s _ => f (.session s)
  | .display name => m.withDisplay name fun d _ => f (.display d)
  | .free name => f (.free name)

/-- Go on with the settings in a value, or with the defaults if none is given. -/
def withSettings (m : Machine) (settings : Option Json.Value)
    (f : Config → Machine) : Machine :=
  match settings with
  | none => f {}
  | some value =>
    match Config.ofValue value with
    | .ok config => f config
    | .error failure => m.fail failure

/-- Go on with a node of a session, by its title or the current one. -/
def withNode (m : Machine) (session : Session) (title : Option String)
    (f : String → Node → Machine) : Machine :=
  let found := match title with
    | some title => session.graph.bind fun graph =>
        (graph.get? title).map (graph.key title, ·)
    | none => session.phase.key?.bind fun key => session.currentNode?.map (key, ·)
  match found with
  | some (key, node) => f key node
  | none => m.fail .unknownName

/-- Go on with a line of a session. -/
def withLine (m : Machine) (s : SessionId) (session : Session) (place : LinePlace)
    (f : LineRef → Machine) : Machine :=
  m.withNode session place.title fun key node =>
    match place.index with
    | some index =>
      match node.lineNumber? index with
      | some n => f ⟨s, session.generation, key, n⟩
      | none => m.fail .noSuchLine
    | none =>
      match node.currentLine with
      | .ok _ => f ⟨s, session.generation, key, node.cursor⟩
      | .error failure => m.fail failure

/-- The texts of the names of some handlers. -/
def handlerNames (w : World) (hs : List HandlerId) : List String :=
  hs.map fun h => (w.handler? h).elim "" Handler.name

end Parley.Machine
