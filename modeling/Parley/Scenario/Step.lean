import Parley.Folder
import Parley.Scenario.Inspect

/-!
# Steps of a host

A host is the program around a conversation.  What it does is given as a list of steps, and
so is what its handlers do when they are called.  Steps name sessions, displays, handlers and
buses by words of the host's choice.
-/

namespace Parley

/-- The handlers that a recording display calls, by name. -/
structure Hooks where
  node : Option String := none
  line : Option String := none
  ended : Option String := none
  close : Option String := none
  deriving DecidableEq, Repr

/-- The kinds of displays. -/
inductive DisplayKind where
  /-- Records what it is asked to show and passes it on to handlers.  If `deferred`, closing
  is only noted until the host lets it happen. -/
  | recording (hooks : Hooks) (deferred : Bool)
  /-- Writes text. -/
  | console
  deriving DecidableEq, Repr

/-- Which bus is meant. -/
inductive BusName where
  | session (name : String)
  | display (name : String)
  | free (name : String)
  deriving DecidableEq, Repr

/-- Which line of a session is meant: the node by its title, the current one by default, and
the number of the line, the current one by default. -/
structure LinePlace where
  title : Option String := none
  index : Option Int := none
  deriving DecidableEq, Repr

/-- Where a conversation comes from when a session is made. -/
inductive SessionSource where
  /-- The session is made over a graph of the data, or over none. -/
  | graph (data : Option Json.Value)
  /-- The session is made first, then loads the data and may start a node. -/
  | records (data : Json.Value) (start : Option String)
  deriving Repr

/-- A step on a session. -/
inductive SessionStep where
  | load (data : Json.Value) (start : Option String)
  | start (title : String)
  | proceed
  | follow (key destination : String)
  | registerAction (tag handler : String)
  | removeAction (tag handler : String)
  | actionHandlers (tag : String)
  | handleAction (tag param : String)
  | registerReplacement (key text : String)
  | removeReplacement (key : String)
  | replacements
  | tagValues (key : String)
  | summary
  | titles
  | display
  | config (setting : Option (String × Json.Value))
  | finish (onComplete : Option String)
  | fireActions (place : LinePlace)
  | node (title : Option String) (step : NodeStep)
  deriving Repr

/-- A step on a display. -/
inductive DisplayStep where
  | openUp
  | proceed
  | select (key destination : String)
  | action (tag param : String)
  | actions (session : String) (place : LinePlace)
  | choose (number : Int)
  | currentLine
  | replace (text : String)
  | replacements
  | close (handler : Option String)
  | flushClose
  | attach (session : String)
  | detach
  | info
  deriving DecidableEq, Repr

/-- A step on a bus. -/
inductive BusStep where
  | subscribe (type : EventType) (handler : String) (priority : Int) (oneShot weak : Bool)
  | unsubscribe (type : EventType) (handler : String)
  | isSubscribed (type : EventType) (handler : String)
  | count (type : EventType)
  | publish (type : EventType) (data : List (String × Json.Value))
  | publishEvent (type : EventType) (data : List (String × Json.Value)) (consumed : Bool)
  | clear (type : Option EventType)
  deriving Repr

/-- A step on the manager. -/
inductive ManagerStep where
  | register (display : String)
  | displayOf (title : String)
  | add (conversation : String) (data : Json.Value)
  | get (conversation : String)
  | conversations
  | loadFolder (folder : Folder) (place : List String)
  | start (conversation title : String) (node : Option String) (name : String)
  | active
  | endAll

/-- A step of a host. -/
inductive Step where
  /-- A new handler: for each round the number of calls it lasts and what each of them
  does. -/
  | define (name : String) (rounds : List (Nat × List Step))
  | dropHandler (name : String)
  | newDisplay (name title : String) (kind : DisplayKind)
  | newSession (name display : String) (settings : Option Json.Value) (source : SessionSource)
  | dropSession (name : String)
  | newManager (settings : Option Json.Value)
  | session (name : String) (step : SessionStep)
  | display (name : String) (step : DisplayStep)
  | bus (name : BusName) (step : BusStep)
  | manager (step : ManagerStep)
  /-- Inside a handler: consume the event it was called with. -/
  | consume
  /-- Inside a handler: fail. -/
  | fail (kind message : String)
  /-- A step that there is not. -/
  | unknown (name : String)

instance : Inhabited Step := ⟨.consume⟩

namespace SessionStep

/-- The name of a session step in a trace. -/
def name : SessionStep → String
  | load .. => "s.load"
  | start .. => "s.start"
  | proceed => "s.continue"
  | follow .. => "s.option"
  | registerAction .. => "s.register_action"
  | removeAction .. => "s.remove_action"
  | actionHandlers .. => "s.action_handlers"
  | handleAction .. => "s.handle_action"
  | registerReplacement .. => "s.register_replacement"
  | removeReplacement .. => "s.remove_replacement"
  | replacements => "s.replacements"
  | tagValues .. => "s.tag"
  | summary => "s.str"
  | titles => "s.titles"
  | display => "s.context"
  | config .. => "s.config"
  | finish .. => "s.finish"
  | fireActions .. => "s.dispatch"
  | node .. => "s.node"

end SessionStep

namespace DisplayStep

/-- The name of a display step in a trace. -/
def name : DisplayStep → String
  | openUp => "c.init"
  | proceed => "c.continue"
  | select .. => "c.select"
  | action .. => "c.action"
  | actions .. => "c.actions"
  | choose .. => "c.choose"
  | currentLine => "c.current_line"
  | replace .. => "c.replace"
  | replacements => "c.replacements"
  | close .. => "c.close"
  | flushClose => "c.flush_close"
  | attach .. => "c.attach"
  | detach => "c.detach"
  | info => "c.info"

end DisplayStep

namespace BusStep

/-- The name of a bus step in a trace. -/
def name : BusStep → String
  | subscribe .. => "b.subscribe"
  | unsubscribe .. => "b.unsubscribe"
  | isSubscribed .. => "b.is_subscribed"
  | count .. => "b.count"
  | publish .. => "b.publish"
  | publishEvent .. => "b.publish_event"
  | clear .. => "b.clear"

end BusStep

namespace ManagerStep

/-- The name of a manager step in a trace. -/
def name : ManagerStep → String
  | register .. => "m.register"
  | displayOf .. => "m.get_context"
  | add .. => "m.add"
  | get .. => "m.get"
  | conversations => "m.ids"
  | loadFolder .. => "m.load_directory"
  | start .. => "m.start"
  | active => "m.active"
  | endAll => "m.end_all"

end ManagerStep

namespace Step

/-- The name of a step in a trace. -/
def name : Step → String
  | define .. => "define"
  | dropHandler .. => "drop_handler"
  | newDisplay .. => "new_context"
  | newSession .. => "new_session"
  | dropSession .. => "drop_session"
  | newManager .. => "new_manager"
  | session _ step => step.name
  | display _ step => step.name
  | bus _ step => step.name
  | manager step => step.name
  | consume => "consume"
  | fail .. => "raise"
  | unknown name => name

end Step

end Parley
