import Parley.Event

/-!
# Event buses

A bus delivers events to the listeners subscribed to their type: higher priority first, equal
priorities in the order of subscription.  Subscriptions may be weak, and then end with their
listener, or one-shot, and then end with their first call.

A dispatch works on the subscriptions as they were when it began and cleans up when all of
them have been reached.  While a dispatch is calling listeners, further events wait in a
queue.  This module holds the bus as data and the pure steps of a dispatch; calling a
listener is left to the machine that runs them.
-/

namespace Parley

/-! ## What takes part -/

/-- A session, by its number. -/
structure SessionId where
  index : Nat
  deriving DecidableEq, Repr

/-- A display, by its number. -/
structure DisplayId where
  index : Nat
  deriving DecidableEq, Repr

/-- A handler of the host, by its number. -/
structure HandlerId where
  index : Nat
  deriving DecidableEq, Repr

/-- A line as it stands in a conversation: the session, which of the graphs it has loaded,
the key of the node and the number of the line. -/
structure LineRef where
  session : SessionId
  graph : Nat
  key : String
  index : Nat
  deriving DecidableEq, Repr

/-- Who listens on a bus. -/
inductive Listener where
  /-- A handler of the host. -/
  | handler (h : HandlerId)
  /-- The host's record of what happens in a session. -/
  | observer (s : SessionId)
  /-- A session waiting for one kind of input. -/
  | input (s : SessionId) (event : ContextEvent)
  deriving DecidableEq, Repr

/-- A subscription of a listener to one event type. -/
structure Subscription where
  priority : Int
  listener : Listener
  weak : Bool
  oneShot : Bool
  deriving DecidableEq, Repr

/-- Whether a subscription still leads to its listener. -/
def Subscription.resolves (alive : Listener → Bool) (sub : Subscription) : Bool :=
  !sub.weak || alive sub.listener

/-! ## Dispatches -/

/-- A dispatch that is calling listeners. -/
structure Dispatch where
  event : Event LineRef
  /-- The subscriptions at the beginning. -/
  snapshot : List Subscription
  /-- Those not reached yet. -/
  waiting : List Subscription
  /-- The one whose listener is being called. -/
  calling : Option Subscription := none
  /-- The listener looked at last, if it was alive. -/
  last : Option Listener := none
  /-- Those to remove when the dispatch ends. -/
  spent : List Subscription := []
  deriving Repr

namespace Dispatch

/-- Take note that the listener being called has returned.  A one-shot subscription is spent,
and a consumed event reaches no further listener. -/
def settle (d : Dispatch) : Dispatch :=
  match d.calling with
  | none => d
  | some sub =>
    { d with
      calling := none
      spent := if sub.oneShot then d.spent ++ [sub] else d.spent
      waiting := if d.event.consumed then [] else d.waiting }

/-- Go on to the next subscription that leads to a listener.  Those passed over are spent. -/
def next (alive : Listener → Bool) (d : Dispatch) : Dispatch :=
  let dead := d.waiting.takeWhile fun sub => !sub.resolves alive
  match d.waiting.dropWhile fun sub => !sub.resolves alive with
  | [] =>
    { d with
      waiting := []
      last := if dead.isEmpty then d.last else none
      spent := d.spent ++ dead }
  | sub :: rest =>
    { d with
      waiting := rest
      calling := some sub
      last := some sub.listener
      spent := d.spent ++ dead }

/-- The listeners that a dispatch keeps alive: those held firmly by its snapshot and the one
looked at last. -/
def holds (d : Dispatch) : List Listener :=
  (d.snapshot.filter fun sub => !sub.weak).map Subscription.listener ++ d.last.toList

end Dispatch

/-! ## Buses -/

/-- An event bus. -/
structure Bus where
  subscriptions : EventType → List Subscription := fun _ => []
  /-- Events published while a dispatch was calling listeners, in order. -/
  queue : List (Event LineRef) := []
  /-- The dispatch that is calling listeners. -/
  dispatching : Option Dispatch := none

instance : Inhabited Bus := ⟨{}⟩

namespace Bus

def isPublishing (bus : Bus) : Bool :=
  bus.dispatching.isSome

/-- The bus with the subscriptions of one event type changed. -/
def update (bus : Bus) (type : EventType) (f : List Subscription → List Subscription) : Bus :=
  { bus with
    subscriptions := fun t =>
      if t = type then f (bus.subscriptions t) else bus.subscriptions t }

/-- Whether a listener is subscribed to an event type. -/
def isSubscribed (bus : Bus) (type : EventType) (listener : Listener) : Bool :=
  (bus.subscriptions type).any fun sub => sub.listener == listener

/-- A subscription entered after all those of the same or a higher priority. -/
def insertByPriority (sub : Subscription) : List Subscription → List Subscription
  | [] => [sub]
  | other :: rest =>
    if other.priority < sub.priority then sub :: other :: rest
    else other :: insertByPriority sub rest

/-- Subscribe to an event type.  A listener that is subscribed already stays as it is. -/
def subscribe (bus : Bus) (type : EventType) (sub : Subscription) : Bus :=
  if bus.isSubscribed type sub.listener then bus
  else bus.update type (insertByPriority sub)

/-- End the subscription of a listener to an event type. -/
def unsubscribe (bus : Bus) (type : EventType) (listener : Listener) : Bus :=
  bus.update type fun subs => subs.filter fun sub => sub.listener ≠ listener

/-- The number of subscriptions to an event type that lead to a listener. -/
def count (bus : Bus) (alive : Listener → Bool) (type : EventType) : Nat :=
  ((bus.subscriptions type).filter fun sub => sub.resolves alive).length

/-- End all subscriptions, or those to one event type. -/
def clear (bus : Bus) : Option EventType → Bus
  | none => { bus with subscriptions := fun _ => [] }
  | some type => bus.update type fun _ => []

/-- Put an event at the end of the queue. -/
def enqueue (bus : Bus) (event : Event LineRef) : Bus :=
  { bus with queue := bus.queue ++ [event] }

def beginDispatch (bus : Bus) (event : Event LineRef) : Bus :=
  let subs := bus.subscriptions event.type
  { bus with dispatching := some { event, snapshot := subs, waiting := subs } }

/-- The bus with the dispatch under way changed. -/
def modifyDispatch (bus : Bus) (f : Dispatch → Dispatch) : Bus :=
  { bus with dispatching := bus.dispatching.map f }

def consume (bus : Bus) : Bus :=
  bus.modifyDispatch fun d => { d with event := d.event.consume }

/-- End the dispatch under way: its spent subscriptions are removed. -/
def endDispatch (bus : Bus) (d : Dispatch) : Bus :=
  let settled := { bus with dispatching := none }
  if d.spent.isEmpty then settled
  else settled.update d.event.type fun subs => subs.filter fun sub => sub ∉ d.spent

/-- The listeners that the bus keeps alive by itself. -/
def holds (bus : Bus) : List Listener :=
  EventType.all.flatMap fun type =>
    ((bus.subscriptions type).filter fun sub => !sub.weak).map Subscription.listener

/-! ## Subscriptions after a change -/

@[simp] theorem subscriptions_update_self (bus : Bus) (type : EventType)
    (f : List Subscription → List Subscription) :
    (bus.update type f).subscriptions type = f (bus.subscriptions type) := by
  simp [update]

theorem subscriptions_update_of_ne {bus : Bus} {type other : EventType} (h : other ≠ type)
    (f : List Subscription → List Subscription) :
    (bus.update type f).subscriptions other = bus.subscriptions other := by
  simp [update, h]

@[simp] theorem queue_subscribe (bus : Bus) (type : EventType) (sub : Subscription) :
    (bus.subscribe type sub).queue = bus.queue := by
  unfold subscribe; split <;> rfl

@[simp] theorem dispatching_subscribe (bus : Bus) (type : EventType) (sub : Subscription) :
    (bus.subscribe type sub).dispatching = bus.dispatching := by
  unfold subscribe; split <;> rfl

theorem mem_insertByPriority {sub other : Subscription} {subs : List Subscription} :
    other ∈ insertByPriority sub subs ↔ other = sub ∨ other ∈ subs := by
  induction subs with
  | nil => simp [insertByPriority]
  | cons first rest ih =>
    rw [insertByPriority]
    split
    · simp
    · simp only [List.mem_cons, ih]
      exact or_left_comm

end Bus

end Parley
