import AfbBinder.Lib.Bytes
import AfbBinder.Lib.Keyed
import AfbBinder.Lib.Loop

/-!
# Events, listeners and watches

The model of `afb-evt.c`.  Objects are known by their addresses, which the allocator
chooses among those that are free; a table holds the objects that are allocated.  The
lists of watches of an event and of a listener hold addresses.  A function gives `none`
when it would use an object that is not allocated or pass the end of a list, and else,
with its result, the calls it made to the interfaces of the listeners, in order.  The
activity of a watch, an `unsigned` in the source, is counted without bound: where a result
depends on that, it asks for less than 2^32 subscriptions of a listener to an event.
-/

namespace AfbBinder.Evt

open Lib

/-- `struct afb_evt_itf`: where it is and which of its functions are not NULL. -/
structure EvtItf where
  address : Nat
  push : Bool
  broadcast : Bool
  add : Bool
  remove : Bool
deriving DecidableEq, Repr

/-- `struct afb_evt_listener` -/
structure Listener where
  address : Nat
  itf : EvtItf
  closure : Nat
  watchs : List Nat
  refcount : Int
deriving DecidableEq, Repr

/-- `struct afb_evt_event` -/
structure EvtEvent where
  address : Nat
  watchs : List Nat
  id : Int32
  name : CString

/-- `struct afb_evt_watch`, less its links. -/
structure Watch where
  address : Nat
  event : Nat
  listener : Nat
  activity : Nat
deriving DecidableEq, Repr

/-- The static variables, with the objects they lead to. -/
structure Store where
  listeners : List Listener
  events : List EvtEvent
  watches : List Watch
  eventIdCounter : Int32
  eventIdWrapped : Bool

/-- `struct afb_event`: whether its interface is `afb_evt_event_itf`, and its closure. -/
structure AfbEvent where
  ours : Bool
  closure : Nat
deriving DecidableEq, Repr

/-- A call of the interface of a listener. -/
inductive Notice (J : Type) where
  | push (listener : Nat) (event : CString) (eventid : Int32) (object : Option J)
  | broadcast (listener : Nat) (event : CString) (object : Option J)
  | add (listener : Nat) (event : CString) (eventid : Int32)
  | remove (listener : Nat) (event : CString) (eventid : Int32)

namespace Store

def event? (s : Store) (address : Nat) : Option EvtEvent :=
  Keyed.search EvtEvent.address s.events address

def listener? (s : Store) (address : Nat) : Option Listener :=
  Keyed.search Listener.address s.listeners address

def watch? (s : Store) (address : Nat) : Option Watch :=
  Keyed.search Watch.address s.watches address

/-- Changes the watches that are allocated and the lists of one event and one listener. -/
def relink (event : Nat) (eventWatchs : List Nat) (listener : Nat) (listenerWatchs : List Nat)
    (watches : List Watch) (s : Store) : Store :=
  { s with
    events := Keyed.modify EvtEvent.address event
      (fun evt => { evt with watchs := eventWatchs }) s.events
    listeners := Keyed.modify Listener.address listener
      (fun listener => { listener with watchs := listenerWatchs }) s.listeners
    watches := watches }

def setActivity (address activity : Nat) (s : Store) : Store :=
  { s with
    watches := Keyed.modify Watch.address address (fun watch => { watch with activity }) s.watches }

end Store

variable {J : Type}

/-! ## Pushing -/

/-- The loop of `evt_push` over the watches of the event, with the count of its turns. -/
def pushWatches (s : Store) (evt : EvtEvent) (object : Option J) :
    List Nat → Option (Nat × List (Notice J))
  | [] => some (0, [])
  | address :: rest => do
      let watch ← s.watch? address
      let listener ← s.listener? watch.listener
      if !listener.itf.push then none
      else
        let (result, notices) ← pushWatches s evt object rest
        if watch.activity ≠ 0 then
          some (result + 1, .push listener.address evt.name evt.id object :: notices)
        else some (result + 1, notices)

/-- `evt_push` -/
def evtPush (address : Nat) (object : Option J) (s : Store) : Option (Nat × List (Notice J)) := do
  let evt ← s.event? address
  pushWatches s evt object evt.watchs

/-- `afb_evt_broadcast` -/
def afbEvtBroadcast (event : CString) (object : Option J) (s : Store) : Nat × List (Notice J) :=
  let receivers := s.listeners.filter fun listener => listener.itf.broadcast
  (receivers.length, receivers.map fun listener => .broadcast listener.address event object)

/-- `evt_broadcast` -/
def evtBroadcast (address : Nat) (object : Option J) (s : Store) :
    Option (Nat × List (Notice J)) := do
  let evt ← s.event? address
  some (afbEvtBroadcast evt.name object s)

/-! ## Removing watches -/

/-- `remove_watch` -/
def removeWatch (address : Nat) (s : Store) : Option (Store × List (Notice J)) := do
  let watch ← s.watch? address
  let evt ← s.event? watch.event
  let listener ← s.listener? watch.listener
  let notices :=
    if watch.activity ≠ 0 ∧ listener.itf.remove then [.remove listener.address evt.name evt.id]
    else []
  let eventWatchs ← Keyed.unlink address evt.watchs
  let listenerWatchs ← Keyed.unlink address listener.watchs
  some (s.relink evt.address eventWatchs listener.address listenerWatchs (s.watches.erase watch),
    notices)

/-- `while (watchs != NULL) remove_watch(watchs)`, within a number of turns. -/
def removeWatches (watchs : Store → Option (List Nat)) :
    Nat → Store → Option (Store × List (Notice J))
  | 0, _ => none
  | turns + 1, s => do
      match ← watchs s with
      | [] => some (s, [])
      | address :: _ =>
          let (s, notices) ← removeWatch address s
          let (s, others) ← removeWatches watchs turns s
          some (s, notices ++ others)

/-! ## Events -/

def Store.eventWatchs (address : Nat) (s : Store) : Option (List Nat) :=
  (s.event? address).map EvtEvent.watchs

/-- `evt_destroy`.  The source unlinks the event before it removes its watches; nothing
looks at the list of events in between. -/
def evtDestroy (address : Nat) (s : Store) : Option (Store × List (Notice J)) :=
  match s.event? address with
  | none => some (s, [])
  | some evt => do
      let (s, notices) ← removeWatches (Store.eventWatchs address) (evt.watchs.length + 1) s
      some ({ s with events := s.events.filter fun other => other.address ≠ address }, notices)

/-- One turn of the allocation of an event identifier, and its test. -/
def nextEventId (counter : Int32 × Bool) : Int32 × Bool :=
  if counter.1 + 1 < 0 then (1024, true) else (counter.1 + 1, counter.2)

def eventIdUsed (events : List EvtEvent) (counter : Int32 × Bool) : Bool :=
  counter.2 && (Keyed.search EvtEvent.id events counter.1).isSome

/-- `afb_evt_create_event`: the allocator gives an address, or none when there is no
memory.  One turn more than there are events is enough to find an identifier. -/
def afbEvtCreateEvent (name : CString) (allocated : Option Nat) (s : Store) :
    Option (Option AfbEvent × Store) := do
  let (counter, wrapped) ← doWhile nextEventId (eventIdUsed s.events) (s.events.length + 1)
    (s.eventIdCounter, s.eventIdWrapped)
  let s := { s with eventIdCounter := counter, eventIdWrapped := wrapped }
  match allocated with
  | none => some (none, s)
  | some address =>
      if counter > 0 then
        some (some ⟨true, address⟩, { s with events := ⟨address, [], counter, name⟩ :: s.events })
      else none

/-! ## Watching -/

/-- The search of the watch of an event among the watches of a listener. -/
def findWatch (s : Store) (event : Nat) : List Nat → Option (Option Watch)
  | [] => some none
  | address :: rest => do
      let watch ← s.watch? address
      if watch.event = event then some (some watch) else findWatch s event rest

/-- The end of `afb_evt_add_watch`, on the watch found or made. -/
def activate (watch : Watch) (evt : EvtEvent) (listener : Listener) (s : Store) :
    Store × List (Notice J) :=
  (s.setActivity watch.address (watch.activity + 1),
    if watch.activity = 0 ∧ listener.itf.add then [.add listener.address evt.name evt.id] else [])

/-- `afb_evt_add_watch`, with the address of a new watch. -/
def afbEvtAddWatch (listener : Nat) (event : AfbEvent) (allocated : Option Nat) (s : Store) :
    Option (Int × Store × List (Notice J)) := do
  let listener ← s.listener? listener
  if !event.ours || !listener.itf.push then some (-1, s, [])
  else
    match ← findWatch s event.closure listener.watchs, allocated with
    | some watch, _ =>
        let evt ← s.event? event.closure
        some (0, activate watch evt listener s)
    | none, none => some (-1, s, [])
    | none, some address =>
        let evt ← s.event? event.closure
        let watch : Watch := ⟨address, evt.address, listener.address, 0⟩
        some (0, activate watch evt listener
          (s.relink evt.address (address :: evt.watchs) listener.address
            (address :: listener.watchs) (watch :: s.watches)))

/-- `afb_evt_remove_watch` -/
def afbEvtRemoveWatch (listener : Nat) (event : AfbEvent) (s : Store) :
    Option (Int × Store × List (Notice J)) := do
  let listener ← s.listener? listener
  if !event.ours then some (-1, s, [])
  else
    match ← findWatch s event.closure listener.watchs with
    | none => some (-1, s, [])
    | some watch =>
        if watch.activity = 0 then some (0, s, [])
        else
          let evt ← s.event? watch.event
          some (0, s.setActivity watch.address (watch.activity - 1),
            if watch.activity - 1 = 0 ∧ listener.itf.remove then
              [.remove listener.address evt.name evt.id]
            else [])

/-! ## Listeners -/

def Store.setRefcount (address : Nat) (refcount : Int) (s : Store) : Store :=
  { s with
    listeners :=
      Keyed.modify Listener.address address (fun listener => { listener with refcount }) s.listeners }

def Store.listenerWatchs (address : Nat) (s : Store) : Option (List Nat) :=
  (s.listener? address).map Listener.watchs

/-- `afb_evt_listener_addref` -/
def afbEvtListenerAddref (address : Nat) (s : Store) : Option Store := do
  let listener ← s.listener? address
  some (s.setRefcount address (listener.refcount + 1))

/-- `afb_evt_listener_unref` -/
def afbEvtListenerUnref (address : Nat) (s : Store) : Option (Store × List (Notice J)) := do
  let listener ← s.listener? address
  let s := s.setRefcount address (listener.refcount - 1)
  if listener.refcount - 1 ≠ 0 then some (s, [])
  else
    let (s, notices) ← removeWatches (Store.listenerWatchs address) (listener.watchs.length + 1) s
    some ({ s with listeners := s.listeners.filter fun other => other.address ≠ address }, notices)

/-- `afb_evt_listener_create` -/
def afbEvtListenerCreate (itf : EvtItf) (closure : Nat) (allocated : Option Nat) (s : Store) :
    Option Nat × Store :=
  match s.listeners.find? fun listener => listener.itf = itf ∧ listener.closure = closure with
  | some found => (some found.address, s.setRefcount found.address (found.refcount + 1))
  | none =>
      match allocated with
      | none => (none, s)
      | some address =>
          (some address, { s with listeners := ⟨address, itf, closure, [], 1⟩ :: s.listeners })

end AfbBinder.Evt
