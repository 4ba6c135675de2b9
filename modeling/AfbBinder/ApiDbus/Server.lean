import AfbBinder.ApiWs.Wire
import AfbBinder.Evt.Owners
import AfbBinder.Session.Ledger

/-!
# An API served on D-Bus

The server part of `afb-api-dbus.c`.  A caller is known by the sender of its calls, the
`destination` of the events.  For each session that a caller uses there is a `listener`,
which is a cookie of that session: it is freed by the store of the sessions, at a time that
the server does not choose.

Destinations and events have the addresses that the allocator gives.  A `listener` and a
request are identified by their allocation.  A function gives `none` when it would use an
object that is not allocated.
-/

namespace AfbBinder.ApiDbus

open Lib ApiWs

/-- The addresses of `evt_push_itf` and of `afb_api_dbus_server_listener_free`. -/
structure Image where
  evtPushItf : Nat
  listenerFree : Nat

def Image.pushItf (image : Image) : Evt.EvtItf := ⟨image.evtPushItf, true, false, true, true⟩

/-- `struct destination`, less its links. -/
structure Destination where
  address : Nat
  refcount : Int
  name : Bytes
deriving DecidableEq, Repr

/-- `struct listener` -/
structure Listener where
  ident : Nat
  destination : Nat
  listener : Nat
deriving DecidableEq, Repr

/-- The arguments of a call of the method `event`, with its destination. -/
structure EventMessage where
  destination : Bytes
  order : UInt8
  eventid : Int32
  event : Bytes
  data : Bytes
  msgid : UInt64
deriving DecidableEq, Repr

def orderAdd : UInt8 := 43
def orderRemove : UInt8 := 45
def orderPush : UInt8 := 33
def orderSubscribe : UInt8 := 83
def orderUnsubscribe : UInt8 := 85

inductive BusError where
  | invalidSignature
  | noMemory
deriving DecidableEq, Repr

/-- The replies, for the senders of the calls and by the cookies of these. -/
inductive Answer where
  | methodReturn (sender : Bytes) (cookie : UInt64) (type : UInt8) (first second : Bytes)
      (flags : UInt32)
  | methodError (sender : Bytes) (cookie : UInt64) (error : BusError)
deriving DecidableEq, Repr

/-- `struct dbus_req`, with the sender and the cookie of its message. -/
structure DbusReq where
  ident : Nat
  context : Session.Context
  flags : UInt32
  sender : Bytes
  cookie : UInt64
  request : Bytes
  listener : Nat
  refcount : Int
deriving DecidableEq, Repr

/-- The server, with the sessions and the events of the binder. -/
structure Server where
  store : Session.Store
  now : Int
  evt : Evt.Store
  destinations : List Destination
  listeners : List Listener
  nextListener : Nat
  requests : List DbusReq
  nextRequest : Nat
  sent : List EventMessage
  answers : List Answer

namespace Server

def destination? (s : Server) (address : Nat) : Option Destination :=
  Keyed.search Destination.address s.destinations address

def listener? (s : Server) (ident : Nat) : Option Listener :=
  Keyed.search Listener.ident s.listeners ident

def request? (s : Server) (ident : Nat) : Option DbusReq :=
  Keyed.search DbusReq.ident s.requests ident

end Server

variable {J : Type} (json : JsonC J) (image : Image)

/-! ## The interface of the listeners -/

/-- `afb_api_dbus_server_event_add`, `afb_api_dbus_server_event_remove` and
`afb_api_dbus_server_event_push`; the interface has no broadcast. -/
def noticeMessage (destination : Bytes) : Evt.Notice J → List EventMessage
  | .add _ event eventid => [⟨destination, orderAdd, eventid, event.bytes, [], 0⟩]
  | .remove _ event eventid => [⟨destination, orderRemove, eventid, event.bytes, [], 0⟩]
  | .push _ event eventid object =>
      [⟨destination, orderPush, eventid, event.bytes, (json.toJsonString object).bytes, 0⟩]
  | .broadcast _ _ _ => []

/-- The calls of the interfaces of the listeners, which were those of `evt`.  The closure of a
listener of the server is a destination. -/
def tell (evt : Evt.Store) : List (Evt.Notice J) → Server → Option Server
  | [], s => some s
  | notice :: rest, s => do
      let listener ← evt.listener? notice.listener
      if listener.itf = image.pushItf then
        let destination ← s.destination? listener.closure
        tell evt rest { s with sent := s.sent ++ noticeMessage json destination.name notice }
      else tell evt rest s

/-! ## Destinations and listeners -/

/-- `afb_api_dbus_server_destination_get` -/
def destinationGet (sender : Bytes) (allocated : Option Nat) (s : Server) : Option Nat × Server :=
  match s.destinations.find? fun destination => destination.name = sender with
  | some found =>
      (some found.address, { s with
        destinations := Keyed.modify Destination.address found.address
          (fun destination => { destination with refcount := destination.refcount + 1 })
          s.destinations })
  | none =>
      match allocated with
      | none => (none, s)
      | some address =>
          (some address, { s with destinations := ⟨address, 1, sender⟩ :: s.destinations })

/-- `afb_api_dbus_server_destination_unref` -/
def destinationUnref (address : Nat) (s : Server) : Option Server := do
  let destination ← s.destination? address
  if destination.refcount - 1 ≠ 0 then
    some { s with
      destinations := Keyed.modify Destination.address address
        (fun destination => { destination with refcount := destination.refcount - 1 })
        s.destinations }
  else
    some { s with destinations := s.destinations.filter fun other => other.address ≠ address }

/-- `afb_evt_listener_unref` on a listener of the server. -/
def evtUnref (listener : Nat) (s : Server) : Option Server := do
  let (evt, notices) ← Evt.afbEvtListenerUnref listener s.evt
  let s' ← tell json image s.evt notices s
  some { s' with evt := evt }

/-- `afb_api_dbus_server_listener_free` -/
def listenerFree (ident : Nat) (s : Server) : Option Server := do
  let listener ← s.listener? ident
  let s ← evtUnref json image listener.listener s
  let s ← destinationUnref listener.destination s
  some { s with listeners := s.listeners.filter fun other => other.ident ≠ ident }

/-- The calls that the store of the sessions makes to `afb_api_dbus_server_listener_free`. -/
def releaseAll : List Session.Release → Server → Option Server
  | [], s => some s
  | r :: rest, s => do
      if r.freeValue = image.listenerFree then
        let s ← listenerFree json image r.value s
        releaseAll rest s
      else releaseAll rest s

/-- An operation on the sessions, with what it releases. -/
def settle (store : Session.Store) (s : Server) : Option Server :=
  releaseAll json image (store.released.drop s.store.released.length) { s with store := store }

/-- What the allocator gives along `api_dbus_server_on_object_called`. -/
structure Memory where
  request : Bool
  session : Bool
  destination : Option Nat
  listener : Bool
  evtListener : Option Nat
  cookie : Bool

/-- The end of `afb_api_dbus_server_listerner_get`, on a new listener: the cookie is set, or
all is undone. -/
def listenerStore (memory : Memory) (destination listener session : Nat) (c : Session.ClientCtx)
    (s : Server) : Option (Option Nat × Server) :=
  if memory.cookie || c.cookies.any (fun cookie => cookie.key = destination) then
    some (some s.nextListener, { s with
      store := s.store.modify session (Session.ctxClientCookieSet memory.cookie destination
        (some s.nextListener) (some image.listenerFree))
      listeners := ⟨s.nextListener, destination, listener⟩ :: s.listeners
      nextListener := s.nextListener + 1 })
  else do
    let s ← evtUnref json image listener s
    some (none, ← destinationUnref destination s)

/-- `afb_api_dbus_server_listerner_get` -/
def listenerGet (memory : Memory) (sender : Bytes) (session : Nat) (s : Server) :
    Option (Option Nat × Server) :=
  match destinationGet sender memory.destination s with
  | (none, s) => some (none, s)
  | (some destination, s) => do
      let c ← s.store.mem session
      match Session.ctxClientCookieGet destination c with
      | some listener => some (some listener, ← destinationUnref destination s)
      | none =>
          if !memory.listener then some (none, ← destinationUnref destination s)
          else
            match Evt.afbEvtListenerCreate image.pushItf destination memory.evtListener s.evt with
            | (none, evt) => some (none, ← destinationUnref destination { s with evt := evt })
            | (some listener, evt) =>
                listenerStore json image memory destination listener session c { s with evt := evt }

/-! ## Requests -/

/-- A call of the object: its sender, its cookie and, when its signature is the one expected,
its arguments. -/
structure Incoming where
  sender : Bytes
  cookie : UInt64
  arguments : Option (Bytes × Bytes × UInt32)

/-- The session that `api_dbus_server_on_object_called` connects the request to. -/
def connect (memory : Memory) (generated uuid : Bytes) (s : Server) :
    Option (Option Session.Context × Server) := do
  let (context, store) :=
    Session.afbContextConnect memory.session generated (some uuid) none s.now s.store
  let s ← settle json image store s
  some (context, s)

def replyError (incoming : Incoming) (error : BusError) (s : Server) : Server :=
  { s with answers := s.answers ++ [.methodError incoming.sender incoming.cookie error] }

/-- `api_dbus_server_on_object_called`, up to the call of the API. -/
def onObjectCalled (incoming : Incoming) (memory : Memory) (generated : Bytes) (s : Server) :
    Option Server :=
  if !memory.request then some (replyError incoming .noMemory s)
  else
    match incoming.arguments with
    | none => some (replyError incoming .invalidSignature s)
    | some (request, uuid, flags) => do
        match ← connect json image memory generated uuid s with
        | (none, s) => some (replyError incoming .noMemory s)
        | (some context, s) =>
            let session ← context.session
            match ← listenerGet json image memory incoming.sender session s with
            | (none, s) =>
                -- the context is not disconnected
                some (replyError incoming .noMemory s)
            | (some listener, s) =>
                some { s with
                  requests := ⟨s.nextRequest, context, flags, incoming.sender, incoming.cookie,
                    request, listener, 1⟩ :: s.requests
                  nextRequest := s.nextRequest + 1 }

/-- `dbus_req_addref` -/
def dbusReqAddref (ident : Nat) (s : Server) : Option Server := do
  let _ ← s.request? ident
  some { s with
    requests := Keyed.modify DbusReq.ident ident
      (fun dreq => { dreq with refcount := dreq.refcount + 1 }) s.requests }

/-- `dbus_req_unref`, with the token that may be made. -/
def dbusReqUnref (ident : Nat) (generated : Bytes) (s : Server) : Option Server := do
  let dreq ← s.request? ident
  if dreq.refcount - 1 ≠ 0 then
    some { s with
      requests := Keyed.modify DbusReq.ident ident
        (fun dreq => { dreq with refcount := dreq.refcount - 1 }) s.requests }
  else
    let ended := Session.afbContextDisconnect generated s.now dreq.context s.store
    settle json image ended.2
      { s with requests := s.requests.filter fun other => other.ident ≠ ident }

/-- `dbus_req_reply` -/
def dbusReqReply (ident : Nat) (type : UInt8) (first second : Option Bytes) (s : Server) :
    Option Server := do
  let dreq ← s.request? ident
  some { s with
    answers := s.answers ++
      [.methodReturn dreq.sender dreq.cookie type (first.getD []) (second.getD []) dreq.flags] }

/-- `afb_evt_event_name` and `afb_evt_event_id`; a NULL string is sent as an empty one. -/
def eventSign (event : Evt.AfbEvent) (evt : Evt.Store) : Option (Bytes × Int32) :=
  if event.ours then (evt.event? event.closure).map fun e => (e.name.bytes, e.id) else some ([], 0)

/-- `afb_api_dbus_server_event_send` for a request. -/
def sendOrder (order : UInt8) (dreq : DbusReq) (listener : Listener) (event : Evt.AfbEvent)
    (s : Server) : Option Server := do
  let (name, eventid) ← eventSign event s.evt
  let destination ← s.destination? listener.destination
  some { s with sent := s.sent ++ [⟨destination.name, order, eventid, name, [], dreq.cookie⟩] }

/-- `dbus_req_subscribe`, with the address of a new watch. -/
def dbusReqSubscribe (ident : Nat) (event : Evt.AfbEvent) (allocated : Option Nat) (s : Server) :
    Option Server := do
  let dreq ← s.request? ident
  let listener ← s.listener? dreq.listener
  let (_, evt, notices) ← Evt.afbEvtAddWatch listener.listener event allocated s.evt
  let s' ← tell json image s.evt notices s
  sendOrder orderSubscribe dreq listener event { s' with evt := evt }

/-- `dbus_req_unsubscribe` -/
def dbusReqUnsubscribe (ident : Nat) (event : Evt.AfbEvent) (s : Server) : Option Server := do
  let dreq ← s.request? ident
  let listener ← s.listener? dreq.listener
  let s ← sendOrder orderUnsubscribe dreq listener event s
  let (_, evt, notices) ← Evt.afbEvtRemoveWatch listener.listener event s.evt
  let s' ← tell json image s.evt notices s
  some { s' with evt := evt }

/-! ## Runs -/

/-- What can happen.  The sessions, the events and their watches are also used by the other
parts of the binder; a request is used by a binding. -/
inductive Action (J : Type) where
  | session (action : Session.Action)
  | evt (deed : Evt.Deed J)
  | called (incoming : Incoming) (memory : Memory) (generated : Bytes)
  | addref (request : Nat)
  | unref (request : Nat) (generated : Bytes)
  | change (request : Nat) (context : Session.Context)
  | reply (request : Nat) (type : UInt8) (first second : Option Bytes)
  | subscribe (request : Nat) (event : Evt.AfbEvent) (allocated : Option Nat)
  | unsubscribe (request : Nat) (event : Evt.AfbEvent)

def exec (s : Server) : Action J → Option Server
  | .session action =>
      let w := Session.exec ⟨s.store, fun _ => 0, s.now⟩ action
      settle json image w.store { s with now := w.now }
  | .evt deed => do
      let (evt, notices) ← deed.exec s.evt
      let s' ← tell json image s.evt notices s
      some { s' with evt := evt }
  | .called incoming memory generated => onObjectCalled json image incoming memory generated s
  | .addref request => dbusReqAddref request s
  | .unref request generated => dbusReqUnref json image request generated s
  | .change request context => do
      let _ ← s.request? request
      some { s with
        requests := Keyed.modify DbusReq.ident request (fun dreq => { dreq with context }) s.requests }
  | .reply request type first second => dbusReqReply request type first second s
  | .subscribe request event allocated => dbusReqSubscribe json image request event allocated s
  | .unsubscribe request event => dbusReqUnsubscribe json image request event s

end AfbBinder.ApiDbus
