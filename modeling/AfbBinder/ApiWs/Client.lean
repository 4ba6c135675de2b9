import AfbBinder.ApiWs.Wire
import AfbBinder.Lib.Keyed
import AfbBinder.Lib.Loop

/-!
# The client of a binder link

The client part of `afb-api-ws.c`: the calls waiting for a reply, the events of the
server known to the client, and what the client does to the requests and the events of
its own binder.  The memory for memos and events is found, except where an argument
says that it is not; the websocket says whether it sent.
-/

namespace AfbBinder.ApiWs

open Lib

/-- The bytes of an ASCII text of the source. -/
def ascii (text : String) : Bytes := text.toList.map fun c => UInt8.ofNat c.toNat

/-- `struct api_ws_memo`, for a request of the binder. -/
structure Memo where
  msgid : UInt32
  req : Nat
deriving DecidableEq, Repr

/-- `struct api_ws_event` -/
structure ApiWsEvent where
  eventid : UInt32
  name : Bytes
  refcount : Int
deriving DecidableEq, Repr

def ApiWsEvent.key (ev : ApiWsEvent) : UInt32 × Bytes := (ev.eventid, ev.name)

/-- What the client does to its own binder.  The flags of a reply are put in the context
of the request; a reply that cannot be read leaves them. -/
inductive Effect (J : Type) where
  | success (req : Nat) (flags : UInt32) (object : Option J) (info : Option Bytes)
  | fail (req : Nat) (flags : Option UInt32) (status : Bytes) (info : Option Bytes)
  | send (req : Nat) (flags : UInt32) (data : Bytes)
  | broadcast (name : Bytes) (object : Option J)
  | createEvent (eventid : UInt32) (name : Bytes)
  | dropEvent (eventid : UInt32) (name : Bytes)
  | push (eventid : UInt32) (name : Bytes) (object : Option J)
  | subscribe (req : Nat) (eventid : UInt32) (name : Bytes)
  | unsubscribe (req : Nat) (eventid : UInt32) (name : Bytes)
deriving DecidableEq, Repr

/-- `struct api_ws` of a client, with its effects so far. -/
structure Client (J : Type) where
  id : UInt32
  memos : List Memo
  events : List ApiWsEvent
  log : List (Effect J)
deriving DecidableEq, Repr

def Client.initial {J : Type} : Client J := ⟨0, [], [], []⟩

def Client.effect {J : Type} (effect : Effect J) (api : Client J) : Client J :=
  { api with log := api.log ++ [effect] }

variable {J : Type}

/-! ## Memos -/

/-- `api_ws_client_memo_search` -/
def apiWsClientMemoSearch (memos : List Memo) (msgid : UInt32) : Option Memo :=
  Keyed.search Memo.msgid memos msgid

/-- The loop that allocates an identifier: `none` when it does not end within the turns. -/
def freshMsgid (memos : List Memo) : Nat → UInt32 → Option UInt32 :=
  doWhile (fun id => id + 1) fun msgid => (apiWsClientMemoSearch memos msgid).isSome

/-- `api_ws_client_memo_make`.  One turn more than there are memos is enough. -/
def apiWsClientMemoMake (req : Nat) (api : Client J) : Option (Memo × Client J) := do
  let msgid ← freshMsgid api.memos (api.memos.length + 1) api.id
  let memo : Memo := ⟨msgid, req⟩
  some (memo, { api with id := msgid, memos := memo :: api.memos })

/-- `api_ws_client_memo_destroy` -/
def apiWsClientMemoDestroy (memo : Memo) (api : Client J) : Client J :=
  { api with memos := api.memos.erase memo }

/-- `api_ws_client_msg_memo_get` -/
def apiWsClientMsgMemoGet (api : Client J) (rb : Readbuf) : Option (Memo × Readbuf) := do
  let (msgid, rb) ← apiWsReadUint32 rb
  let memo ← apiWsClientMemoSearch api.memos msgid
  some (memo, rb)

/-! ## Events -/

/-- `api_ws_client_event_search` -/
def apiWsClientEventSearch (events : List ApiWsEvent) (eventid : UInt32) (name : Bytes) :
    Option ApiWsEvent :=
  Keyed.search ApiWsEvent.key events (eventid, name)

/-- `api_ws_client_msg_event_read` -/
def apiWsClientMsgEventRead (rb : Readbuf) : Option ((UInt32 × Bytes) × Readbuf) := do
  let (eventid, rb) ← apiWsReadUint32 rb
  let ((name, _), rb) ← apiWsReadString rb
  some ((eventid, rb.text name), rb)

/-- `api_ws_client_msg_event_get` -/
def apiWsClientMsgEventGet (api : Client J) (rb : Readbuf) : Option (ApiWsEvent × Readbuf) := do
  let ((eventid, name), rb) ← apiWsClientMsgEventRead rb
  let ev ← apiWsClientEventSearch api.events eventid name
  some (ev, rb)

/-- `api_ws_client_msg_subscription_get` -/
def apiWsClientMsgSubscriptionGet (api : Client J) (rb : Readbuf) :
    Option ((ApiWsEvent × Memo) × Readbuf) := do
  let (memo, rb) ← apiWsClientMsgMemoGet api rb
  let (ev, rb) ← apiWsClientMsgEventGet api rb
  some ((ev, memo), rb)

/-! ## The messages of the server

A handler gives the client after the message and the buffer as far as it was read; a
message that cannot be read leaves the buffer. -/

/-- The record of an event in `api_ws_client_event_create`. -/
def createEvent (eventid : UInt32) (name : Bytes) (api : Client J) : Client J :=
  match apiWsClientEventSearch api.events eventid name with
  | some ev =>
      { api with events := api.events.replace ev { ev with refcount := ev.refcount + 1 } }
  | none =>
      { api with
        events := ⟨eventid, name, 1⟩ :: api.events
        log := api.log ++ [.createEvent eventid name] }

/-- `api_ws_client_event_create` -/
def apiWsClientEventCreate (api : Client J) (rb : Readbuf) : Client J × Readbuf :=
  match apiWsClientMsgEventRead rb with
  | none => (api, rb)
  | some ((eventid, name), rb) => (createEvent eventid name api, rb)

/-- The end of `api_ws_client_event_drop`. -/
def dropEvent (ev : ApiWsEvent) (api : Client J) : Client J :=
  if ev.refcount - 1 ≠ 0 then
    { api with events := api.events.replace ev { ev with refcount := ev.refcount - 1 } }
  else
    { api with
      events := api.events.erase ev
      log := api.log ++ [.dropEvent ev.eventid ev.name] }

/-- `api_ws_client_event_drop` -/
def apiWsClientEventDrop (api : Client J) (rb : Readbuf) : Client J × Readbuf :=
  match apiWsClientMsgEventGet api rb with
  | none => (api, rb)
  | some (ev, rb) => (dropEvent ev api, rb)

/-- `api_ws_client_event_subscribe` -/
def apiWsClientEventSubscribe (api : Client J) (rb : Readbuf) : Client J × Readbuf :=
  match apiWsClientMsgSubscriptionGet api rb with
  | none => (api, rb)
  | some ((ev, memo), rb) => (api.effect (.subscribe memo.req ev.eventid ev.name), rb)

/-- `api_ws_client_event_unsubscribe` -/
def apiWsClientEventUnsubscribe (api : Client J) (rb : Readbuf) : Client J × Readbuf :=
  match apiWsClientMsgSubscriptionGet api rb with
  | none => (api, rb)
  | some ((ev, memo), rb) => (api.effect (.unsubscribe memo.req ev.eventid ev.name), rb)

variable (json : JsonC J)

/-- `api_ws_client_event_broadcast` -/
def apiWsClientEventBroadcast (api : Client J) (rb : Readbuf) : Client J × Readbuf :=
  let message := do
    let ((event, _), rb) ← apiWsReadString rb
    let (object, rb) ← apiWsReadObject json rb
    some ((rb.text event, object), rb)
  match message with
  | none => (api, rb)
  | some ((event, object), rb) => (api.effect (.broadcast event object), rb)

/-- `api_ws_client_event_push` -/
def apiWsClientEventPush (api : Client J) (rb : Readbuf) : Client J × Readbuf :=
  let message := do
    let (ev, rb) ← apiWsClientMsgEventGet api rb
    let (object, rb) ← apiWsReadObject json rb
    some ((ev, object), rb)
  match message with
  | none => (api, rb)
  | some ((ev, object), rb) => (api.effect (.push ev.eventid ev.name object), rb)

/-- The reply of a call: the memo is looked for, then the answer is read and given to its
request, or a failure when it cannot be read; the memo is destroyed. -/
def replyWith (answer : Memo → Readbuf → Option (Effect J × Readbuf)) (api : Client J)
    (rb : Readbuf) : Client J × Readbuf :=
  match apiWsClientMsgMemoGet api rb with
  | none => (api, rb)
  | some (memo, rb) =>
      match answer memo rb with
      | some (effect, rb) => (apiWsClientMemoDestroy memo (api.effect effect), rb)
      | none =>
          (apiWsClientMemoDestroy memo
            (api.effect (.fail memo.req none (ascii "error") (some (ascii "ws error")))), rb)

/-- `*info ? info : NULL` -/
def optionalInfo (info : Bytes) : Option Bytes := if info = [] then none else some info

/-- The answer read by `api_ws_client_reply_success`. -/
def successAnswer (memo : Memo) (rb : Readbuf) : Option (Effect J × Readbuf) := do
  let (flags, rb) ← apiWsReadUint32 rb
  let ((info, _), rb) ← apiWsReadString rb
  let (object, rb) ← apiWsReadObject json rb
  some (.success memo.req flags object (optionalInfo (rb.text info)), rb)

/-- The answer read by `api_ws_client_reply_fail`. -/
def failAnswer (memo : Memo) (rb : Readbuf) : Option (Effect J × Readbuf) := do
  let (flags, rb) ← apiWsReadUint32 rb
  let ((status, _), rb) ← apiWsReadString rb
  let ((info, _), rb) ← apiWsReadString rb
  some (.fail memo.req (some flags) (rb.text status) (optionalInfo (rb.text info)), rb)

/-- The answer read by `api_ws_client_reply_send`. -/
def sendAnswer (memo : Memo) (rb : Readbuf) : Option (Effect J × Readbuf) := do
  let (flags, rb) ← apiWsReadUint32 rb
  let ((data, length), rb) ← apiWsReadString rb
  some (.send memo.req flags (rb.data data length), rb)

def apiWsClientReplySuccess : Client J → Readbuf → Client J × Readbuf := replyWith (successAnswer json)

def apiWsClientReplyFail : Client J → Readbuf → Client J × Readbuf := replyWith failAnswer

def apiWsClientReplySend : Client J → Readbuf → Client J × Readbuf := replyWith sendAnswer

/-- The handler of a message by its first character. -/
def handlerOf (order : UInt8) : Client J → Readbuf → Client J × Readbuf :=
  if order = 84 then apiWsClientReplySuccess json        -- 'T'
  else if order = 70 then apiWsClientReplyFail           -- 'F'
  else if order = 88 then apiWsClientReplySend           -- 'X'
  else if order = 42 then apiWsClientEventBroadcast json -- '*'
  else if order = 43 then apiWsClientEventCreate         -- '+'
  else if order = 45 then apiWsClientEventDrop           -- '-'
  else if order = 33 then apiWsClientEventPush json      -- '!'
  else if order = 83 then apiWsClientEventSubscribe      -- 'S'
  else if order = 85 then apiWsClientEventUnsubscribe    -- 'U'
  else fun api rb => (api, rb)

/-- `api_ws_client_on_binary` -/
def apiWsClientOnBinary (api : Client J) (rb : Readbuf) : Client J × Readbuf :=
  if rb.stop - rb.head > 0 then
    handlerOf json ((rb.bytesFrom rb.head).headD 0) api { rb with head := rb.head + 1 }
  else (api, rb)

/-! ## Calls -/

/-- What a call carries: the verb is given with its length, the raw request is followed in
memory by a NUL. -/
structure Call where
  flags : UInt32
  verb : Bytes
  lenverb : Nat
  uuid : CString
  raw : Option Bytes

/-- The message of a call. -/
def callMessage (msgid : UInt32) (call : Call) (raw : Bytes) : Option Writebuf :=
  some [] >>= apiWsWriteUint32 msgid >>= apiWsWriteUint32 call.flags >>=
    apiWsWriteStringNz call.verb call.lenverb >>= apiWsWriteString call.uuid >>=
    apiWsWriteStringLength (raw ++ [0]) raw.length

/-- The end of a call that could not be sent. -/
def failCall (memo : Memo) (info : String) (api : Client J) : Client J :=
  apiWsClientMemoDestroy memo
    (api.effect (.fail memo.req none (ascii "error") (some (ascii info))))

/-- `api_ws_client_call_cb`: the client and the message sent, `none` when the allocation of
an identifier does not end.  `allocated` tells whether there is memory for the memo and
`sends` whether the websocket sends the message. -/
def apiWsClientCallCb (req : Nat) (call : Call) (allocated : Bool) (sends : Writebuf → Bool)
    (api : Client J) : Option (Client J × Option Writebuf) :=
  if !allocated then
    some (api.effect (.fail req none (ascii "error") (some (ascii "out of memory"))), none)
  else do
    let (memo, api) ← apiWsClientMemoMake req api
    match call.raw with
    | none => some (failCall memo "internal: raw is NULL!" api, none)
    | some raw =>
        match callMessage memo.msgid call raw with
        | none => some (failCall memo "overflow: size doesn't match 32 bits!" api, none)
        | some wb =>
            if sends wb then some (api, some wb)
            else some (failCall memo "websocket sending error" api, none)

end AfbBinder.ApiWs
