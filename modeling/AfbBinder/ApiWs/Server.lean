import AfbBinder.ApiWs.Client

/-!
# The server of a binder link

The messages that the server part of `afb-api-ws.c` writes, as the vectors it gives to
`afb_ws_binary_v` (`none` when a writer refuses), and what it reads of a call.
-/

namespace AfbBinder.ApiWs

open Lib

/-! ## Calls received -/

/-- What `api_ws_server_called` reads of a call. -/
structure ServerCall where
  msgid : UInt32
  flags : UInt32
  verb : Bytes
  uuid : Bytes
  request : Bytes
deriving DecidableEq, Repr

/-- `api_ws_server_called`, as far as it reads the message. -/
def apiWsServerCalled (rb : Readbuf) : Option (ServerCall × Readbuf) := do
  let (msgid, rb) ← apiWsReadUint32 rb
  let (flags, rb) ← apiWsReadUint32 rb
  let ((verb, _), rb) ← apiWsReadString rb
  let ((uuid, _), rb) ← apiWsReadString rb
  let ((request, lenreq), rb) ← apiWsReadString rb
  some (⟨msgid, flags, rb.text verb, rb.text uuid, rb.data request lenreq⟩, rb)

/-! ## Events -/

/-- `api_ws_server_event_send` -/
def apiWsServerEventSend (order : UInt8) (event : CString) (eventid : UInt32)
    (data : Option CString) : Option Writebuf :=
  let wb := some [] >>= apiWsWriteChar order >>= apiWsWriteUint32 eventid >>= apiWsWriteString event
  match data with
  | none => wb
  | some data => wb >>= apiWsWriteString data

def apiWsServerEventAdd (event : CString) (eventid : UInt32) : Option Writebuf :=
  apiWsServerEventSend 43 event eventid none

def apiWsServerEventRemove (event : CString) (eventid : UInt32) : Option Writebuf :=
  apiWsServerEventSend 45 event eventid none

variable {J : Type} (json : JsonC J)

/-- `api_ws_server_event_push` -/
def apiWsServerEventPush (event : CString) (eventid : UInt32) (object : Option J) :
    Option Writebuf :=
  apiWsServerEventSend 33 event eventid (some (json.toJsonString object))

/-- `api_ws_server_event_broadcast` -/
def apiWsServerEventBroadcast (event : CString) (object : Option J) : Option Writebuf :=
  some [] >>= apiWsWriteChar 42 >>= apiWsWriteString event >>= apiWsWriteObject json object

/-! ## Replies and subscriptions -/

def emptyString : CString := ⟨[], by simp⟩

/-- `api_ws_server_req_success_cb` -/
def apiWsServerReqSuccess (msgid flags : UInt32) (object : Option J) (info : Option CString) :
    Option Writebuf :=
  some [] >>= apiWsWriteChar 84 >>= apiWsWriteUint32 msgid >>= apiWsWriteUint32 flags >>=
    apiWsWriteString (info.getD emptyString) >>= apiWsWriteObject json object

/-- `api_ws_server_req_fail_cb` -/
def apiWsServerReqFail (msgid flags : UInt32) (status : CString) (info : Option CString) :
    Option Writebuf :=
  some [] >>= apiWsWriteChar 70 >>= apiWsWriteUint32 msgid >>= apiWsWriteUint32 flags >>=
    apiWsWriteString status >>= apiWsWriteString (info.getD emptyString)

/-- `api_ws_server_req_send_cb`, the buffer being followed by a NUL. -/
def apiWsServerReqSend (msgid flags : UInt32) (buffer : Bytes) : Option Writebuf :=
  some [] >>= apiWsWriteChar 88 >>= apiWsWriteUint32 msgid >>= apiWsWriteUint32 flags >>=
    apiWsWriteStringLength (buffer ++ [0]) buffer.length

/-- The message of `api_ws_server_req_subscribe_cb` and `api_ws_server_req_unsubscribe_cb`. -/
def subscriptionMessage (order : UInt8) (msgid eventid : UInt32) (name : CString) :
    Option Writebuf :=
  some [] >>= apiWsWriteChar order >>= apiWsWriteUint32 msgid >>= apiWsWriteUint32 eventid >>=
    apiWsWriteString name

def apiWsServerReqSubscribe : UInt32 → UInt32 → CString → Option Writebuf := subscriptionMessage 83

def apiWsServerReqUnsubscribe : UInt32 → UInt32 → CString → Option Writebuf :=
  subscriptionMessage 85

end AfbBinder.ApiWs
