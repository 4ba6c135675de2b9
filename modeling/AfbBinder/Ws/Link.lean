import AfbBinder.Lib.Outcome
import AfbBinder.Ws.Websock

/-!
# A websocket link

The functions of `afb-ws.c`, and `websock_dispatch` with the interface that file gives
it.  The callbacks of the user of the link are recorded as events.  A callback leaves
the link as it is, disconnects it or destroys it.  A turn of the loop makes at most one
call other than that of `on_hangup`, and at most one `realloc`: what the user does in the
first and whether the second finds memory are parameters of the turn.

A link has at most one websocket, never created again, so that `on_hangup` is called at
most once: what the user does in it belongs to the interface.  The activations of
`websock_dispatch` hold a pointer to the websocket, and that of `io_event_callback` a
pointer to the link: in the model a turn of the loop on a disconnected link and a hangup
of a destroyed one are reads of freed memory.
-/

namespace AfbBinder.Ws

open Lib

/-! ## The link -/

/-- `struct buf`: the allocated block, and how much of it is used. -/
structure Buf where
  buffer : Option Bytes
  size : Nat
deriving DecidableEq, Repr

def Buf.null : Buf := ⟨none, 0⟩

inductive State where
  | waiting
  | readingText
  | readingBinary
deriving DecidableEq, Repr

/-- A callback of the user.  A message comes with the state of the link and the buffer
it holds at the time of the call. -/
inductive Event where
  | text (message : Buf) (state : State) (buffer : Buf)
  | binary (message : Buf) (state : State) (buffer : Buf)
  | close (code : Nat) (reason : Buf)
  | error (code : Nat)
  | hangup
deriving DecidableEq, Repr

/-- What the user does to the link in a callback. -/
inductive Reaction where
  | keep
  | hangup
  | destroy
deriving DecidableEq, Repr

/-- `struct afb_ws_itf`: which callbacks are defined, and what the user does in
`on_hangup`, where `afb_ws_destroy` may be called. -/
structure AfbWsItf where
  onClose : Bool
  onText : Bool
  onBinary : Bool
  onError : Bool
  onHangup : Option Reaction
deriving DecidableEq, Repr

/-- What the allocator answers: the content and the address of the blocks. -/
structure Heap where
  garbage : Nat → UInt8
  place : Nat → Nat

/-- `struct afb_ws` with its socket and the callbacks made so far.  `destroyed` tells that
`afb_ws_destroy` has freed it. -/
structure AfbWs where
  state : State
  ws : Option Websock
  buffer : Buf
  rx : List Rx
  tx : List Tx
  sent : Bytes
  events : List Event
  destroyed : Bool
deriving DecidableEq, Repr

/-- `afb_ws_create` -/
def afbWsCreate (rx : List Rx) (tx : List Tx) : AfbWs where
  state := .waiting
  ws := some websockCreateV13
  buffer := Buf.null
  rx := rx
  tx := tx
  sent := []
  events := []
  destroyed := false

/-- The accesses that go wrong: to a destroyed websocket or link, through the pointer of a
link without websocket, through a buffer or a callback that is `NULL`. -/
inductive Fault where
  | useAfterFree
  | nullWebsock
  | nullBuffer
  | nullFunction
deriving DecidableEq, Repr

/-- How a function of the link ends.  It is blocked when it waits for bytes that never
arrive. -/
abbrev Outcome (α : Type) := Lib.Outcome Fault α

section Functions

variable (itf : AfbWsItf) (heap : Heap) (memory : Bool) (reaction : Reaction)

/-! ## Disconnecting -/

/-- `aws_disconnect` -/
def awsDisconnect (callOnHangup : Bool) (link : AfbWs) : AfbWs :=
  match link.ws with
  | none => link
  | some _ =>
      let link := { link with ws := none, buffer := Buf.null, state := .waiting }
      match callOnHangup, itf.onHangup with
      | true, some reaction =>
          -- nothing is left to disconnect: `afb_ws_destroy` only frees the link here
          { link with
            events := link.events ++ [.hangup]
            destroyed := link.destroyed || reaction = .destroy }
      | _, _ => link

/-- `afb_ws_hangup` -/
def afbWsHangup (link : AfbWs) : AfbWs := awsDisconnect itf true link

/-- `afb_ws_destroy` -/
def afbWsDestroy (link : AfbWs) : AfbWs := { awsDisconnect itf false link with destroyed := true }

/-- `afb_ws_hangup` where a callback may already have destroyed the link. -/
def afbWsHangupAfter (link : AfbWs) : Outcome AfbWs :=
  if link.destroyed then .fault .useAfterFree else .ok (afbWsHangup itf link)

/-- The call of a callback of the user. -/
def callback (event : Event) (link : AfbWs) : AfbWs :=
  let link := { link with events := link.events ++ [event] }
  match reaction with
  | .keep => link
  | .hangup => afbWsHangup itf link
  | .destroy => afbWsDestroy itf link

/-! ## Errors -/

/-- `aws_on_error` -/
def awsOnError (code : Nat) (link : AfbWs) : AfbWs :=
  if itf.onError then callback itf reaction (.error code) link else afbWsHangup itf link

/-- `websock_error` with no data. -/
def websockError (code : UInt16) (link : AfbWs) : Outcome AfbWs :=
  match link.ws with
  | none => .fault .nullWebsock
  | some _ =>
      let close := websockClose code [] link.tx
      .ok (awsOnError itf reaction code.toNat
        { link with tx := close.tx, sent := link.sent ++ close.out })

/-- `websock_drop` on the websocket of the link. -/
def dropFrame (link : AfbWs) : Outcome AfbWs :=
  match link.ws with
  | none => .fault .nullWebsock
  | some ws =>
      match websockDrop ws link.rx with
      | none => .blocked
      | some (ws, rx) => .ok { link with ws := some ws, rx := rx }

/-- `aws_drop_error` -/
def awsDropError (code : UInt16) (link : AfbWs) : Outcome AfbWs := do
  let link ← dropFrame { link with state := .waiting, buffer := Buf.null }
  websockError itf reaction code link

/-! ## Reading the payloads -/

/-- `realloc`: what the block held, then what the memory holds. -/
def Heap.realloc (block : Option Bytes) (size : Nat) : Bytes :=
  let old := block.getD []
  old.take size ++ (List.range (size - old.length)).map fun i => heap.garbage (old.length + i)

/-- The loop of `aws_read`, that polls on `EAGAIN`.  Each turn but the last one takes an
entry of the script. -/
def awsReadLoop : Nat → Nat → AfbWs → Outcome (Bool × AfbWs)
  | 0, _, _ => .blocked
  | fuel + 1, size, link =>
      match link.ws with
      | none => .fault .nullWebsock
      | some ws =>
          let block := link.buffer.buffer.getD []
          let address := heap.place block.length + link.buffer.size
          match websockRead ws address size link.rx with
          | (.error .EAGAIN, ws, rx) =>
              awsReadLoop fuel size { link with ws := some ws, rx := rx }
          | (.error _, ws, rx) => .ok (false, { link with ws := some ws, rx := rx })
          | (.bytes data, ws, rx) =>
              let buffer := ⟨some (copyAt block link.buffer.size data),
                link.buffer.size + data.length⟩
              let link := { link with ws := some ws, rx := rx, buffer := buffer }
              if size - data.length = 0 then .ok (true, link)
              else awsReadLoop fuel (size - data.length) link

/-- `aws_read` -/
def awsRead (size : Nat) (link : AfbWs) : Outcome (Bool × AfbWs) :=
  if size = 0 then .ok (true, link)
  else if !memory then .ok (false, link)
  else
    let block := heap.realloc link.buffer.buffer (link.buffer.size + size + 1)
    awsReadLoop heap (link.rx.length + 1) size
      { link with buffer := ⟨some block, link.buffer.size⟩ }

/-- `aws_continue`.  The zero after the message is written through the pointer picked. -/
def awsContinue (last : Bool) (size : Nat) (link : AfbWs) : Outcome AfbWs := do
  let (complete, link) ← awsRead heap memory size link
  if !complete then awsDropError itf reaction (.ofNat codeAbnormal) link
  else if last then
    let istxt := link.state = .readingText
    let b := link.buffer
    let link := { link with state := .waiting, buffer := Buf.null }
    match b.buffer with
    | none => .fault .nullBuffer
    | some block =>
        let message : Buf := ⟨some (copyAt block b.size [0]), b.size⟩
        if istxt then
          if itf.onText then
            .ok (callback itf reaction (.text message link.state link.buffer) link)
          else .fault .nullFunction
        else if itf.onBinary then
          .ok (callback itf reaction (.binary message link.state link.buffer) link)
        else .fault .nullFunction
  else .ok link

/-- `aws_on_text` and `aws_on_binary`, by the state in which they read and the callback. -/
def awsOnFirst (reading : State) (defined : Bool) (last : Bool) (size : Nat) (link : AfbWs) :
    Outcome AfbWs :=
  if link.state ≠ .waiting then awsDropError itf reaction (.ofNat codeProtocolError) link
  else if !defined then awsDropError itf reaction (.ofNat codeCantAccept) link
  else awsContinue itf heap memory reaction last size { link with state := reading }

def awsOnText : Bool → Nat → AfbWs → Outcome AfbWs :=
  awsOnFirst itf heap memory reaction .readingText itf.onText

def awsOnBinary : Bool → Nat → AfbWs → Outcome AfbWs :=
  awsOnFirst itf heap memory reaction .readingBinary itf.onBinary

/-- `aws_on_continue` -/
def awsOnContinue (last : Bool) (size : Nat) (link : AfbWs) : Outcome AfbWs :=
  if link.state = .waiting then awsDropError itf reaction (.ofNat codeProtocolError) link
  else awsContinue itf heap memory reaction last size link

/-- `aws_on_close` -/
def awsOnClose (code : Nat) (size : Nat) (link : AfbWs) : Outcome AfbWs :=
  let link := { link with state := .waiting, buffer := Buf.null }
  if !itf.onClose then do
    let link ← dropFrame link
    .ok (afbWsHangup itf link)
  else do
    let (complete, link) ← awsRead heap memory size link
    if !complete then .ok (callback itf reaction (.close code Buf.null) link)
    else
      .ok (callback itf reaction (.close code link.buffer) { link with buffer := Buf.null })

/-! ## The dispatch loop -/

/-- After a turn the loop goes on, or `websock_dispatch` returns. -/
inductive Next where
  | loop
  | back (result : Rc)
deriving DecidableEq, Repr

/-- The call of the interface for a frame whose heading fields are known. -/
def handleFrame (ws : Websock) (link : AfbWs) : Outcome (Next × AfbWs) :=
  match ws.opcode with
  | .continuation => do
      let link ← awsOnContinue itf heap memory reaction ws.fin ws.length link
      .ok (.loop, link)
  | .text => do
      let link ← awsOnText itf heap memory reaction ws.fin ws.length link
      .ok (.loop, link)
  | .binary => do
      let link ← awsOnBinary itf heap memory reaction ws.fin ws.length link
      .ok (.loop, link)
  | .close => do
      let link ← awsOnClose itf heap memory reaction (closeCode ws) ws.length link
      .ok (.back .ok, link)
  | .ping => do
      let link ← dropFrame link
      let pong := websockPong [] link.tx
      .ok (.loop, { link with
        ws := link.ws.map fun ws => { ws with state := .init }
        tx := pong.tx
        sent := link.sent ++ pong.out })
  | .pong => do
      let link ← dropFrame link
      .ok (.loop, { link with ws := link.ws.map fun ws => { ws with state := .init } })
  | .reserved _ => do
      let link ← websockError itf reaction (.ofNat codeProtocolError) link
      .ok (.back .ok, link)

/-- One turn of the loop of `websock_dispatch`. -/
def dispatchTurn (link : AfbWs) : Outcome (Next × AfbWs) :=
  match link.ws with
  | none => .fault .useAfterFree
  | some ws =>
      match websockTurn ws link.rx with
      | (.back result, ws, rx) => .ok (.back result, { link with ws := some ws, rx := rx })
      | (.loop, ws, rx) => .ok (.loop, { link with ws := some ws, rx := rx })
      | (.tooLongError, ws, rx) => do
          let link ← websockError itf reaction (.ofNat codeMessageTooLarge)
            { link with ws := some ws, rx := rx }
          .ok (.back .ok, link)
      | (.protocolError, ws, rx) => do
          let link ← websockError itf reaction (.ofNat codeProtocolError)
            { link with ws := some ws, rx := rx }
          .ok (.back .ok, link)
      | (.frame, ws, rx) => handleFrame itf heap memory reaction ws { link with ws := some ws, rx := rx }

end Functions

section Readable

variable (itf : AfbWsItf) (heap : Heap)

/-- The loop of `websock_dispatch`, for a number of turns, callbacks that leave the link as
it is, and memory found. -/
def dispatchLoop : Nat → AfbWs → Outcome (Rc × AfbWs)
  | 0, _ => .blocked
  | turns + 1, link => do
      let (next, link) ← dispatchTurn itf heap true .keep link
      match next with
      | .loop => dispatchLoop turns link
      | .back result => .ok (result, link)

/-- More turns than the loop can make: at most three for each byte that arrives, and two. -/
def enoughTurns (link : AfbWs) : Nat := 3 * (arriving link.rx).length + 3

/-- `aws_on_readable` -/
def awsOnReadable (link : AfbWs) : Outcome AfbWs :=
  match link.ws with
  | none => .fault .nullWebsock
  | some _ => do
      let (result, link) ← dispatchLoop itf heap (enoughTurns link) link
      if result = .error .EPIPE then afbWsHangupAfter itf link else .ok link

end Readable

end AfbBinder.Ws
