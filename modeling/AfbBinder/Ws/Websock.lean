import AfbBinder.Ws.Transport

/-!
# The websocket protocol layer

The functions of `websock.c`.  `websock_dispatch` is cut where it calls its interface:
`websockTurn` is one turn of its loop up to that call, and says what comes next.
The interface is that of `afb-ws.c`, which has no `on_ping`, `on_pong` or
`on_extension`.
-/

namespace AfbBinder.Ws

open Lib

/-! ## Frames -/

inductive Opcode where
  | continuation
  | text
  | binary
  | close
  | ping
  | pong
  | reserved (code : Nat)
deriving DecidableEq, Repr

def Opcode.code : Opcode → Nat
  | .continuation => 0
  | .text => 1
  | .binary => 2
  | .close => 8
  | .ping => 9
  | .pong => 10
  | .reserved code => code

def frameGetFin (byte : UInt8) : Bool := byte.toNat / 128 % 2 = 1
def frameGetRsv1 (byte : UInt8) : Bool := byte.toNat / 64 % 2 = 1
def frameGetRsv2 (byte : UInt8) : Bool := byte.toNat / 32 % 2 = 1
def frameGetRsv3 (byte : UInt8) : Bool := byte.toNat / 16 % 2 = 1
def frameGetMask (byte : UInt8) : Bool := byte.toNat / 128 % 2 = 1
def frameGetPayloadLen (byte : UInt8) : Nat := byte.toNat % 128

def frameGetOpcode (byte : UInt8) : Opcode :=
  match byte.toNat % 16 with
  | 0 => .continuation
  | 1 => .text
  | 2 => .binary
  | 8 => .close
  | 9 => .ping
  | 10 => .pong
  | code => .reserved code

/-- `FRAME_SET_LENGTH` -/
def frameSetLength (x : Nat) (idx : Nat) : UInt8 := UInt8.ofNat (x / 256 ^ idx)

/-- The first byte of a frame, the reserved bits being clear. -/
def frameFirst (last : Bool) (opcode : Opcode) : UInt8 :=
  UInt8.ofNat ((if last then 128 else 0) + opcode.code % 16)

def codeProtocolError : Nat := 1002
def codeCantAccept : Nat := 1003
def codeNotSet : Nat := 1005
def codeAbnormal : Nat := 1006
def codeMessageTooLarge : Nat := 1009

/-! ## Masks -/

/-- The mask as its bytes in memory. -/
structure Mask where
  m0 : UInt8
  m1 : UInt8
  m2 : UInt8
  m3 : UInt8
deriving DecidableEq, Repr

def Mask.zero : Mask := ⟨0, 0, 0, 0⟩

def Mask.rotate (mask : Mask) : Mask := ⟨mask.m1, mask.m2, mask.m3, mask.m0⟩

/-- The byte loops of `unmask`. -/
def unmaskBytes : Mask → Bytes → Mask × Bytes
  | mask, [] => (mask, [])
  | mask, b :: rest =>
      let (mask', rest') := unmaskBytes mask.rotate rest
      (mask', (b ^^^ mask.m0) :: rest')

/-- The loop of `unmask` on whole words; gives them and the bytes left. -/
def unmaskWords (mask : Mask) : Bytes → Bytes × Bytes
  | b0 :: b1 :: b2 :: b3 :: rest =>
      let (words, left) := unmaskWords mask rest
      ((b0 ^^^ mask.m0) :: (b1 ^^^ mask.m1) :: (b2 ^^^ mask.m2) :: (b3 ^^^ mask.m3) :: words, left)
  | left => ([], left)

/-- `unmask` of the bytes at the address: up to an aligned address, then by words, then
what is left. -/
def unmask (address : Nat) (mask : Mask) (buffer : Bytes) : Mask × Bytes :=
  let unaligned := (4 - address % 4) % 4
  let (mask, head) := unmaskBytes mask (buffer.take unaligned)
  let (words, left) := unmaskWords mask (buffer.drop unaligned)
  let (mask, tail) := unmaskBytes mask left
  (mask, head ++ words ++ tail)

/-! ## The websocket -/

/-- `STATE_INIT`, `STATE_START`, `STATE_LENGTH` and `STATE_DATA`. -/
inductive Phase where
  | init
  | start
  | length
  | data
deriving DecidableEq, Repr

/-- `struct websock` -/
structure Websock where
  state : Phase
  maxlength : Nat
  lenhead : Nat
  szhead : Nat
  length : Nat
  mask : Mask
  header : Bytes
deriving DecidableEq, Repr

/-- `websock_create_v13` -/
def websockCreateV13 : Websock where
  state := .init
  maxlength := 65000
  lenhead := 0
  szhead := 0
  length := 0
  mask := Mask.zero
  header := List.replicate 14 0

def Websock.byte (ws : Websock) (i : Nat) : UInt8 := ws.header.getD i 0

def Websock.opcode (ws : Websock) : Opcode := frameGetOpcode (ws.byte 0)

def Websock.fin (ws : Websock) : Bool := frameGetFin (ws.byte 0)

/-! ## Sending -/

/-- The result of a send: what it returns, the bytes taken by the socket and the rest
of the script. -/
structure Sent where
  result : Rc
  out : Bytes
  tx : List Tx

/-- The header made by `websock_send_internal_v`. -/
def frameHeader (first : UInt8) (size : Nat) : Bytes :=
  if size < 126 then [first, frameSetLength size 0]
  else if size < 65536 then [first, 126, frameSetLength size 1, frameSetLength size 0]
  else
    [first, 127, frameSetLength size 7, frameSetLength size 6, frameSetLength size 5,
      frameSetLength size 4, frameSetLength size 3, frameSetLength size 2, frameSetLength size 1,
      frameSetLength size 0]

/-- `websock_send_internal_v`.  The vectors follow one another on the wire, so the empty
ones it leaves out make no difference. -/
def websockSendInternalV (first : UInt8) (iovec : List Bytes) (tx : List Tx) : Sent :=
  if iovec.length + 1 > 32 then ⟨.error .EINVAL, [], tx⟩
  else
    let payload := iovec.flatten
    match awsWritev (frameHeader first payload.length ++ payload) tx with
    | (.error errno, tx) => ⟨.error errno, [], tx⟩
    | (.bytes taken, tx) => ⟨.ok, taken, tx⟩

/-- `websock_send_v` with the reserved bits clear. -/
def websockSendV (last : Bool) (opcode : Opcode) (iovec : List Bytes) (tx : List Tx) : Sent :=
  websockSendInternalV (frameFirst last opcode) iovec tx

/-- `websock_send` with the reserved bits clear. -/
def websockSend (last : Bool) (opcode : Opcode) (buffer : Bytes) (tx : List Tx) : Sent :=
  websockSendInternalV (frameFirst last opcode) [buffer] tx

/-- `websock_close` -/
def websockClose (code : UInt16) (data : Bytes) (tx : List Tx) : Sent :=
  if code.toNat = codeNotSet ∧ data.length = 0 then websockSend true .close [] tx
  else if data.length > 123 then ⟨.error .EINVAL, [], tx⟩
  else websockSendV true .close [[frameSetLength code.toNat 1, frameSetLength code.toNat 0], data] tx

/-- `websock_ping` and `websock_pong` -/
def websockControl (opcode : Opcode) (data : Bytes) (tx : List Tx) : Sent :=
  if data.length > 125 then ⟨.error .EINVAL, [], tx⟩
  else websockSend true opcode data tx

def websockPing : Bytes → List Tx → Sent := websockControl .ping

def websockPong : Bytes → List Tx → Sent := websockControl .pong

/-! ## Reading -/

/-- `websock_read` to the address. -/
def websockRead (ws : Websock) (address size : Nat) (rx : List Rx) :
    Received × Websock × List Rx :=
  if ws.state ≠ .data then (.bytes [], ws, rx)
  else
    match awsReadv (min size ws.length) rx with
    | (.error errno, rx) => (.error errno, ws, rx)
    | (.bytes data, rx) =>
        let ws := { ws with length := ws.length - data.length }
        if ws.mask = Mask.zero then (.bytes data, ws, rx)
        else
          let (mask, plain) := unmask address ws.mask data
          (.bytes plain, { ws with mask := mask }, rx)

/-- The loop of `websock_drop`.  Each turn reads a byte at least, so that `ws.length`
turns are enough in the state `data`; in another state the loop never ends. -/
def websockDropLoop : Nat → Websock → List Rx → Option (Websock × List Rx)
  | 0, ws, rx => if ws.length = 0 then some (ws, rx) else none
  | fuel + 1, ws, rx =>
      if ws.length = 0 then some (ws, rx)
      else
        match websockRead ws 0 8000 rx with
        | (.error _, ws, rx) => some (ws, rx)
        | (.bytes _, ws, rx) => websockDropLoop fuel ws rx

/-- `websock_drop`; `none` when it does not return. -/
def websockDrop (ws : Websock) (rx : List Rx) : Option (Websock × List Rx) :=
  websockDropLoop ws.length ws rx

/-! ## One turn of the dispatch loop -/

/-- What follows the part of a turn that reads the header. -/
inductive Turn where
  /-- `return 0` or `return -1` -/
  | back (result : Rc)
  /-- `goto loop` -/
  | loop
  | tooLongError
  | protocolError
  /-- All heading fields are known. -/
  | frame
deriving DecidableEq

/-- `read_header` -/
def readHeader (ws : Websock) (rx : List Rx) : Rc × Websock × List Rx :=
  if ws.lenhead < ws.szhead then
    match awsReadv (ws.szhead - ws.lenhead) rx with
    | (.error errno, rx) => (.error errno, ws, rx)
    | (.bytes data, rx) =>
        (.ok, { ws with
          header := copyAt ws.header ws.lenhead data
          lenhead := ws.lenhead + data.length }, rx)
  else (.ok, ws, rx)

/-- `check_control_header` -/
def checkControlHeader (ws : Websock) : Bool :=
  if frameGetRsv1 (ws.byte 0) then false
  else if frameGetRsv2 (ws.byte 0) then false
  else if frameGetRsv3 (ws.byte 0) then false
  else if frameGetPayloadLen (ws.byte 1) > 125 then false
  else if ws.opcode = .close then frameGetPayloadLen (ws.byte 1) ≠ 1
  else true

/-- The fast track: refuses bad control frames, and makes room for the code of a close. -/
def fastTrack (ws : Websock) : Option Websock :=
  match ws.opcode with
  | .close =>
      if !checkControlHeader ws then none
      else if frameGetPayloadLen (ws.byte 1) ≠ 0 then some { ws with szhead := ws.szhead + 2 }
      else some ws
  | .ping => if !checkControlHeader ws then none else some ws
  | .pong => if !checkControlHeader ws then none else some ws
  | _ => some ws

/-- How many bytes follow the two first ones for the length and the mask. -/
def headingSize (second : UInt8) : Nat :=
  (if frameGetPayloadLen second = 127 then 8
    else if frameGetPayloadLen second = 126 then 2
    else 0) + if frameGetMask second then 4 else 0

/-- The big-endian number in the header from `pos`. -/
def Websock.number (ws : Websock) (pos count : Nat) : Nat :=
  (List.range count).foldl (fun acc i => acc * 256 + (ws.byte (pos + i)).toNat) 0

/-- The length of the payload. -/
def headerLength (ws : Websock) : Nat :=
  let length :=
    if frameGetPayloadLen (ws.byte 1) = 127 then ws.number 2 8
    else if frameGetPayloadLen (ws.byte 1) = 126 then ws.number 2 2
    else frameGetPayloadLen (ws.byte 1)
  if ws.opcode = .close ∧ length ≠ 0 then (length + 2 ^ 64 - 2) % 2 ^ 64 else length

/-- The mask, from the four last bytes of the header. -/
def headerMask (ws : Websock) : Mask :=
  if frameGetMask (ws.byte 1) then
    ⟨ws.byte (ws.szhead - 4), ws.byte (ws.szhead - 3), ws.byte (ws.szhead - 2),
      ws.byte (ws.szhead - 1)⟩
  else Mask.zero

/-- From `case STATE_LENGTH`. -/
def turnLength (ws : Websock) (rx : List Rx) : Turn × Websock × List Rx :=
  match readHeader ws rx with
  | (.error errno, ws, rx) => (.back (.error errno), ws, rx)
  | (.ok, ws, rx) =>
      if ws.lenhead < ws.szhead then (.back .ok, ws, rx)
      else
        let ws := { ws with length := headerLength ws }
        if ws.length > ws.maxlength then (.tooLongError, ws, rx)
        else
          let ws := { ws with mask := headerMask ws, state := .data }
          if frameGetRsv1 (ws.byte 0) then (.protocolError, ws, rx)
          else if frameGetRsv2 (ws.byte 0) then (.protocolError, ws, rx)
          else if frameGetRsv3 (ws.byte 0) then (.protocolError, ws, rx)
          else (.frame, ws, rx)

/-- From `case STATE_START`. -/
def turnStart (ws : Websock) (rx : List Rx) : Turn × Websock × List Rx :=
  match readHeader ws rx with
  | (.error errno, ws, rx) => (.back (.error errno), ws, rx)
  | (.ok, ws, rx) =>
      if ws.lenhead < ws.szhead then (.back .ok, ws, rx)
      else
        match fastTrack ws with
        | none => (.protocolError, ws, rx)
        | some ws =>
            turnLength { ws with
              szhead := ws.szhead + headingSize (ws.byte 1)
              state := .length } rx

/-- One turn of `websock_dispatch`, up to the call of the interface. -/
def websockTurn (ws : Websock) (rx : List Rx) : Turn × Websock × List Rx :=
  match ws.state with
  | .init => turnStart { ws with lenhead := 0, szhead := 2, state := .start } rx
  | .start => turnStart ws rx
  | .length => turnLength ws rx
  | .data =>
      if ws.length ≠ 0 then (.back .ok, ws, rx)
      else (.loop, { ws with state := .init }, rx)

/-- The status code of a close frame, from the two last bytes of the header. -/
def closeCode (ws : Websock) : Nat :=
  if ws.length = 0 then codeNotSet
  else (ws.byte (ws.szhead - 2)).toNat * 256 + (ws.byte (ws.szhead - 1)).toNat

end AfbBinder.Ws
