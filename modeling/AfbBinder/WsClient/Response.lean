import AfbBinder.WsClient.Lines

/-!
# The answer to the handshake

`receive_response` of the websocket client: it reads the status line and the header lines,
checks some of the headers as they come, and skips the body.
-/

namespace AfbBinder.WsClient

open Lib

/-! ## Scanning a line -/

def ascii (text : String) : Bytes := text.toList.map fun c => UInt8.ofNat c.toNat

/-- `strcspn` -/
def strcspn (text reject : Bytes) : Nat := (text.takeWhile (· ∉ reject)).length

/-- `strspn` -/
def strspn (text accept : Bytes) : Nat := (text.takeWhile (· ∈ accept)).length

def isspace (c : UInt8) : Bool := c = 32 || (9 ≤ c && c ≤ 13)

def isdigit (c : UInt8) : Bool := 48 ≤ c && c ≤ 57

/-- The number that the digits at the start of the text write, after others. -/
def digits (value : Nat) : Bytes → Nat
  | [] => value
  | c :: text => if isdigit c then digits (10 * value + (c.toNat - 48)) text else value

def longMax : Nat := 9223372036854775807

/-- `atol`, which stops at the bounds of a long. -/
def atol (text : Bytes) : Int :=
  match text.dropWhile isspace with
  | [] => 0
  | c :: text =>
      if c = 45 then -(min (digits 0 text) (longMax + 1) : Nat)
      else if c = 43 then (min (digits 0 text) longMax : Nat)
      else (min (digits 0 (c :: text)) longMax : Nat)

/-- `isheader` -/
def isheader (head : Bytes) (klen : Nat) (key : Bytes) : Bool :=
  strncaseeq klen head key && key.getD klen 0 = 0

/-- The test of the status line, which is to be like `HTTP/1.1 101 Switching Protocols`. -/
def acceptsStatus (line : Bytes) : Bool :=
  let len := strcspn line (ascii " ")
  if len ≠ 8 ∨ line.take 8 ≠ ascii "HTTP/1.1" then false
  else
    let it := line.drop len
    let len := strspn it (ascii " ")
    if len = 0 then false
    else
      let it := it.drop len
      let len := strcspn it (ascii " ")
      len = 3 && it.take 3 = ascii "101"

/-- The variables of `receive_response` that the headers set. -/
structure Scan where
  result : Int
  haserr : Bool
  clen : Nat
  len : Nat
deriving DecidableEq, Repr

/-- Where the value of the header starts, and where it is cut. -/
def valueStart (line : Bytes) (len : Nat) : Nat :=
  len + 1 + strspn (line.drop (len + 1)) (ascii " ,")

def valueEnd (line : Bytes) (len : Nat) : Nat :=
  valueStart line len + strcspn (line.drop (valueStart line len)) (ascii " ,")

/-- `len != 0 && line[len] == ':'` -/
def isField (line : Bytes) : Bool :=
  strcspn line (ascii ": ") ≠ 0 && line.getD (strcspn line (ascii ": ")) 0 = 58

/-- The checks of one header line.  The last header of the protocols wins. -/
def scanHeader (protocols : List Bytes) (ack : Bytes) (s : Scan) (line : Bytes) : Scan :=
  let len := strcspn line (ascii ": ")
  let s := { s with len := len }
  if isField line then
    let it := (line.take (valueEnd line len)).drop (valueStart line len)
    if isheader line len (ascii "Sec-WebSocket-Accept") then
      if it ≠ ack then { s with haserr := true } else s
    else if isheader line len (ascii "Sec-WebSocket-Protocol") then
      { s with result := (protocols.findIdx (it = ·) : Nat) }
    else if isheader line len (ascii "Upgrade") then
      if it ≠ ascii "websocket" then { s with haserr := true } else s
    else if isheader line len (ascii "Content-Length") then
      { s with clen := (atol it % (2 ^ 64 : Nat)).toNat }
    else s
  else s

/-- `it[strcspn(it, " ,")] = 0` -/
def cutValue (line : Bytes) : Bytes :=
  let text := cstring line
  if isField text then line.set (valueEnd text (strcspn text (ascii ": "))) 0 else line

theorem count_set_nul (line : Bytes) (i : Nat) : (line.set i 0).count 13 ≤ line.count 13 := by
  induction line generalizing i with
  | nil => exact Nat.le_refl _
  | cons c line ih =>
      cases i with
      | zero =>
          have hnul : (0 :: line : Bytes).count 13 = line.count 13 := rfl
          rw [List.set_cons_zero, hnul, List.count_cons]
          exact Nat.le_add_right _ _
      | succ i =>
          rw [List.set_cons_succ, List.count_cons, List.count_cons]
          exact Nat.add_le_add_right (ih i) _

theorem count_cutValue (line : Bytes) : (cutValue line).count 13 ≤ line.count 13 := by
  unfold cutValue
  dsimp only
  split
  · exact count_set_nul line _
  · exact Nat.le_refl _

/-! ## The response -/

/-- The loop over the header lines, until an empty one. -/
def receiveHeaders (protocols : List Bytes) (ack : Bytes) (s : Scan) (line : Bytes)
    (script : List Arrival) : Option Scan × List Arrival :=
  match hreceived : receiveLine line script with
  | (none, _, rest) => (none, rest)
  | (some 0, _, rest) => (some s, rest)
  | (some (_ + 1), line', rest) =>
      have := receiveLine_measure hreceived
      receiveHeaders protocols ack (scanHeader protocols ack s (cstring line')) (cutValue line') rest
termination_by (arriving script).length + line.count 13
decreasing_by
  have hcut := count_cutValue line'
  omega

def lineSize : Nat := 4096

/-- The loop that skips the body.  What the reads return is not looked at, and the last one
is given the length `len` of the last header name for its size. -/
def skipBody (len clen : Nat) (script : List Arrival) : List Arrival :=
  if lineSize ≤ clen then skipBody len (clen - lineSize) (read lineSize script).2
  else if 0 < clen then (read len script).2
  else script
termination_by clen
decreasing_by
  have hpos : 0 < lineSize := by decide
  omega

/-- `char line[4096]`, whatever it holds at first. -/
structure LineBuffer where
  bytes : Bytes
  size : bytes.length = lineSize

/-- `receive_response`; the length that the status line leaves is 3. -/
def receiveResponse (protocols : List Bytes) (ack : Bytes) (line : LineBuffer)
    (script : List Arrival) : Int × List Arrival :=
  match receiveLine line.bytes script with
  | (none, _, rest) => (-1, rest)
  | (some _, line', rest) =>
      if !acceptsStatus (cstring line') then (-1, rest)
      else
        match receiveHeaders protocols ack ⟨-1, false, 0, 3⟩ line' rest with
        | (none, rest) => (-1, rest)
        | (some s, rest) =>
            let rest := skipBody s.len s.clen rest
            if s.haserr ∨ s.result < 0 then (-1, rest) else (s.result, rest)

end AfbBinder.WsClient
