import AfbBinder.Ws.Send

/-!
# Messages and their fragments

What the frames of a stream stand for: messages are posted whole by a link, or cut into
frames by any peer, and a receiver that takes the frames one after the other assembles
them again.  The receiver here is the one of RFC 6455, without buffers nor bytes on the
wire.
-/

namespace AfbBinder.Ws

open Lib

/-! ## Posting -/

structure Message where
  istxt : Bool
  payload : Bytes
  nonempty : payload ≠ []

def Message.opcode (message : Message) : Opcode := if message.istxt then .text else .binary

/-- A fragment of a message, masked or not. -/
structure Piece where
  key : Option Mask
  payload : Bytes
  small : payload.length ≤ 65000

/-- The frames of the fragments: only the first has the opcode of the message, only the
last has the bit FIN. -/
def fragments (opcode : Opcode) (piece : Piece) : List Piece → List Frame
  | [] => [⟨true, opcode, piece.key, piece.payload⟩]
  | next :: rest =>
      ⟨false, opcode, piece.key, piece.payload⟩ :: fragments .continuation next rest

def payloads (pieces : List Piece) : Bytes := (pieces.map Piece.payload).flatten

/-- A way to put a message on the wire. -/
inductive Posting (message : Message) where
  | whole (iovec : List Bytes) (count : iovec.length ≤ 31)
      (payload : iovec.flatten = message.payload) (small : message.payload.length ≤ 65000)
  | fragmented (first : Piece) (rest : List Piece)
      (payload : payloads (first :: rest) = message.payload)

def wires (frames : List Frame) : Bytes := (frames.map Frame.wire).flatten

/-- The send of a whole message. -/
def Message.send (message : Message) (iovec : List Bytes) : Send :=
  if message.istxt then .text iovec else .binary iovec

/-- The bytes of a posting.  A whole message is what a link writes when its socket takes
everything. -/
def Posting.wire {message : Message} : Posting message → Bytes
  | .whole iovec _ _ _ => (afbWsSend (message.send iovec) (afbWsCreate [] [])).2.sent
  | .fragmented first rest _ => wires (fragments message.opcode first rest)

/-- The frames of a posting. -/
def Posting.frames {message : Message} : Posting message → List Frame
  | .whole _ _ _ small => fragments message.opcode ⟨none, message.payload, small⟩ []
  | .fragmented first rest _ => fragments message.opcode first rest

structure Posted where
  message : Message
  posting : Posting message

theorem Posting.wire_eq {message : Message} (posting : Posting message) :
    posting.wire = wires posting.frames := by
  cases posting with
  | fragmented first rest payload => rfl
  | whole iovec count payload small =>
      have haccepted : ¬ (message.send iovec).Refused := by
        cases htxt : message.istxt <;> simpa [Message.send, htxt, Send.Refused] using count
      have hframe : (message.send iovec).frame =
          Frame.wire ⟨true, message.opcode, none, message.payload⟩ := by
        cases htxt : message.istxt <;>
          simp [Message.send, Message.opcode, htxt, Send.frame, Send.toFrame, payload]
      have hwrite : (message.send iovec).websock [] =
          ⟨.ok, Frame.wire ⟨true, message.opcode, none, message.payload⟩, []⟩ := by
        rw [Send.websock_eq haccepted, hframe]
        rfl
      simp [Posting.wire, afbWsSend, afbWsCreate, hwrite, Posting.frames, fragments, wires]

/-! ## Assembling -/

/-- The receiver: its state, what it has of the current message, the kinds and the
payloads of the messages delivered. -/
structure Assembly where
  state : State
  done : Bytes
  delivered : List (Bool × Bytes)

namespace Assembly

def start : Assembly := ⟨.waiting, [], []⟩

/-- The state in which the payload of a frame is read. -/
def opened (a : Assembly) : Opcode → State
  | .text => .readingText
  | .binary => .readingBinary
  | _ => a.state

def take (a : Assembly) (frame : Frame) : Assembly :=
  let state := a.opened frame.opcode
  let done := a.done ++ frame.payload
  if frame.fin then ⟨.waiting, [], a.delivered ++ [(decide (state = .readingText), done)]⟩
  else ⟨state, done, a.delivered⟩

/-- Messages start when the receiver waits, and continue when it does not. -/
def Expects (a : Assembly) : Opcode → Prop
  | .text => a.state = .waiting
  | .binary => a.state = .waiting
  | .continuation => a.state ≠ .waiting
  | _ => False

/-- The receiver can take the frame, and delivers no empty message. -/
structure Accepts (a : Assembly) (frame : Frame) : Prop where
  expects : a.Expects frame.opcode
  small : frame.payload.length ≤ 65000
  filled : frame.fin = true → a.done ++ frame.payload ≠ []

/-- It accepts each frame in turn. -/
def AcceptsAll : Assembly → List Frame → Prop
  | _, [] => True
  | a, frame :: rest => a.Accepts frame ∧ (a.take frame).AcceptsAll rest

theorem opened_ne_waiting {a : Assembly} {opcode : Opcode} (h : a.Expects opcode) :
    a.opened opcode ≠ .waiting := by
  cases opcode <;> simp_all [Expects, opened]

theorem acceptsAll_append {a : Assembly} {front back : List Frame} (h : a.AcceptsAll front)
    (hback : (front.foldl take a).AcceptsAll back) : a.AcceptsAll (front ++ back) := by
  induction front generalizing a with
  | nil => exact hback
  | cons frame rest ih => exact ⟨h.1, ih h.2 hback⟩

theorem delivered_grows (a : Assembly) (frames : List Frame) :
    a.delivered <+: (frames.foldl take a).delivered := by
  induction frames generalizing a with
  | nil => exact List.prefix_rfl
  | cons frame rest ih =>
      refine List.IsPrefix.trans ?_ (ih (a.take frame))
      unfold take
      dsimp only
      split
      · exact List.prefix_append _ _
      · exact List.prefix_rfl

/-- The fragments of a message are accepted and make one message. -/
theorem take_fragments {a : Assembly} {opcode : Opcode} (h : a.Expects opcode) (piece : Piece)
    (rest : List Piece) (hfilled : a.done ++ payloads (piece :: rest) ≠ []) :
    a.AcceptsAll (fragments opcode piece rest) ∧
      (fragments opcode piece rest).foldl take a =
        ⟨.waiting, [], a.delivered ++
          [(decide (a.opened opcode = .readingText), a.done ++ payloads (piece :: rest))]⟩ := by
  induction rest generalizing a opcode piece with
  | nil =>
      have hone : payloads [piece] = piece.payload := by simp [payloads]
      rw [hone] at hfilled ⊢
      exact ⟨⟨⟨h, piece.small, fun _ => hfilled⟩, trivial⟩, rfl⟩
  | cons next rest ih =>
      have hsplit : payloads (piece :: next :: rest) =
          piece.payload ++ payloads (next :: rest) := by simp [payloads]
      -- the first fragment opens the message, or continues it
      have hcont : Expects (a.take ⟨false, opcode, piece.key, piece.payload⟩) .continuation :=
        opened_ne_waiting h
      have hdone : (a.take ⟨false, opcode, piece.key, piece.payload⟩).done ++
          payloads (next :: rest) = a.done ++ payloads (piece :: next :: rest) := by
        rw [hsplit, ← List.append_assoc]
        rfl
      obtain ⟨haccepts, hfold⟩ := ih hcont next (hdone ▸ hfilled)
      refine ⟨⟨⟨h, piece.small, fun hfin => by cases hfin⟩, haccepts⟩, ?_⟩
      rw [fragments, List.foldl_cons, hfold, hdone]
      rfl

theorem take_posting {a : Assembly} (hwaiting : a.state = .waiting) (hdone : a.done = [])
    {message : Message} (posting : Posting message) :
    a.AcceptsAll posting.frames ∧
      posting.frames.foldl take a =
        ⟨.waiting, [], a.delivered ++ [(message.istxt, message.payload)]⟩ := by
  have hexpects : a.Expects message.opcode := by
    cases htxt : message.istxt <;> simpa [Message.opcode, htxt, Expects] using hwaiting
  have hkind : decide (a.opened message.opcode = .readingText) = message.istxt := by
    cases htxt : message.istxt <;> simp [Message.opcode, htxt, opened]
  cases posting with
  | whole iovec count payload small =>
      have hone : payloads [⟨none, message.payload, small⟩] = message.payload := by simp [payloads]
      have htake := take_fragments hexpects ⟨none, message.payload, small⟩ []
        (by simpa [hdone, hone] using message.nonempty)
      rwa [hkind, hdone, hone, List.nil_append] at htake
  | fragmented first rest payload =>
      have htake := take_fragments hexpects first rest
        (by simpa [hdone, payload] using message.nonempty)
      rwa [hkind, hdone, payload, List.nil_append] at htake

/-- The frames of posted messages are accepted, and make the messages. -/
theorem take_posted {a : Assembly} (hwaiting : a.state = .waiting) (hdone : a.done = [])
    (posted : List Posted) :
    a.AcceptsAll (posted.flatMap fun p => p.posting.frames) ∧
      (posted.flatMap fun p => p.posting.frames).foldl take a =
        ⟨.waiting, [],
          a.delivered ++ posted.map fun p => (p.message.istxt, p.message.payload)⟩ := by
  induction posted generalizing a with
  | nil =>
      refine ⟨trivial, ?_⟩
      cases a
      simp_all
  | cons p rest ih =>
      obtain ⟨haccepts, hfold⟩ := take_posting hwaiting hdone p.posting
      obtain ⟨hrest, hall⟩ := ih (a := p.posting.frames.foldl take a) (by rw [hfold]) (by rw [hfold])
      rw [List.flatMap_cons]
      refine ⟨acceptsAll_append haccepts hrest, ?_⟩
      rw [List.foldl_append, hall, hfold]
      simp

end Assembly

end AfbBinder.Ws
