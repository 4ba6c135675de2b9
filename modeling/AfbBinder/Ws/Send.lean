import AfbBinder.Ws.Frame
import AfbBinder.Ws.Link

/-!
# Sending on a link

A send succeeds when its `writev` does, whatever count the socket gave.  So the
stream that leaves the link is intact exactly when no send of the sequence succeeds
on a short count.
-/

namespace AfbBinder.Ws

open Lib

/-! ## The sends of a link -/

/-- `websock_ping` and `websock_pong` are called on the websocket of the link. -/
inductive Send where
  | text (iovec : List Bytes)
  | binary (iovec : List Bytes)
  | ping (data : Bytes)
  | pong (data : Bytes)
  | close (code : UInt16) (reason : Bytes)

def Send.websock : Send → List Tx → Sent
  | .text iovec => websockSendV true .text iovec
  | .binary iovec => websockSendV true .binary iovec
  | .ping data => websockPing data
  | .pong data => websockPong data
  | .close code reason => websockClose code reason

/-- `afb_ws_text_v`, `afb_ws_binary_v`, `afb_ws_close` and the like. -/
def afbWsSend (send : Send) (link : AfbWs) : Rc × AfbWs :=
  match link.ws with
  | none => (.error .EPIPE, link)
  | some _ =>
      let sent := send.websock link.tx
      (sent.result, { link with tx := sent.tx, sent := link.sent ++ sent.out })

/-- The sends of a sequence, with what each returned. -/
def sendAll : List Send → AfbWs → List Rc × AfbWs
  | [], link => ([], link)
  | send :: rest, link =>
      let (result, link) := afbWsSend send link
      let (results, link) := sendAll rest link
      (result :: results, link)

/-! ## The frames -/

/-- The frame that a send stands for. -/
def Send.toFrame : Send → Frame
  | .text iovec => ⟨true, .text, none, iovec.flatten⟩
  | .binary iovec => ⟨true, .binary, none, iovec.flatten⟩
  | .ping data => ⟨true, .ping, none, data⟩
  | .pong data => ⟨true, .pong, none, data⟩
  | .close code reason =>
      if code.toNat = codeNotSet ∧ reason = [] then ⟨true, .close, none, []⟩
      else ⟨true, .close, none, bigEndian 2 code.toNat ++ reason⟩

def Send.frame (send : Send) : Bytes := send.toFrame.wire

/-- The arguments are refused. -/
def Send.Refused : Send → Prop
  | .text iovec => 31 < iovec.length
  | .binary iovec => 31 < iovec.length
  | .ping data => 125 < data.length
  | .pong data => 125 < data.length
  | .close _ reason => 123 < reason.length

/-- The answers of the socket that end a `writev`. -/
def answers (tx : List Tx) : List Tx :=
  tx.filter fun
    | .room _ => true
    | .fail _ => true
    | _ => false

/-- What one answer makes of a frame. -/
def answered (frame : Bytes) : Tx → Received
  | .room more => .bytes (frame.take (more + 1))
  | .fail code => .error (.other code)
  | _ => .bytes frame

def Tx.Whole (frame : Bytes) : Tx → Prop
  | .room more => frame.length ≤ more + 1
  | _ => False

instance (frame : Bytes) : (answer : Tx) → Decidable (answer.Whole frame)
  | .room more => inferInstanceAs (Decidable (frame.length ≤ more + 1))
  | .again => inferInstanceAs (Decidable False)
  | .intr => inferInstanceAs (Decidable False)
  | .fail _ => inferInstanceAs (Decidable False)

theorem awsWritev_answers (data : Bytes) (tx : List Tx) :
    (answers tx = [] ∧ ∃ rest, awsWritev data tx = (.bytes data, rest) ∧ answers rest = []) ∨
      ∃ answer left rest, answers tx = answer :: left ∧
        awsWritev data tx = (answered data answer, rest) ∧ answers rest = left := by
  induction tx with
  | nil => exact Or.inl ⟨rfl, [], rfl, rfl⟩
  | cons entry tx ih =>
      cases entry with
      | room more => exact Or.inr ⟨.room more, answers tx, tx, rfl, rfl, rfl⟩
      | fail code => exact Or.inr ⟨.fail code, answers tx, tx, rfl, rfl, rfl⟩
      | again => exact ih
      | intr => exact ih

/-- The result of a send that handed the bytes to the socket. -/
def handed (data : Bytes) (tx : List Tx) : Sent :=
  match awsWritev data tx with
  | (.error errno, tx) => ⟨.error errno, [], tx⟩
  | (.bytes taken, tx) => ⟨.ok, taken, tx⟩

theorem websockSendV_eq (opcode : Opcode) {iovec : List Bytes} (h : ¬ 31 < iovec.length)
    (tx : List Tx) :
    websockSendV true opcode iovec tx =
      handed (Frame.wire ⟨true, opcode, none, iovec.flatten⟩) tx := by
  have hcheck : ¬ iovec.length + 1 > 32 := by omega
  rw [websockSendV, websockSendInternalV, if_neg hcheck]
  simp only [frameHeader_eq]
  rfl

theorem websockSend_eq (opcode : Opcode) (data : Bytes) (tx : List Tx) :
    websockSend true opcode data tx = handed (Frame.wire ⟨true, opcode, none, data⟩) tx := by
  have hvec := @websockSendV_eq opcode [data] (by simp) tx
  simpa [websockSend, websockSendV] using hvec

/-- A send whose arguments are accepted hands its frame to the socket. -/
theorem Send.websock_eq {send : Send} (h : ¬ send.Refused) (tx : List Tx) :
    send.websock tx = handed send.frame tx := by
  cases send with
  | text iovec => exact websockSendV_eq .text h tx
  | binary iovec => exact websockSendV_eq .binary h tx
  | ping data => exact (if_neg h).trans (websockSend_eq .ping data tx)
  | pong data => exact (if_neg h).trans (websockSend_eq .pong data tx)
  | close code reason =>
      have hlen : ¬ reason.length > 123 := h
      by_cases hempty : code.toNat = codeNotSet ∧ reason = []
      · have hnil : code.toNat = codeNotSet ∧ reason.length = 0 :=
          ⟨hempty.1, by simp [hempty.2]⟩
        simp only [Send.websock, websockClose, if_pos hnil, Send.frame, Send.toFrame,
          if_pos hempty]
        exact websockSend_eq .close [] tx
      · have hnil : ¬ (code.toNat = codeNotSet ∧ reason.length = 0) := by
          rwa [List.length_eq_zero_iff]
        have hcode : [[frameSetLength code.toNat 1, frameSetLength code.toNat 0], reason].flatten =
            bigEndian 2 code.toNat ++ reason := by
          simp [frameSetLength, bigEndian, List.range_succ]
        simp only [Send.websock, websockClose, if_neg hnil, if_neg hlen, Send.frame, Send.toFrame,
          if_neg hempty]
        rw [websockSendV_eq .close (by simp), hcode]

theorem Send.websock_refused {send : Send} (h : send.Refused) (tx : List Tx) :
    send.websock tx = ⟨.error .EINVAL, [], tx⟩ := by
  cases send with
  | text iovec =>
      have hcheck : iovec.length + 1 > 32 := Nat.succ_lt_succ h
      simp [Send.websock, websockSendV, websockSendInternalV, hcheck]
  | binary iovec =>
      have hcheck : iovec.length + 1 > 32 := Nat.succ_lt_succ h
      simp [Send.websock, websockSendV, websockSendInternalV, hcheck]
  | ping data =>
      have hlen : data.length > 125 := h
      simp [Send.websock, websockPing, websockControl, hlen]
  | pong data =>
      have hlen : data.length > 125 := h
      simp [Send.websock, websockPong, websockControl, hlen]
  | close code reason =>
      have hlen : reason.length > 123 := h
      have hnil : ¬ (code.toNat = codeNotSet ∧ reason.length = 0) := fun hnil => by omega
      simp only [Send.websock, websockClose, if_neg hnil, if_pos hlen]

/-! ## Sequences of sends -/

/-- The condition: a send is refused, or the socket fails one, or it takes whole every
frame it answers for. -/
def StreamIntact (sends : List Send) (tx : List Tx) : Prop :=
  (∃ send ∈ sends, send.Refused) ∨
    (∃ answer ∈ (answers tx).take sends.length, ∃ code, answer = .fail code) ∨
    ∀ pair ∈ sends.zip (answers tx), pair.2.Whole pair.1.frame

/-- The bytes the socket takes of the frames of accepted sends. -/
def takenBytes : List Send → List Tx → Bytes
  | [], _ => []
  | send :: rest, [] => send.frame ++ takenBytes rest []
  | send :: rest, .room more :: left => send.frame.take (more + 1) ++ takenBytes rest left
  | _ :: rest, _ :: left => takenBytes rest left

def frames (sends : List Send) : Bytes := (sends.map Send.frame).flatten

theorem afbWsSend_connected {send : Send} {link : AfbWs} (h : link.ws.isSome) :
    afbWsSend send link = ((send.websock link.tx).result,
      { link with
        tx := (send.websock link.tx).tx
        sent := link.sent ++ (send.websock link.tx).out }) := by
  obtain ⟨ws, hws⟩ := Option.isSome_iff_exists.mp h
  simp only [afbWsSend, hws]

/-- When every send succeeded: none was refused or failed, and what left the link. -/
theorem sendAll_ok {sends : List Send} {link : AfbWs} (hws : link.ws.isSome)
    (hok : ∀ result ∈ (sendAll sends link).1, result = .ok) :
    (∀ send ∈ sends, ¬ send.Refused) ∧
      (∀ answer ∈ (answers link.tx).take sends.length, ∀ code, answer ≠ .fail code) ∧
      (sendAll sends link).2.sent = link.sent ++ takenBytes sends (answers link.tx) := by
  induction sends generalizing link with
  | nil => simp [sendAll, takenBytes]
  | cons send rest ih =>
      simp only [sendAll, afbWsSend_connected hws, List.mem_cons, forall_eq_or_imp] at hok ⊢
      obtain ⟨hfirst, hrest⟩ := hok
      have haccepted : ¬ send.Refused := fun h => by
        simp [Send.websock_refused h] at hfirst
      rw [Send.websock_eq haccepted] at hfirst hrest ⊢
      rcases awsWritev_answers send.frame link.tx with
        ⟨hnone, left, hwrite, hleft⟩ | ⟨answer, left, tx, hanswer, hwrite, hleft⟩
      · simp only [handed, hwrite] at hfirst hrest ⊢
        obtain ⟨hrefused, hfail, hsent⟩ := ih (by exact hws) hrest
        refine ⟨⟨haccepted, hrefused⟩, by simp [hnone], ?_⟩
        rw [hsent, hnone, takenBytes]
        simp [hleft]
      · cases answer with
        | room more =>
            simp only [handed, hwrite, answered] at hfirst hrest ⊢
            obtain ⟨hrefused, hfail, hsent⟩ := ih (by exact hws) hrest
            refine ⟨⟨haccepted, hrefused⟩, ?_, ?_⟩
            · rw [hanswer, ← hleft]
              simpa using hfail
            · rw [hsent, hanswer, takenBytes]
              simp [hleft]
        | fail code => simp [handed, hwrite, answered] at hfirst
        | again =>
            have hfinal : Tx.again ∈ answers link.tx := by simp [hanswer]
            simp [answers] at hfinal
        | intr =>
            have hfinal : Tx.intr ∈ answers link.tx := by simp [hanswer]
            simp [answers] at hfinal

/-- Without refused send and without failure, every send succeeds. -/
theorem sendAll_succeeds {sends : List Send} {link : AfbWs} (hws : link.ws.isSome)
    (hrefused : ∀ send ∈ sends, ¬ send.Refused)
    (hfail : ∀ answer ∈ (answers link.tx).take sends.length, ∀ code, answer ≠ .fail code) :
    ∀ result ∈ (sendAll sends link).1, result = .ok := by
  induction sends generalizing link with
  | nil => simp [sendAll]
  | cons send rest ih =>
      have hrest : ∀ send ∈ rest, ¬ send.Refused := fun s hs => hrefused s (by simp [hs])
      simp only [sendAll, afbWsSend_connected hws, List.mem_cons, forall_eq_or_imp]
      rw [Send.websock_eq (hrefused send (by simp))]
      rcases awsWritev_answers send.frame link.tx with
        ⟨hnone, left, hwrite, hleft⟩ | ⟨answer, left, tx, hanswer, hwrite, hleft⟩
      · simp only [handed, hwrite]
        exact ⟨trivial, ih hws hrest (by simp [hleft])⟩
      · rw [hanswer] at hfail
        simp only [List.length_cons, List.take_succ_cons, List.mem_cons, forall_eq_or_imp] at hfail
        cases answer with
        | fail code => exact absurd rfl (hfail.1 code)
        | room more =>
            simp only [handed, hwrite, answered]
            exact ⟨trivial, ih hws hrest (by simpa [hleft] using hfail.2)⟩
        | again =>
            simp only [handed, hwrite, answered]
            exact ⟨trivial, ih hws hrest (by simpa [hleft] using hfail.2)⟩
        | intr =>
            simp only [handed, hwrite, answered]
            exact ⟨trivial, ih hws hrest (by simpa [hleft] using hfail.2)⟩

theorem takenBytes_length (sends : List Send) (tx : List Tx) :
    (takenBytes sends tx).length ≤ (frames sends).length := by
  induction sends generalizing tx with
  | nil => simp [takenBytes, frames]
  | cons send rest ih =>
      have hframes : (frames (send :: rest)).length = send.frame.length + (frames rest).length := by
        simp [frames]
      rw [hframes]
      cases tx with
      | nil =>
          have := ih []
          simp only [takenBytes, List.length_append]
          omega
      | cons entry left =>
          have := ih left
          cases entry <;> simp only [takenBytes, List.length_append, List.length_take] <;> omega

theorem takenBytes_eq_frames_iff {sends : List Send} {tx : List Tx}
    (hfail : ∀ answer ∈ tx.take sends.length, ∃ more, answer = .room more) :
    takenBytes sends tx = frames sends ↔
      ∀ pair ∈ sends.zip tx, pair.2.Whole pair.1.frame := by
  induction sends generalizing tx with
  | nil => simp [takenBytes, frames]
  | cons send rest ih =>
      have hframes : frames (send :: rest) = send.frame ++ frames rest := rfl
      rw [hframes]
      cases tx with
      | nil =>
          have hrest := @ih [] (by simp)
          simpa [takenBytes] using hrest
      | cons entry left =>
          simp only [List.length_cons, List.take_succ_cons, List.mem_cons, forall_eq_or_imp] at hfail
          obtain ⟨⟨more, rfl⟩, hleft⟩ := hfail
          simp only [takenBytes, List.zip_cons_cons, List.mem_cons, forall_eq_or_imp]
          rw [← ih hleft, Tx.Whole]
          constructor
          · intro heq
            have hlen := congrArg List.length heq
            have hrest := takenBytes_length rest left
            simp only [List.length_append, List.length_take] at hlen
            have hwhole : send.frame.length ≤ more + 1 := by omega
            rw [List.take_of_length_le hwhole] at heq
            exact ⟨hwhole, List.append_cancel_left heq⟩
          · rintro ⟨hwhole, hrest⟩
            rw [List.take_of_length_le hwhole, hrest]

/-- The stream sent is made of the whole frames whenever every send succeeds, exactly
when the socket leaves the stream intact. -/
theorem sent_stream_intact_iff {link : AfbWs} (hconnected : link.ws.isSome) (sends : List Send) :
    ((∀ result ∈ (sendAll sends link).1, result = .ok) →
        (sendAll sends link).2.sent = link.sent ++ frames sends) ↔
      StreamIntact sends link.tx := by
  have hroom : (∀ answer ∈ (answers link.tx).take sends.length, ∀ code, answer ≠ .fail code) →
      ∀ answer ∈ (answers link.tx).take sends.length, ∃ more, answer = .room more := by
    intro hfail answer hanswer
    have hfinal : answer ∈ answers link.tx := List.mem_of_mem_take hanswer
    cases answer with
    | room more => exact ⟨more, rfl⟩
    | fail code => exact absurd rfl (hfail _ hanswer code)
    | again => simp [answers] at hfinal
    | intr => simp [answers] at hfinal
  constructor
  · intro hintact
    by_cases hrefused : ∃ send ∈ sends, send.Refused
    · exact Or.inl hrefused
    · by_cases hfail : ∃ answer ∈ (answers link.tx).take sends.length, ∃ code, answer = .fail code
      · exact Or.inr (Or.inl hfail)
      · have haccepted : ∀ send ∈ sends, ¬ send.Refused := fun s hs h => hrefused ⟨s, hs, h⟩
        have hanswers : ∀ answer ∈ (answers link.tx).take sends.length, ∀ code,
            answer ≠ .fail code := fun a ha code h => hfail ⟨a, ha, code, h⟩
        have hok := sendAll_succeeds hconnected haccepted hanswers
        have hsent := (sendAll_ok hconnected hok).2.2
        rw [hintact hok] at hsent
        have heq := List.append_cancel_left hsent
        exact Or.inr (Or.inr ((takenBytes_eq_frames_iff (hroom hanswers)).mp heq.symm))
  · intro hintact hok
    obtain ⟨haccepted, hanswers, hsent⟩ := sendAll_ok hconnected hok
    rw [hsent]
    rcases hintact with ⟨send, hsend, hrefused⟩ | ⟨answer, hanswer, code, hcode⟩ | hwhole
    · exact absurd hrefused (haccepted send hsend)
    · exact absurd hcode (hanswers answer hanswer code)
    · rw [(takenBytes_eq_frames_iff (hroom hanswers)).mpr hwhole]

/-- A text whose frame finds room after a signal and an `EAGAIN`. -/
theorem sent_stream_intact_hello :
    let link := afbWsCreate [] [.intr, .again, .room 9]
    (sendAll [.text [[104, 105], [33]]] link).2.sent = [129, 3, 104, 105, 33] := by
  have hroom : StreamIntact [.text [[104, 105], [33]]] [.intr, .again, .room 9] := by
    refine Or.inr (Or.inr ?_)
    decide
  exact (@sent_stream_intact_iff (afbWsCreate [] [.intr, .again, .room 9]) rfl
    [.text [[104, 105], [33]]]).mpr hroom (by decide)

/-- A socket with room for one byte: the send succeeds, and only the first byte of the
frame leaves. -/
theorem sent_stream_cut :
    let link := afbWsCreate [] [.room 0]
    let sends := [Send.text [[104, 105]]]
    ¬ ((∀ result ∈ (sendAll sends link).1, result = .ok) →
      (sendAll sends link).2.sent = link.sent ++ frames sends) := by
  decide

end AfbBinder.Ws
