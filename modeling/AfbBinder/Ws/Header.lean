import AfbBinder.Ws.Frame

/-!
# Reading headers from a cut stream

The stream of bytes is fixed; the websocket has seen some of it, the rest is to come in
whatever pieces.  A turn of the dispatch loop either stays in the header, having used
up an entry of the script, or it knows the heading fields of the frame that starts the
stream.
-/

namespace AfbBinder.Ws

open Lib

/-- The header holds the bytes of the stream read so far, and the others are to come. -/
structure Seen (stream : Bytes) (ws : Websock) (rx : List Rx) : Prop where
  room : ws.header.length = 14
  fits : ws.szhead ≤ 14
  within : ws.lenhead ≤ ws.szhead
  available : ws.lenhead ≤ stream.length
  header : ws.header.take ws.lenhead = stream.take ws.lenhead
  coming : arriving rx = stream.drop ws.lenhead
  delays : ∀ entry ∈ rx, entry.delays = true

/-- Between two dispatches an entry of the script is used up, unless none is left. -/
def UsedUp (rx rx' : List Rx) : Prop := rx' = [] ∨ rx'.length < rx.length

variable {stream : Bytes} {ws : Websock} {rx : List Rx}

theorem Seen.byte (h : Seen stream ws rx) {i : Nat} (hi : i < ws.lenhead) :
    ws.byte i = stream.getD i 0 := by
  have hget : (ws.header.take ws.lenhead)[i]? = (stream.take ws.lenhead)[i]? := by rw [h.header]
  rw [List.getElem?_take_of_lt hi, List.getElem?_take_of_lt hi] at hget
  simp only [Websock.byte, List.getD_eq_getElem?_getD, hget]

/-- Reading the header: it gets complete, or an entry of the script is used up. -/
theorem readHeader_seen (h : Seen stream ws rx) :
    ∃ rc header lenhead rx', readHeader ws rx =
        (rc, { ws with header := header, lenhead := lenhead }, rx') ∧
      Seen stream { ws with header := header, lenhead := lenhead } rx' ∧ ws.lenhead ≤ lenhead ∧
      ((rc = .ok ∧ lenhead = ws.szhead ∧ rx'.length ≤ rx.length) ∨
        ((rc = .ok ∨ rc = .error .EAGAIN) ∧ lenhead < ws.szhead ∧ UsedUp rx rx')) := by
  unfold readHeader
  split
  · rename_i hlt
    obtain ⟨n, hn⟩ : ∃ n, ws.szhead - ws.lenhead = n + 1 := ⟨ws.szhead - ws.lenhead - 1, by omega⟩
    rw [hn]
    obtain ⟨rest, hdelays, hcase⟩ := awsReadv_cases n rx
    rcases hcase with ⟨hread, harr, hused, -⟩ | ⟨errno, -, -, hfail⟩ |
      ⟨data, hread, hpos, hle, harr, hshort, hbound, -⟩
    · refine ⟨.error .EAGAIN, ws.header, ws.lenhead, rest, by rw [hread], ?_, Nat.le_refl _,
        Or.inr ⟨Or.inr rfl, hlt, hused⟩⟩
      exact { h with coming := harr.trans h.coming, delays := hdelays h.delays }
    · rw [failsWithin_of_delays h.delays] at hfail
      cases hfail
    · -- the bytes read are the next ones of the stream
      have hnext : stream.drop ws.lenhead = data ++ arriving rest := by rw [← h.coming, harr]
      have hlen : ws.lenhead + data.length ≤ stream.length := by
        have := congrArg List.length hnext
        simp only [List.length_drop, List.length_append] at this
        omega
      refine ⟨.ok, copyAt ws.header ws.lenhead data, ws.lenhead + data.length, rest, by rw [hread],
        ?_, Nat.le_add_right _ _, ?_⟩
      · have hin : ws.lenhead + data.length ≤ ws.header.length := by
          have := h.room
          have := h.fits
          omega
        refine
          { room := by rw [← h.room]; exact length_copyAt hin
            fits := h.fits
            within := by simp only; omega
            available := hlen
            header := ?_
            coming := ?_
            delays := hdelays h.delays }
        · rw [take_copyAt (by omega), h.header, List.take_add, hnext]
          simp
        · rw [← List.drop_drop, hnext]
          simp
      · by_cases hfull : ws.lenhead + data.length = ws.szhead
        · exact Or.inl ⟨rfl, hfull, hbound⟩
        · exact Or.inr ⟨Or.inl rfl, by omega, Or.inr (hshort (by omega))⟩
  · rename_i hge
    have hwithin := h.within
    exact ⟨.ok, ws.header, ws.lenhead, rx, rfl, h, Nat.le_refl _,
      Or.inl ⟨rfl, by omega, Nat.le_refl _⟩⟩

/-! ## The two reads of a header -/

/-- How a turn goes on from a read of the header: with the whole header read, or it
returns for want of bytes. -/
def HeaderRead (stream : Bytes) (ws : Websock) (rx : List Rx)
    (turn : Websock → List Rx → Turn × Websock × List Rx) : Prop :=
  ∃ header lenhead rx', Seen stream { ws with header := header, lenhead := lenhead } rx' ∧
    ((lenhead = ws.szhead ∧ rx'.length ≤ rx.length ∧
        turn ws rx = turn { ws with header := header, lenhead := lenhead } rx') ∨
      (lenhead < ws.szhead ∧ UsedUp rx rx' ∧ ∃ rc, (rc = .ok ∨ rc = .error .EAGAIN) ∧
        turn ws rx = (.back rc, { ws with header := header, lenhead := lenhead }, rx')))

theorem readHeader_complete (h : ws.lenhead = ws.szhead) : readHeader ws rx = (.ok, ws, rx) := by
  rw [readHeader, if_neg (by omega)]

theorem turnLength_read (h : Seen stream ws rx) : HeaderRead stream ws rx turnLength := by
  obtain ⟨rc, header, lenhead, rx', hread, hseen, -, hcase⟩ := readHeader_seen h
  refine ⟨header, lenhead, rx', hseen, ?_⟩
  rcases hcase with ⟨rfl, hfull, hbound⟩ | ⟨hrc, hpart, hused⟩
  · left
    refine ⟨hfull, hbound, ?_⟩
    rw [turnLength, hread, turnLength, readHeader_complete hfull]
  · right
    refine ⟨hpart, hused, rc, hrc, ?_⟩
    rw [turnLength, hread]
    rcases hrc with rfl | rfl
    · exact if_pos hpart
    · rfl

theorem turnStart_read (h : Seen stream ws rx) : HeaderRead stream ws rx turnStart := by
  obtain ⟨rc, header, lenhead, rx', hread, hseen, -, hcase⟩ := readHeader_seen h
  refine ⟨header, lenhead, rx', hseen, ?_⟩
  rcases hcase with ⟨rfl, hfull, hbound⟩ | ⟨hrc, hpart, hused⟩
  · left
    refine ⟨hfull, hbound, ?_⟩
    rw [turnStart, hread, turnStart, readHeader_complete hfull]
  · right
    refine ⟨hpart, hused, rc, hrc, ?_⟩
    rw [turnStart, hread]
    rcases hrc with rfl | rfl
    · exact if_pos hpart
    · rfl

/-! ## The heading fields of a frame -/

/-- A data frame that the websocket can receive. -/
structure Frame.Receivable (frame : Frame) : Prop where
  isData : frame.opcode.isData = true
  small : frame.payload.length ≤ 65000

/-- A frame that is no close frame and whose header is accepted. -/
structure Frame.Ordinary (frame : Frame) : Prop where
  known : ∀ code, frame.opcode ≠ .reserved code
  notClose : frame.opcode ≠ .close
  small : frame.payload.length ≤ 65000
  control : frame.opcode.isData = false → frame.payload.length ≤ 125

theorem Frame.Receivable.ordinary {frame : Frame} (h : frame.Receivable) : frame.Ordinary := by
  have hdata := h.isData
  refine ⟨fun code hop => ?_, fun hop => ?_, h.small, fun hcontrol => ?_⟩
  · rw [hop] at hdata
    cases hdata
  · rw [hop] at hdata
    cases hdata
  · rw [hdata] at hcontrol
    cases hcontrol

/-- The websocket is about to read the payload of the frame. -/
structure Heading (frame : Frame) (ws : Websock) : Prop where
  state : ws.state = .data
  opcode : ws.opcode = frame.opcode
  fin : ws.fin = frame.fin
  length : ws.length = frame.payload.length
  mask : ws.mask = frame.key.getD Mask.zero

theorem frameGetOpcode_first (fin : Bool) {opcode : Opcode} (h : ∀ code, opcode ≠ .reserved code) :
    frameGetOpcode (frameFirst fin opcode) = opcode := by
  cases opcode with
  | reserved code => exact absurd rfl (h code)
  | _ => cases fin <;> rfl

theorem frameGetFin_first (fin : Bool) {opcode : Opcode} (h : ∀ code, opcode ≠ .reserved code) :
    frameGetFin (frameFirst fin opcode) = fin := by
  cases opcode with
  | reserved code => exact absurd rfl (h code)
  | _ => cases fin <;> rfl

theorem frameGetRsv_first (fin : Bool) {opcode : Opcode} (h : ∀ code, opcode ≠ .reserved code) :
    frameGetRsv1 (frameFirst fin opcode) = false ∧ frameGetRsv2 (frameFirst fin opcode) = false ∧
      frameGetRsv3 (frameFirst fin opcode) = false := by
  cases opcode with
  | reserved code => exact absurd rfl (h code)
  | _ => cases fin <;> decide

theorem frameGetMask_second (frame : Frame) :
    frameGetMask frame.second = frame.key.isSome := by
  have hle := shortLength_le frame.payload.length
  rw [frameGetMask, second_toNat]
  cases frame.key with
  | none => simp; omega
  | some key => simp; omega

theorem frameGetPayloadLen_second (frame : Frame) :
    frameGetPayloadLen frame.second = shortLength frame.payload.length := by
  have hle := shortLength_le frame.payload.length
  rw [frameGetPayloadLen, second_toNat]
  split <;> omega

theorem extendedLength_length {size : Nat} (h : size ≤ 65000) :
    (extendedLength size).length = if size < 126 then 0 else 2 := by
  unfold extendedLength
  split
  · rfl
  · rw [if_pos (by omega)]
    simp [bigEndian]

theorem keyBytes_length (frame : Frame) :
    frame.keyBytes.length = if frame.key.isSome then 4 else 0 := by
  unfold Frame.keyBytes
  cases frame.key <;> rfl

theorem head_length (frame : Frame) (hsmall : frame.payload.length ≤ 65000) :
    frame.head.length = 2 + headingSize frame.second := by
  have hext := extendedLength_length hsmall
  have hkey := keyBytes_length frame
  simp only [Frame.head, List.length_cons, List.length_append, headingSize, hext, hkey,
    frameGetPayloadLen_second, frameGetMask_second]
  by_cases hshort : frame.payload.length < 126
  · have h127 : frame.payload.length ≠ 127 := by omega
    have h126 : frame.payload.length ≠ 126 := by omega
    simp only [shortLength, hshort, h127, h126, if_true, if_false]
    omega
  · have h65536 : frame.payload.length < 65536 := by omega
    simp only [shortLength, hshort, h65536, if_true, if_false, Nat.reduceEqDiff]
    omega

theorem head_le (frame : Frame) (hsmall : frame.payload.length ≤ 65000) :
    2 ≤ frame.head.length ∧ frame.head.length ≤ 8 := by
  have hext := extendedLength_length hsmall
  have hkey := keyBytes_length frame
  simp only [Frame.head, List.length_cons, List.length_append, hext, hkey]
  split <;> split <;> omega

section Heading

variable {frame : Frame} (hbyte : ∀ i < frame.head.length, ws.byte i = frame.head.getD i 0)
include hbyte

theorem headerLength_eq (h : frame.Ordinary) (hopcode : ws.opcode = frame.opcode) :
    headerLength ws = frame.payload.length := by
  have hlen := head_length frame h.small
  have hsecond : ws.byte 1 = frame.second := hbyte 1 (by omega)
  have hnotclose : ws.opcode ≠ .close := by
    rw [hopcode]
    exact h.notClose
  have hshort := frameGetPayloadLen_second frame
  simp only [headerLength, hsecond, hshort, hnotclose, false_and, if_false]
  by_cases hsmall : frame.payload.length < 126
  · have h127 : frame.payload.length ≠ 127 := by omega
    have h126 : frame.payload.length ≠ 126 := by omega
    simp [shortLength, hsmall, h127, h126]
  · have h65536 : frame.payload.length < 65536 := by
      have := h.small
      omega
    obtain ⟨b0, b1, hext, hvalue⟩ := bigEndian_two h65536
    have hhead : frame.head =
        frameFirst frame.fin frame.opcode :: frame.second :: b0 :: b1 :: frame.keyBytes := by
      simp [Frame.head, extendedLength, hsmall, h65536, hext]
    have h2 : ws.byte 2 = b0 := by rw [hbyte 2 (by simp [hhead]), hhead]; rfl
    have h3 : ws.byte 3 = b1 := by rw [hbyte 3 (by simp [hhead]), hhead]; rfl
    simp [shortLength, hsmall, h65536, Websock.number, List.range_succ, h2, h3, hvalue]

theorem headerMask_eq (hszhead : ws.szhead = frame.head.length) :
    headerMask ws = frame.key.getD Mask.zero := by
  have hsecond : ws.byte 1 = frame.second := hbyte 1 (by simp [Frame.head])
  rw [headerMask, hsecond, frameGetMask_second]
  cases hkey : frame.key with
  | none => rfl
  | some key =>
      -- the key is the end of the header
      have hhead : frame.head = (frameFirst frame.fin frame.opcode :: frame.second ::
          extendedLength frame.payload.length) ++ key.bytes := by
        simp [Frame.head, Frame.keyBytes, hkey]
      generalize frameFirst frame.fin frame.opcode :: frame.second ::
        extendedLength frame.payload.length = front at hhead
      have hlen : frame.head.length = front.length + 4 := by simp [hhead, Mask.bytes]
      have hget : ∀ i < 4, ws.byte (ws.szhead - 4 + i) = key.bytes.getD i 0 := by
        intro i hi
        have hpos : ws.szhead - 4 + i = front.length + i := by omega
        rw [hpos, hbyte _ (by omega), hhead, List.getD_eq_getElem?_getD,
          List.getElem?_append_right (by omega)]
        simp
      have h0 := hget 0 (by decide)
      have h1 := hget 1 (by decide)
      have h2 := hget 2 (by decide)
      have h3 := hget 3 (by decide)
      have e1 : ws.szhead - 4 + 1 = ws.szhead - 3 := by omega
      have e2 : ws.szhead - 4 + 2 = ws.szhead - 2 := by omega
      have e3 : ws.szhead - 4 + 3 = ws.szhead - 1 := by omega
      rw [Nat.add_zero] at h0
      rw [e1] at h1
      rw [e2] at h2
      rw [e3] at h3
      simp [h0, h1, h2, h3, Mask.bytes]

end Heading

/-! ## Turns of the loop in the header -/

/-- The websocket waits for more of the header of the frame. -/
structure Resting (frame : Frame) (ws : Websock) : Prop where
  maxlength : ws.maxlength = 65000
  phase : (ws.state = .start ∧ ws.szhead = 2) ∨
    (ws.state = .length ∧ ws.szhead = frame.head.length)
  incomplete : ws.lenhead < ws.szhead

/-- The end of a turn that reads the header of the frame, from a script. -/
def HeaderTurn (frame : Frame) (rest : Bytes) (rx : List Rx) : Turn × Websock × List Rx → Prop
  | (.back rc, ws, rx') =>
      (rc = .ok ∨ rc = .error .EAGAIN) ∧ Resting frame ws ∧
        Seen (frame.wire ++ rest) ws rx' ∧ UsedUp rx rx'
  | (.frame, ws, rx') =>
      Heading frame ws ∧ ws.maxlength = 65000 ∧ ws.header.length = 14 ∧
        arriving rx' = frame.body ++ rest ∧ (∀ entry ∈ rx', entry.delays = true) ∧
        rx'.length ≤ rx.length
  | _ => False

variable {frame : Frame} {rest : Bytes}

/-- From the length on, the two first bytes being known. -/
theorem turnLength_seen (h : frame.Ordinary) (hseen : Seen (frame.wire ++ rest) ws rx)
    (hstate : ws.state = .length) (hszhead : ws.szhead = frame.head.length)
    (hmax : ws.maxlength = 65000) :
    HeaderTurn frame rest rx (turnLength ws rx) := by
  have hstream : frame.wire ++ rest = frame.head ++ (frame.body ++ rest) := by
    rw [Frame.wire, List.append_assoc]
  obtain ⟨header, lenhead, rx', hseen', hcase⟩ := turnLength_read hseen
  rcases hcase with ⟨hfull, hbound, hturn⟩ | ⟨hpart, hused, rc, hrc, hturn⟩
  · -- the header is complete
    have hbyte : ∀ i < frame.head.length,
        Websock.byte { ws with header := header, lenhead := lenhead } i = frame.head.getD i 0 := by
      intro i hi
      rw [hseen'.byte (by simp only; omega), hstream, List.getD_eq_getElem?_getD,
        List.getElem?_append_left hi, ← List.getD_eq_getElem?_getD]
    have hfirst := hbyte 0 (by simp [Frame.head])
    have hop : Websock.opcode { ws with header := header, lenhead := lenhead } = frame.opcode := by
      rw [Websock.opcode, hfirst]
      exact frameGetOpcode_first frame.fin h.known
    have hfin : Websock.fin { ws with header := header, lenhead := lenhead } = frame.fin := by
      rw [Websock.fin, hfirst]
      exact frameGetFin_first frame.fin h.known
    have hlength := headerLength_eq hbyte h hop
    have hmask := headerMask_eq hbyte hszhead
    obtain ⟨hrsv1, hrsv2, hrsv3⟩ := frameGetRsv_first frame.fin h.known
    have hcomplete : ¬ lenhead < ws.szhead := by omega
    have hsmall : ¬ frame.payload.length > ws.maxlength := by
      have := h.small
      omega
    have hfirst' : header.getD 0 0 = frameFirst frame.fin frame.opcode := hfirst
    have hcoming : arriving rx' = frame.body ++ rest := by
      rw [hseen'.coming, hstream, hfull, hszhead, List.drop_left]
    rw [hturn, turnLength, readHeader_complete hfull]
    simp only [hcomplete, hlength, hsmall, Websock.byte, hfirst', hrsv1, hrsv2, hrsv3,
      if_false, Bool.false_eq_true]
    exact ⟨⟨rfl, hop, hfin, rfl, hmask⟩, hmax, hseen'.room, hcoming, hseen'.delays, hbound⟩
  · rw [hturn]
    exact ⟨hrc, ⟨hmax, Or.inr ⟨hstate, hszhead⟩, hpart⟩, hseen', hused⟩

theorem HeaderTurn.mono {rx₁ rx₂ : List Rx} {result : Turn × Websock × List Rx}
    (hlen : rx₁.length ≤ rx₂.length) (h : HeaderTurn frame rest rx₁ result) :
    HeaderTurn frame rest rx₂ result := by
  obtain ⟨turn, ws, rx'⟩ := result
  cases turn with
  | back rc =>
      obtain ⟨hrc, hresting, hseen, hused⟩ := h
      exact ⟨hrc, hresting, hseen, hused.imp_right fun hlt => by omega⟩
  | frame =>
      obtain ⟨hheading, hmax, hroom, hcoming, hdelays, hbound⟩ := h
      exact ⟨hheading, hmax, hroom, hcoming, hdelays, by omega⟩
  | loop => exact h
  | tooLongError => exact h
  | protocolError => exact h

theorem fastTrack_ordinary (h : frame.Ordinary)
    (hfirst : ws.byte 0 = frameFirst frame.fin frame.opcode) (hsecond : ws.byte 1 = frame.second) :
    fastTrack ws = some ws := by
  have hop : ws.opcode = frame.opcode := by
    rw [Websock.opcode, hfirst]
    exact frameGetOpcode_first frame.fin h.known
  have hcheck : frame.opcode.isData = false → checkControlHeader ws = true := by
    intro hcontrol
    have hlen := h.control hcontrol
    obtain ⟨hrsv1, hrsv2, hrsv3⟩ := frameGetRsv_first frame.fin h.known
    have hshort : ¬ shortLength frame.payload.length > 125 := by
      rw [shortLength, if_pos (by omega)]
      omega
    have hclose := h.notClose
    simp only [checkControlHeader, hfirst, hrsv1, hrsv2, hrsv3, hsecond, frameGetPayloadLen_second,
      hshort, hop, hclose, if_false, Bool.false_eq_true]
  unfold fastTrack
  rw [hop]
  cases hkind : frame.opcode with
  | continuation => rfl
  | text => rfl
  | binary => rfl
  | close => exact absurd hkind h.notClose
  | ping => simp [hcheck (by rw [hkind]; rfl)]
  | pong => simp [hcheck (by rw [hkind]; rfl)]
  | reserved code => exact absurd hkind (h.known code)

/-- The two bytes a header opens with, once they are read. -/
theorem Seen.opening (h : Seen (frame.wire ++ rest) ws rx) (htwo : 2 ≤ ws.lenhead) :
    ws.byte 0 = frameFirst frame.fin frame.opcode ∧ ws.byte 1 = frame.second :=
  ⟨h.byte (Nat.lt_of_lt_of_le Nat.two_pos htwo), h.byte htwo⟩

/-- From the start of the header. -/
theorem turnStart_seen (h : frame.Ordinary) (hseen : Seen (frame.wire ++ rest) ws rx)
    (hstate : ws.state = .start) (hszhead : ws.szhead = 2) (hmax : ws.maxlength = 65000) :
    HeaderTurn frame rest rx (turnStart ws rx) := by
  obtain ⟨header, lenhead, rx', hseen', hcase⟩ := turnStart_read hseen
  rcases hcase with ⟨hfull, hbound, hturn⟩ | ⟨hpart, hused, rc, hrc, hturn⟩
  · -- the two first bytes are known, and with them the size of the header
    rcases hseen'.opening (by simp only; omega) with ⟨hfirst, hsecond⟩
    have hcomplete : ¬ lenhead < ws.szhead := by omega
    have hlen := head_length frame h.small
    have hhead := head_le frame h.small
    rw [hturn, turnStart, readHeader_complete hfull]
    simp only [hcomplete, if_false, fastTrack_ordinary h hfirst hsecond, hsecond]
    refine HeaderTurn.mono hbound (turnLength_seen h ?_ rfl ?_ hmax)
    · exact { hseen' with
        fits := by simp only; omega
        within := by simp only; omega }
    · simp only
      omega
  · rw [hturn]
    exact ⟨hrc, ⟨hmax, Or.inl ⟨hstate, hszhead⟩, hpart⟩, hseen', hused⟩

/-- With nothing in the stream, a turn stays at the start. -/
theorem turnStart_empty (hseen : Seen [] ws rx) (hszhead : ws.szhead = 2) :
    ∃ rc ws' rx', turnStart ws rx = (.back rc, ws', rx') ∧
      (rc = .ok ∨ rc = .error .EAGAIN) ∧ ws'.state = ws.state ∧ ws'.szhead = 2 ∧
      ws'.maxlength = ws.maxlength ∧ Seen [] ws' rx' ∧ UsedUp rx rx' := by
  obtain ⟨header, lenhead, rx', hseen', hcase⟩ := turnStart_read hseen
  have hnone : lenhead ≤ 0 := hseen'.available
  rcases hcase with ⟨hfull, -, -⟩ | ⟨-, hused, rc, hrc, hturn⟩
  · omega
  · exact ⟨rc, _, rx', hturn, hrc, rfl, hszhead, rfl, hseen', hused⟩

end AfbBinder.Ws
