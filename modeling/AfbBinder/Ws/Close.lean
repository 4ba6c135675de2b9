import Mathlib.Data.LawfulXor.Basic
import AfbBinder.Ws.Header
import AfbBinder.Ws.Send

/-!
# Close frames

The status code of a close frame is read with its header: the two first bytes of the
payload end the header, and what is left is the reason.  When the frame is masked, the
key is not at the end of that longer header, where `websock_dispatch` takes it; and when
there is no reason, the length left does not tell a code from no code.
-/

namespace AfbBinder.Ws

open Lib

/-! ## The frame -/

/-- The close frame with the code and the reason, masked or not. -/
def closeFrame (code : UInt16) (reason : Bytes) (key : Option Mask) : Frame :=
  { (Send.close code reason).toFrame with key := key }

/-- The bytes on the wire: those `websock_close` writes, or the same frame masked. -/
def closeWire (code : UInt16) (reason : Bytes) : Option Mask → Bytes
  | none => (websockClose code reason []).out
  | some key => (closeFrame code reason (some key)).wire

/-! ## Receiving it -/

/-- The turns of `websock_dispatch` until it calls the interface for a frame.  When it
returns for want of bytes, it is called again. -/
def dispatchFrame : Nat → Websock → List Rx → Option (Websock × List Rx)
  | 0, _, _ => none
  | turns + 1, ws, rx =>
      match websockTurn ws rx with
      | (.frame, ws, rx) => some (ws, rx)
      | (.back _, ws, rx) => dispatchFrame turns ws rx
      | (.loop, ws, rx) => dispatchFrame turns ws rx
      | (.tooLongError, _, _) => none
      | (.protocolError, _, _) => none

/-- The bytes that calls of `websock_read` return, one for each address and size. -/
def websockReads : List (Nat × Nat) → Websock → List Rx → Bytes
  | [], _, _ => []
  | (address, size) :: calls, ws, rx =>
      match websockRead ws address size rx with
      | (.error _, ws, rx) => websockReads calls ws rx
      | (.bytes data, ws, rx) => data ++ websockReads calls ws rx

/-- The call of `on_close` has the code and the length of the reason, and the reads that
follow return the reason: its first bytes in any case, all of it when they are enough. -/
def ClosesWith (code : Nat) (reason : Bytes) (ws : Websock) (rx : List Rx) : Prop :=
  ∃ ws' rx', dispatchFrame (rx.length + 2) ws rx = some (ws', rx') ∧ ws'.opcode = .close ∧
    closeCode ws' = code ∧ ws'.length = reason.length ∧
    ∀ calls, websockReads calls ws' rx' <+: reason ∧
      ((∀ call ∈ calls, 0 < call.2) → rx'.length + reason.length ≤ calls.length →
        websockReads calls ws' rx' = reason)

/-- No frame is begun. -/
structure BetweenFrames (ws : Websock) : Prop where
  maxlength : ws.maxlength = 65000
  room : ws.header.length = 14
  boundary : ws.state = .init ∨ (ws.state = .data ∧ ws.length = 0) ∨
    (ws.state = .start ∧ ws.szhead = 2 ∧ ws.lenhead = 0)

/-! ## Reading the reason -/

theorem websockRead_zero {ws : Websock} {size : Nat} (hdata : ws.state = .data)
    (hzero : min size ws.length = 0) (address : Nat) (rx : List Rx) :
    websockRead ws address size rx = (.error .EPIPE, ws, rx) := by
  rw [websockRead, if_neg (by simp [hdata]), hzero]
  simp only [awsReadv]

theorem websockReads_spec (calls : List (Nat × Nat)) {ws : Websock} {rx : List Rx}
    {raw rest : Bytes} (hdata : ws.state = .data) (hlength : ws.length = raw.length)
    (hcoming : arriving rx = raw ++ rest) (hdelays : ∀ entry ∈ rx, entry.delays = true) :
    websockReads calls ws rx <+: (unmaskBytes ws.mask raw).2 ∧
      ((∀ call ∈ calls, 0 < call.2) → rx.length + raw.length ≤ calls.length →
        websockReads calls ws rx = (unmaskBytes ws.mask raw).2) := by
  induction calls generalizing ws rx raw with
  | nil =>
      refine ⟨List.nil_prefix, fun _ henough => ?_⟩
      have hnil : raw = [] := by
        apply List.eq_nil_of_length_eq_zero
        rw [List.length_nil] at henough
        omega
      rw [hnil]
      rfl
  | cons call calls ih =>
      obtain ⟨address, size⟩ := call
      have htail : (∀ call ∈ (address, size) :: calls, 0 < call.2) → ∀ call ∈ calls, 0 < call.2 :=
        fun h call hcall => h call (List.mem_cons_of_mem _ hcall)
      rw [websockReads]
      cases hmin : min size ws.length with
      | zero =>
          -- nothing is asked for, or nothing is left
          rw [websockRead_zero hdata hmin]
          refine ⟨(ih hdata hlength hcoming hdelays).1, fun hpos henough => ?_⟩
          have hsize : 0 < size := hpos _ List.mem_cons_self
          have hnil : raw = [] := List.eq_nil_of_length_eq_zero (by omega)
          have hprefix := (ih hdata hlength hcoming hdelays).1
          rw [hnil] at hprefix ⊢
          exact List.prefix_nil.mp hprefix
      | succ n =>
          obtain ⟨script, hscript, hcase⟩ := websockRead_cases hdata hmin address rx
          rcases hcase with ⟨hread, harr, hused, -⟩ | ⟨errno, -, -, hfail⟩ |
            ⟨data, hread, hpos, hle, harr, -, hbound, -⟩
          · -- no byte yet: an entry of the script is used up
            rw [hread]
            have hstep := ih hdata hlength (harr.trans hcoming) (hscript hdelays)
            refine ⟨hstep.1, fun hsizes henough => hstep.2 (htail hsizes) ?_⟩
            rw [List.length_cons] at henough
            rcases hused with hnone | hless
            · have hnil := congrArg List.length (harr.trans hcoming)
              rw [hnone, List.length_append] at hnil
              simp only [arriving, List.length_nil] at hnil
              omega
            · omega
          · rw [failsWithin_of_delays hdelays] at hfail
            cases hfail
          · rw [hread]
            obtain ⟨left, rfl, hleft⟩ := append_split (hcoming.symm.trans harr) (by omega)
            rw [List.length_append] at hlength
            have hrest : ws.length - data.length = left.length := by omega
            have hstep := @ih { ws with
              length := ws.length - data.length
              mask := (unmaskBytes ws.mask data).1 } script left hdata hrest hleft (hscript hdelays)
            rw [unmaskBytes_append]
            refine ⟨(List.prefix_append_right_inj _).mpr hstep.1, fun hsizes henough => ?_⟩
            rw [List.length_cons, List.length_append] at henough
            have hall := hstep.2 (htail hsizes) (by omega)
            dsimp only
            rw [hall]

/-! ## Reading the header -/

/-- The header of the close frame and the status code, as `websock_dispatch` reads them. -/
def closeHead (payload : Bytes) (key : Option Mask) : Nat :=
  2 + (if payload = [] then 0 else 2) + if key.isSome then 4 else 0

/-- The header is read, and the reason is next. -/
structure CloseOpened (frame : Frame) (stream : Bytes) (ws : Websock) (rx : List Rx) : Prop where
  state : ws.state = .data
  opcode : ws.opcode = .close
  szhead : ws.szhead = closeHead frame.payload frame.key
  byte : ∀ i < closeHead frame.payload frame.key, ws.byte i = stream.getD i 0
  length : ws.length = frame.payload.length - 2
  mask : ws.mask = headerMask ws
  coming : arriving rx = stream.drop (closeHead frame.payload frame.key)
  delays : ∀ entry ∈ rx, entry.delays = true

/-- The header is not read yet. -/
structure CloseAwaited (frame : Frame) (stream : Bytes) (ws : Websock) (rx : List Rx) : Prop where
  maxlength : ws.maxlength = 65000
  phase : (ws.state = .start ∧ ws.szhead = 2) ∨
    (ws.state = .length ∧ ws.szhead = closeHead frame.payload frame.key)
  incomplete : ws.lenhead < ws.szhead
  seen : Seen stream ws rx

/-- The end of a turn that reads the header. -/
def CloseTurn (frame : Frame) (stream : Bytes) (rx : List Rx) :
    Turn × Websock × List Rx → Prop
  | (.back _, ws, rx') => CloseAwaited frame stream ws rx' ∧ UsedUp rx rx'
  | (.frame, ws, rx') => CloseOpened frame stream ws rx'
  | _ => False

variable {frame : Frame} {rest : Bytes} {ws : Websock} {rx : List Rx}

/-- A close frame whose payload is empty or has a code and a reason. -/
structure IsClose (frame : Frame) : Prop where
  opcode : frame.opcode = .close
  small : frame.payload.length ≤ 125
  coded : frame.payload ≠ [] → 2 ≤ frame.payload.length

theorem closeHead_le (payload : Bytes) (key : Option Mask) :
    2 ≤ closeHead payload key ∧ closeHead payload key ≤ 8 := by
  unfold closeHead
  split <;> split <;> omega

theorem IsClose.shortLength (h : IsClose frame) :
    shortLength frame.payload.length = frame.payload.length := by
  have hsmall := h.small
  rw [Ws.shortLength, if_pos (by omega)]

theorem CloseTurn.mono {stream : Bytes} {rx₁ rx₂ : List Rx} {result : Turn × Websock × List Rx}
    (hlen : rx₁.length ≤ rx₂.length) (h : CloseTurn frame stream rx₁ result) :
    CloseTurn frame stream rx₂ result := by
  obtain ⟨turn, ws, rx'⟩ := result
  cases turn with
  | back rc => exact ⟨h.1, h.2.imp_right fun hlt => by omega⟩
  | frame => exact h
  | loop => exact h
  | tooLongError => exact h
  | protocolError => exact h

theorem turnLength_close (h : IsClose frame) (hseen : Seen (frame.wire ++ rest) ws rx)
    (hstate : ws.state = .length) (hszhead : ws.szhead = closeHead frame.payload frame.key)
    (hmax : ws.maxlength = 65000) :
    CloseTurn frame (frame.wire ++ rest) rx (turnLength ws rx) := by
  obtain ⟨header, lenhead, rx', hseen', hcase⟩ := turnLength_read hseen
  have hsize := closeHead_le frame.payload frame.key
  rcases hcase with ⟨hfull, hbound, hturn⟩ | ⟨hpart, hused, rc, hrc, hturn⟩
  · have hbyte : ∀ i < closeHead frame.payload frame.key,
        Websock.byte { ws with header := header, lenhead := lenhead } i =
          (frame.wire ++ rest).getD i 0 :=
      fun i hi => hseen'.byte (by simp only; omega)
    have hfirst : header.getD 0 0 = frameFirst frame.fin frame.opcode := hbyte 0 (by omega)
    have hsecond : header.getD 1 0 = frame.second := hbyte 1 (by omega)
    have hknown : ∀ code, frame.opcode ≠ .reserved code := by simp [h.opcode]
    have hop : frameGetOpcode (header.getD 0 0) = .close := by
      rw [hfirst, frameGetOpcode_first frame.fin hknown, h.opcode]
    obtain ⟨hrsv1, hrsv2, hrsv3⟩ := frameGetRsv_first frame.fin hknown
    have hsmall := h.small
    have hlength : headerLength { ws with header := header, lenhead := lenhead } =
        frame.payload.length - 2 := by
      have h127 : frame.payload.length ≠ 127 := by omega
      have h126 : frame.payload.length ≠ 126 := by omega
      simp only [headerLength, Websock.opcode, Websock.byte, hop, hsecond,
        frameGetPayloadLen_second, h.shortLength, true_and, h127, h126, if_false]
      split
      · rename_i hne
        have htwo := h.coded (List.length_pos_iff.mp (Nat.pos_of_ne_zero hne))
        omega
      · omega
    rw [hturn, turnLength, readHeader_complete hfull]
    have hcomplete : ¬ lenhead < ws.szhead := by omega
    have hfits : ¬ frame.payload.length - 2 > ws.maxlength := by omega
    simp only [hcomplete, hlength, hfits, Websock.byte, hfirst, hrsv1, hrsv2, hrsv3, if_false,
      Bool.false_eq_true]
    exact
      { state := rfl
        opcode := hop
        szhead := hszhead
        byte := hbyte
        length := rfl
        mask := rfl
        coming := by rw [hseen'.coming, hfull, hszhead]
        delays := hseen'.delays }
  · rw [hturn]
    exact ⟨⟨hmax, Or.inr ⟨hstate, hszhead⟩, hpart, hseen'⟩, hused⟩

theorem fastTrack_close (h : IsClose frame) (hfirst : ws.byte 0 = frameFirst frame.fin frame.opcode)
    (hsecond : ws.byte 1 = frame.second) :
    fastTrack ws =
      some { ws with szhead := ws.szhead + if frame.payload = [] then 0 else 2 } := by
  have hknown : ∀ code, frame.opcode ≠ .reserved code := by simp [h.opcode]
  have hop : ws.opcode = .close := by
    rw [Websock.opcode, hfirst, frameGetOpcode_first frame.fin hknown, h.opcode]
  obtain ⟨hrsv1, hrsv2, hrsv3⟩ := frameGetRsv_first frame.fin hknown
  have hlen : frameGetPayloadLen (ws.byte 1) = frame.payload.length := by
    rw [hsecond, frameGetPayloadLen_second, h.shortLength]
  have hshort : ¬ frame.payload.length > 125 := Nat.not_lt.mpr h.small
  have hnotone : frame.payload.length ≠ 1 := by
    intro hone
    have htwo := h.coded (by intro hnil; rw [hnil] at hone; cases hone)
    omega
  have hcheck : checkControlHeader ws = true := by
    simp only [checkControlHeader, hfirst, hrsv1, hrsv2, hrsv3, hlen, hshort, hop, if_false,
      if_true, Bool.false_eq_true, hnotone, ne_eq, not_false_eq_true, decide_true]
  unfold fastTrack
  rw [hop]
  simp only [hcheck, Bool.not_true, Bool.false_eq_true, if_false, hlen]
  by_cases hnil : frame.payload = []
  · simp [hnil]
  · simp [hnil]

theorem turnStart_close (h : IsClose frame) (hseen : Seen (frame.wire ++ rest) ws rx)
    (hstate : ws.state = .start) (hszhead : ws.szhead = 2) (hmax : ws.maxlength = 65000) :
    CloseTurn frame (frame.wire ++ rest) rx (turnStart ws rx) := by
  obtain ⟨header, lenhead, rx', hseen', hcase⟩ := turnStart_read hseen
  rcases hcase with ⟨hfull, hbound, hturn⟩ | ⟨hpart, hused, rc, hrc, hturn⟩
  · rcases hseen'.opening (by simp only; omega) with ⟨hfirst, hsecond⟩
    have hcomplete : ¬ lenhead < ws.szhead := by omega
    have hsmall := h.small
    have hheading : headingSize frame.second = if frame.key.isSome then 4 else 0 := by
      rw [headingSize, frameGetPayloadLen_second, frameGetMask_second, h.shortLength,
        if_neg (by omega), if_neg (by omega), Nat.zero_add]
    have hsize := closeHead_le frame.payload frame.key
    have hopened : ws.szhead + (if frame.payload = [] then 0 else 2) + headingSize frame.second =
        closeHead frame.payload frame.key := by rw [hheading, hszhead, closeHead]
    have hsecond' : header.getD 1 0 = frame.second := hsecond
    rw [hturn, turnStart, readHeader_complete hfull]
    simp only [hcomplete, if_false, fastTrack_close h hfirst hsecond, Websock.byte, hsecond']
    refine CloseTurn.mono hbound (turnLength_close h ?_ rfl hopened hmax)
    exact { hseen' with
      fits := by simp only; omega
      within := by simp only; omega }
  · rw [hturn]
    exact ⟨⟨hmax, Or.inl ⟨hstate, hszhead⟩, hpart, hseen'⟩, hused⟩

theorem closeHead_wire (h : IsClose frame) :
    closeHead frame.payload frame.key ≤ frame.wire.length := by
  have hkey := keyBytes_length frame
  rw [Frame.wire, List.length_append, body_length, Frame.head, List.length_cons, List.length_cons,
    List.length_append, hkey, closeHead]
  by_cases hnil : frame.payload = []
  · rw [if_pos hnil]
    omega
  · have htwo := h.coded hnil
    rw [if_neg hnil]
    omega

/-- However the header is cut, it is read in the end. -/
theorem dispatchFrame_awaited {turns : Nat} (h : IsClose frame)
    (hawaited : CloseAwaited frame (frame.wire ++ rest) ws rx) (hturns : rx.length < turns) :
    ∃ ws' rx', dispatchFrame turns ws rx = some (ws', rx') ∧
      CloseOpened frame (frame.wire ++ rest) ws' rx' := by
  induction turns generalizing ws rx with
  | zero => omega
  | succ turns ih =>
      have hturn : CloseTurn frame (frame.wire ++ rest) rx (websockTurn ws rx) := by
        unfold websockTurn
        rcases hawaited.phase with ⟨hstate, hszhead⟩ | ⟨hstate, hszhead⟩
        · rw [hstate]
          exact turnStart_close h hawaited.seen hstate hszhead hawaited.maxlength
        · rw [hstate]
          exact turnLength_close h hawaited.seen hstate hszhead hawaited.maxlength
      rw [dispatchFrame]
      cases hresult : websockTurn ws rx with
      | mk turn result =>
          obtain ⟨ws', rx'⟩ := result
          rw [hresult] at hturn
          cases turn with
          | frame => exact ⟨ws', rx', rfl, hturn⟩
          | back rc =>
              apply ih hturn.1
              rcases hturn.2 with hnone | hless
              · -- with nothing to come the header would be complete
                have hleft := congrArg List.length hturn.1.seen.coming
                have hincomplete := hturn.1.incomplete
                have hwire := closeHead_wire h
                have hsize := closeHead_le frame.payload frame.key
                rw [hnone, List.length_drop, List.length_append] at hleft
                simp only [arriving, List.length_nil] at hleft
                rcases hturn.1.phase with ⟨-, hszhead⟩ | ⟨-, hszhead⟩
                · omega
                · omega
              · omega
          | loop => exact hturn.elim
          | tooLongError => exact hturn.elim
          | protocolError => exact hturn.elim

theorem dispatchFrame_start {turns : Nat} (h : IsClose frame) (hmax : ws.maxlength = 65000)
    (hroom : ws.header.length = 14) (hstate : ws.state = .start) (hszhead : ws.szhead = 2)
    (hlenhead : ws.lenhead = 0) (hdelays : ∀ entry ∈ rx, entry.delays = true)
    (hcoming : arriving rx = frame.wire ++ rest) (hturns : rx.length < turns) :
    ∃ ws' rx', dispatchFrame turns ws rx = some (ws', rx') ∧
      CloseOpened frame (frame.wire ++ rest) ws' rx' := by
  apply dispatchFrame_awaited h _ hturns
  refine ⟨hmax, Or.inl ⟨hstate, hszhead⟩, by omega, ?_⟩
  exact
    { room := hroom
      fits := by omega
      within := by omega
      available := by omega
      header := by simp [hlenhead]
      coming := by simpa [hlenhead] using hcoming
      delays := hdelays }

theorem dispatchFrame_init (turns : Nat) (hstate : ws.state = .init) :
    dispatchFrame (turns + 1) ws rx =
      dispatchFrame (turns + 1) { ws with lenhead := 0, szhead := 2, state := .start } rx := by
  rw [dispatchFrame, dispatchFrame, websockTurn, hstate, websockTurn]

theorem dispatchFrame_close (h : IsClose frame) (hbetween : BetweenFrames ws)
    (hdelays : ∀ entry ∈ rx, entry.delays = true) (hcoming : arriving rx = frame.wire ++ rest) :
    ∃ ws' rx', dispatchFrame (rx.length + 2) ws rx = some (ws', rx') ∧
      CloseOpened frame (frame.wire ++ rest) ws' rx' := by
  obtain ⟨hmax, hroom, hstate | ⟨hstate, hlength⟩ | ⟨hstate, hszhead, hlenhead⟩⟩ := hbetween
  · rw [dispatchFrame_init _ hstate]
    exact dispatchFrame_start h hmax hroom rfl rfl rfl hdelays hcoming (by omega)
  · have hloop : dispatchFrame (rx.length + 2) ws rx =
        dispatchFrame (rx.length + 1) { ws with state := .init } rx := by
      rw [dispatchFrame, websockTurn, hstate]
      simp only [hlength, ne_eq, not_true_eq_false, if_false]
    rw [hloop, dispatchFrame_init _ rfl]
    exact dispatchFrame_start h hmax hroom rfl rfl rfl hdelays hcoming (by omega)
  · exact dispatchFrame_start h hmax hroom hstate hszhead hlenhead hdelays hcoming (by omega)

/-! ## What is received -/

/-- The call of `on_close` and the reads give the code and the reason when the header and
the mask do. -/
theorem closesWith_iff {stream raw reason : Bytes} {code : Nat} {ws' : Websock} {rx' : List Rx}
    (hrun : dispatchFrame (rx.length + 2) ws rx = some (ws', rx'))
    (hopened : CloseOpened frame stream ws' rx') (hlength : ws'.length = raw.length)
    (hreason : raw.length = reason.length) (hcoming : arriving rx' = raw ++ rest) :
    ClosesWith code reason ws rx ↔
      closeCode ws' = code ∧ (unmaskBytes ws'.mask raw).2 = reason := by
  have hreads := fun calls => websockReads_spec calls hopened.state hlength hcoming hopened.delays
  constructor
  · intro hcloses
    obtain ⟨last, script, hlast, -, hcode, -, hall⟩ := hcloses
    rw [hrun] at hlast
    cases hlast
    refine ⟨hcode, ?_⟩
    -- as many reads of one byte as it takes
    have henough := hall (List.replicate (rx'.length + reason.length) (0, 1))
    have hsizes : ∀ call ∈ List.replicate (rx'.length + reason.length) (0, 1), 0 < call.2 := by
      intro call hcall
      rw [List.eq_of_mem_replicate hcall]
      exact Nat.one_pos
    have hcount : rx'.length + reason.length ≤
        (List.replicate (rx'.length + reason.length) (0, 1)).length :=
      Nat.le_of_eq List.length_replicate.symm
    rw [← (hreads _).2 hsizes (by rw [hreason]; exact hcount)]
    exact henough.2 hsizes hcount
  · rintro ⟨hcode, hplain⟩
    refine ⟨ws', rx', hrun, hopened.opcode, hcode, hlength.trans hreason, fun calls => ?_⟩
    have hcalls := hreads calls
    rw [hplain, hreason] at hcalls
    exact hcalls

/-- The code ends the header. -/
theorem closeCode_coded {front raw : Bytes} {b0 b1 : UInt8}
    (hopened : CloseOpened frame (front ++ b0 :: b1 :: raw) ws rx)
    (hfront : front.length + 2 = closeHead frame.payload frame.key) :
    arriving rx = raw ∧ ws.byte (ws.szhead - 2) = b0 ∧ ws.byte (ws.szhead - 1) = b1 ∧
      ∀ i < front.length, ws.byte i = front.getD i 0 := by
  have hszhead := hopened.szhead
  have hcoming := hopened.coming
  refine ⟨?_, ?_, ?_, fun i hi => ?_⟩
  · rw [hcoming, ← hfront, ← List.drop_drop, List.drop_left]
    rfl
  · have hpos : ws.szhead - 2 = front.length := by omega
    rw [hpos, hopened.byte _ (by omega)]
    simp
  · have hpos : ws.szhead - 1 = front.length + 1 := by omega
    rw [hpos, hopened.byte _ (by omega)]
    simp
  · rw [hopened.byte _ (by omega)]
    simp [List.getElem?_append_left hi]

/-! ## Two masks -/

def Mask.combine (mask key : Mask) : Mask :=
  ⟨mask.m0 ^^^ key.m0, mask.m1 ^^^ key.m1, mask.m2 ^^^ key.m2, mask.m3 ^^^ key.m3⟩

theorem unmaskBytes_unmaskBytes (mask key : Mask) (data : Bytes) :
    (unmaskBytes mask (unmaskBytes key data).2).2 = (unmaskBytes (mask.combine key) data).2 := by
  induction data generalizing mask key with
  | nil => rfl
  | cons b rest ih =>
      have hrotate : mask.rotate.combine key.rotate = (mask.combine key).rotate := rfl
      have hbyte : b ^^^ key.m0 ^^^ mask.m0 = b ^^^ (mask.combine key).m0 := by
        rw [UInt8.xor_assoc, UInt8.xor_comm key.m0]
        rfl
      rw [unmaskBytes, unmaskBytes, unmaskBytes]
      dsimp only
      rw [ih, hrotate, hbyte]

/-- A mask whose two first octets are zero shows from the third octet on. -/
theorem unmaskBytes_late (m2 m3 : UInt8) (data : Bytes) :
    (unmaskBytes ⟨0, 0, m2, m3⟩ data).2 = data ↔
      (3 ≤ data.length → m2 = 0) ∧ (4 ≤ data.length → m3 = 0) := by
  match data with
  | [] => simp [unmaskBytes]
  | [a] => simp [unmaskBytes]
  | [a, b] => simp [unmaskBytes, Mask.rotate]
  | [a, b, c] => simp [unmaskBytes, Mask.rotate]
  | a :: b :: c :: d :: rest =>
      have hlen : 4 ≤ (a :: b :: c :: d :: rest).length := by
        simp only [List.length_cons]
        omega
      constructor
      · intro h
        simp only [unmaskBytes, Mask.rotate, List.cons.injEq, xor_left_eq_self_iff] at h
        exact ⟨fun _ => h.2.2.1, fun _ => h.2.2.2.1⟩
      · intro h
        have hzero : (⟨0, 0, m2, m3⟩ : Mask) = Mask.zero := by
          rw [h.1 (by omega), h.2 hlen]
          rfl
        rw [hzero, unmaskBytes_zero]

/-! ## The round trip -/

/-- The frames whose code and reason are received as they are sent: there is no payload,
or there is a reason and the octets that are taken for a key do not alter anything. -/
def CloseKept (code : UInt16) (reason : Bytes) (key : Option Mask) : Prop :=
  (code.toNat = codeNotSet ∧ reason = []) ∨
    (reason ≠ [] ∧ ∀ mask, key = some mask → mask.m0 = 0 ∧ mask.m1 = 0 ∧
      (3 ≤ reason.length → code.toNat / 256 = 0) ∧ (4 ≤ reason.length → code.toNat % 256 = 0))

section RoundTrip

variable {code : UInt16} {reason : Bytes}

theorem closeFrame_empty (key : Option Mask) (h : code.toNat = codeNotSet ∧ reason = []) :
    closeFrame code reason key = ⟨true, .close, key, []⟩ := by
  rw [closeFrame, Send.toFrame, if_pos h]

theorem closeFrame_coded (key : Option Mask) (h : ¬ (code.toNat = codeNotSet ∧ reason = [])) :
    closeFrame code reason key = ⟨true, .close, key,
      UInt8.ofNat (code.toNat / 256) :: UInt8.ofNat code.toNat :: reason⟩ := by
  rw [closeFrame, Send.toFrame, if_neg h]
  simp [bigEndian, List.range_succ]

theorem closeFrame_isClose (key : Option Mask) (hreason : reason.length ≤ 123) :
    IsClose (closeFrame code reason key) := by
  by_cases hnone : code.toNat = codeNotSet ∧ reason = []
  · rw [closeFrame_empty key hnone]
    exact ⟨rfl, Nat.zero_le _, fun hne => absurd rfl hne⟩
  · rw [closeFrame_coded key hnone]
    refine ⟨rfl, ?_, fun _ => ?_⟩
    · simp only [List.length_cons]
      omega
    · simp only [List.length_cons]
      omega

theorem closeWire_eq (key : Option Mask) (hreason : reason.length ≤ 123) :
    closeWire code reason key = (closeFrame code reason key).wire := by
  cases key with
  | some key => rfl
  | none =>
      have haccepted : ¬ (Send.close code reason).Refused := Nat.not_lt.mpr hreason
      have hkey : (Send.close code reason).toFrame = closeFrame code reason none := by
        by_cases hnone : code.toNat = codeNotSet ∧ reason = []
        · rw [closeFrame_empty none hnone, Send.toFrame, if_pos hnone]
        · rw [closeFrame, Send.toFrame, if_neg hnone]
      have hsent : websockClose code reason [] = handed (Send.close code reason).frame [] :=
        Send.websock_eq haccepted []
      rw [closeWire, hsent, Send.frame, hkey]
      rfl

/-- What is received of a frame with a code. -/
theorem closeFrame_received {key : Option Mask} {rest : Bytes} (hreason : reason.length ≤ 123)
    (h : ¬ (code.toNat = codeNotSet ∧ reason = []))
    (hopened : CloseOpened (closeFrame code reason key)
      ((closeFrame code reason key).wire ++ rest) ws rx) :
    ∃ b0 b1 raw, b0 = UInt8.ofNat (code.toNat / 256) ^^^ (key.getD Mask.zero).m0 ∧
      b1 = UInt8.ofNat code.toNat ^^^ (key.getD Mask.zero).m1 ∧
      raw = (unmaskBytes (key.getD Mask.zero).rotate.rotate reason).2 ∧
      arriving rx = raw ++ rest ∧ ws.length = reason.length ∧
      closeCode ws = (if reason.length = 0 then codeNotSet else b0.toNat * 256 + b1.toNat) ∧
      ws.mask = (key.map fun mask => ⟨mask.m2, mask.m3, b0, b1⟩).getD Mask.zero := by
  have hclose := @closeFrame_isClose code reason key hreason
  have hframe := closeFrame_coded key h
  have hlength : ws.length = reason.length := by
    rw [hopened.length, hframe]
    rfl
  have hbody : (closeFrame code reason key).body =
      (UInt8.ofNat (code.toNat / 256) ^^^ (key.getD Mask.zero).m0) ::
      (UInt8.ofNat code.toNat ^^^ (key.getD Mask.zero).m1) ::
      (unmaskBytes (key.getD Mask.zero).rotate.rotate reason).2 := by
    rw [body_eq, hframe]
    rfl
  have hhead : (closeFrame code reason key).head =
      frameFirst true .close :: (closeFrame code reason key).second ::
        (key.map Mask.bytes).getD [] := by
    have hshort : (closeFrame code reason key).payload.length < 126 := by
      have := hclose.small
      omega
    rw [Frame.head, extendedLength, if_pos hshort, hframe]
    rfl
  generalize hb0 : UInt8.ofNat (code.toNat / 256) ^^^ (key.getD Mask.zero).m0 = b0 at hbody
  generalize hb1 : UInt8.ofNat code.toNat ^^^ (key.getD Mask.zero).m1 = b1 at hbody
  generalize hraw : (unmaskBytes (key.getD Mask.zero).rotate.rotate reason).2 = raw at hbody
  have hstream : (closeFrame code reason key).wire ++ rest =
      (closeFrame code reason key).head ++ b0 :: b1 :: (raw ++ rest) := by
    rw [Frame.wire, hbody]
    simp
  have hfront : (closeFrame code reason key).head.length + 2 =
      closeHead (closeFrame code reason key).payload (closeFrame code reason key).key := by
    rw [hhead, hframe, closeHead]
    cases key with
    | none => rfl
    | some mask => rfl
  rw [hstream] at hopened
  obtain ⟨hcoming, hbyte0, hbyte1, hbytes⟩ := closeCode_coded hopened hfront
  refine ⟨b0, b1, raw, rfl, rfl, rfl, hcoming, hlength, ?_, ?_⟩
  · rw [closeCode, hbyte0, hbyte1, hlength]
  · have hsecond : ws.byte 1 = (closeFrame code reason key).second := by
      rw [hbytes 1 (head_two _), hhead]
      rfl
    have hkey : (closeFrame code reason key).key = key := rfl
    rw [hopened.mask, headerMask, hsecond, frameGetMask_second, hkey, hbyte0, hbyte1]
    cases key with
    | none => rfl
    | some mask =>
        have hszhead : ws.szhead = 8 := by
          rw [hopened.szhead, hframe]
          rfl
        have hfour : ws.byte 4 = mask.m2 := by
          rw [hbytes 4 (by rw [hhead]; simp [Mask.bytes]), hhead]
          rfl
        have hfive : ws.byte 5 = mask.m3 := by
          rw [hbytes 5 (by rw [hhead]; simp [Mask.bytes]), hhead]
          rfl
        simp [hszhead, hfour, hfive]

theorem octets_toNat (code : UInt16) :
    (UInt8.ofNat (code.toNat / 256)).toNat = code.toNat / 256 ∧
      (UInt8.ofNat code.toNat).toNat = code.toNat % 256 := by
  have hlt := code.toNat_lt
  rw [UInt8.toNat_ofNat', UInt8.toNat_ofNat']
  omega

/-- The code read from its two octets under a key. -/
theorem code_kept_iff (code : UInt16) (m0 m1 : UInt8) :
    (UInt8.ofNat (code.toNat / 256) ^^^ m0).toNat * 256 + (UInt8.ofNat code.toNat ^^^ m1).toNat =
      code.toNat ↔ m0 = 0 ∧ m1 = 0 := by
  have hoctets := octets_toNat code
  constructor
  · intro h
    have hlow := (UInt8.ofNat code.toNat ^^^ m1).toNat_lt
    have hhigh : (UInt8.ofNat (code.toNat / 256) ^^^ m0).toNat =
        (UInt8.ofNat (code.toNat / 256)).toNat := by omega
    have hlast : (UInt8.ofNat code.toNat ^^^ m1).toNat = (UInt8.ofNat code.toNat).toNat := by omega
    exact ⟨xor_left_eq_self_iff.mp (UInt8.toNat_inj.mp hhigh),
      xor_left_eq_self_iff.mp (UInt8.toNat_inj.mp hlast)⟩
  · rintro ⟨rfl, rfl⟩
    rw [UInt8.xor_zero, UInt8.xor_zero]
    omega

/-- The reason read under the octets taken for a key. -/
theorem reason_kept_iff (mask : Mask) (reason : Bytes) (c1 c0 : UInt8) :
    (unmaskBytes ⟨mask.m2, mask.m3, c1 ^^^ mask.m0, c0 ^^^ mask.m1⟩
        (unmaskBytes mask.rotate.rotate reason).2).2 = reason ↔
      (3 ≤ reason.length → c1 = 0) ∧ (4 ≤ reason.length → c0 = 0) := by
  have hcombine : Mask.combine ⟨mask.m2, mask.m3, c1 ^^^ mask.m0, c0 ^^^ mask.m1⟩
      mask.rotate.rotate = ⟨0, 0, c1, c0⟩ := by
    simp [Mask.combine, Mask.rotate]
  rw [unmaskBytes_unmaskBytes, hcombine, unmaskBytes_late]

theorem octet_zero_iff (code : UInt16) :
    (UInt8.ofNat (code.toNat / 256) = 0 ↔ code.toNat / 256 = 0) ∧
      (UInt8.ofNat code.toNat = 0 ↔ code.toNat % 256 = 0) := by
  have hoctets := octets_toNat code
  rw [← UInt8.toNat_inj, ← UInt8.toNat_inj, hoctets.1, hoctets.2]
  exact ⟨Iff.rfl, Iff.rfl⟩

/-- A close frame is received as it was sent, its code and its reason, exactly when it
has no payload, or has a reason and is not masked, or has a reason and a key and a code
that `websock_dispatch` does not mix up. -/
theorem close_round_trip_iff (code : UInt16) (reason : Bytes) (key : Option Mask) (rest : Bytes)
    (hreason : reason.length ≤ 123) {ws : Websock} {rx : List Rx} (hbetween : BetweenFrames ws)
    (hdelays : ∀ entry ∈ rx, entry.delays = true)
    (hcoming : arriving rx = closeWire code reason key ++ rest) :
    ClosesWith code.toNat reason ws rx ↔ CloseKept code reason key := by
  have hclose := @closeFrame_isClose code reason key hreason
  rw [closeWire_eq key hreason] at hcoming
  obtain ⟨ws', rx', hrun, hopened⟩ := dispatchFrame_close hclose hbetween hdelays hcoming
  by_cases hnone : code.toNat = codeNotSet ∧ reason = []
  · -- no payload
    have hframe := closeFrame_empty key hnone
    have hlength : ws'.length = 0 := by rw [hopened.length, hframe]; rfl
    have hcode : closeCode ws' = code.toNat := by rw [closeCode, if_pos hlength, hnone.1]
    have hiff := @closesWith_iff _ (arriving rx') _ _ _ [] reason code.toNat _ _ hrun hopened hlength
      (by rw [hnone.2]) rfl
    rw [hiff]
    exact ⟨fun _ => Or.inl hnone, fun _ => ⟨hcode, hnone.2.symm⟩⟩
  · obtain ⟨b0, b1, raw, hb0, hb1, hraw, hrest, hlength, hcode, hmask⟩ :=
      closeFrame_received hreason hnone hopened
    have hrawLength : raw.length = reason.length := by rw [hraw, unmaskBytes_length]
    rw [closesWith_iff hrun hopened (hlength.trans hrawLength.symm) hrawLength hrest, hcode, hmask]
    by_cases hempty : reason = []
    · -- the length left is zero, as without a code
      rw [if_pos (by rw [hempty]; rfl)]
      constructor
      · intro h
        exact absurd ⟨h.1.symm, hempty⟩ hnone
      · intro h
        rcases h with h | h
        · exact absurd h hnone
        · exact absurd hempty h.1
    · have hne : reason.length ≠ 0 := fun h => hempty (List.eq_nil_of_length_eq_zero h)
      rw [if_neg hne]
      have hsplit : CloseKept code reason key ↔ ∀ mask, key = some mask → mask.m0 = 0 ∧
          mask.m1 = 0 ∧ (3 ≤ reason.length → code.toNat / 256 = 0) ∧
          (4 ≤ reason.length → code.toNat % 256 = 0) :=
        ⟨fun h => (h.resolve_left hnone).2, fun h => Or.inr ⟨hempty, h⟩⟩
      rw [hsplit]
      cases key with
      | none =>
          have hzero : Mask.zero.rotate.rotate = Mask.zero := rfl
          have hkept : b0.toNat * 256 + b1.toNat = code.toNat := by
            rw [hb0, hb1]
            exact (code_kept_iff code 0 0).mpr ⟨rfl, rfl⟩
          have hplain : (unmaskBytes Mask.zero raw).2 = reason := by
            rw [hraw, Option.getD_none, hzero, unmaskBytes_zero, unmaskBytes_zero]
          constructor
          · intro _ mask hmask
            cases hmask
          · exact fun _ => ⟨hkept, hplain⟩
      | some mask =>
          have hoctets := octet_zero_iff code
          rw [Option.map_some, Option.getD_some, hraw, hb0, hb1, Option.getD_some, code_kept_iff,
            reason_kept_iff, hoctets.1, hoctets.2]
          constructor
          · rintro ⟨⟨h0, h1⟩, h2, h3⟩ key hkey
            cases hkey
            exact ⟨h0, h1, h2, h3⟩
          · intro h
            obtain ⟨h0, h1, h2, h3⟩ := h mask rfl
            exact ⟨⟨h0, h1⟩, h2, h3⟩

/-- The code 1000 and the reason `bye`, in two pieces. -/
theorem close_round_trip_iff_bye :
    ClosesWith 1000 [98, 121, 101] websockCreateV13
      [.data 136 [5, 3], .again, .data 232 [98, 121, 101]] := by
  apply (close_round_trip_iff 1000 [98, 121, 101] none [] (by decide) ⟨rfl, rfl, Or.inl rfl⟩
    (by decide) (by decide)).mpr
  exact Or.inr ⟨by decide, fun mask h => by cases h⟩

/-- The code 1000 without reason is received as no code. -/
theorem close_code_lost :
    ¬ ∀ (code : UInt16) (reason : Bytes) (key : Option Mask) (rest : Bytes) (ws : Websock)
        (rx : List Rx), reason.length ≤ 123 → BetweenFrames ws →
        (∀ entry ∈ rx, entry.delays = true) → arriving rx = closeWire code reason key ++ rest →
        ClosesWith code.toNat reason ws rx := by
  intro h
  obtain ⟨ws', rx', hrun, -, hcode, -⟩ := h 1000 [] none [] websockCreateV13
    [.data 136 [2, 3, 232]] (by decide) ⟨rfl, rfl, Or.inl rfl⟩ (by decide) (by decide)
  cases hrun
  exact absurd hcode (by decide)

end RoundTrip

end AfbBinder.Ws
