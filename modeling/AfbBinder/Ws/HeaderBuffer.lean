import Mathlib.Data.List.Basic
import AfbBinder.Lib.Run
import AfbBinder.Ws.Websock

/-!
# The header buffer

`websock_dispatch` reads the header of a frame by pieces into the 14 bytes of `header`:
`lenhead` of them are there, `szhead` are asked for.  `szhead` grows with what the first
bytes say, and an error leaves it as it is until the next call.  Here are the places where
a turn reads the transport and where it uses the bytes, over all the runs of a websocket.
-/

namespace AfbBinder.Ws

open Lib

/-! ## Runs -/

inductive WebsockAct where
  | turn
  | read (address size : Nat)
  | restart
deriving DecidableEq, Repr

/-- What can happen to a websocket: a turn of `websock_dispatch`, which the loop or a later
call makes whatever the turn before ended with; a `websock_read` by a callback, by
`websock_drop` or between two dispatches; `STATE_INIT` after a ping or a pong. -/
inductive WebsockStep : Websock × List Rx → WebsockAct → Websock × List Rx → Prop
  | turn {ws ws' : Websock} {rx rx' : List Rx} {result : Turn} :
      websockTurn ws rx = (result, ws', rx') → WebsockStep (ws, rx) .turn (ws', rx')
  | read {ws ws' : Websock} {rx rx' : List Rx} {address size : Nat} {received : Received} :
      websockRead ws address size rx = (received, ws', rx') →
      WebsockStep (ws, rx) (.read address size) (ws', rx')
  | restart {ws : Websock} {rx : List Rx} :
      ws.state = .data → (ws.opcode = .ping ∨ ws.opcode = .pong) →
      WebsockStep (ws, rx) .restart ({ ws with state := .init }, rx)

/-! ## Reads and uses of a turn -/

/-- The websocket at each call of `read_header`, and at each use of header bytes with the
indices used. -/
structure Points where
  reads : List Websock
  uses : List (Websock × List Int)

/-- The indices that the length, the mask, the code of a close and the tests of
`websock_dispatch` use. -/
def headingIndices (ws : Websock) : List Int :=
  [0, 1] ++
    (if frameGetPayloadLen (ws.byte 1) = 127 then [2, 3, 4, 5, 6, 7, 8, 9]
      else if frameGetPayloadLen (ws.byte 1) = 126 then [2, 3]
      else []) ++
    (if frameGetMask (ws.byte 1) then
      [(ws.szhead : Int) - 4, (ws.szhead : Int) - 3, (ws.szhead : Int) - 2, (ws.szhead : Int) - 1]
      else []) ++
    (if ws.opcode = .close ∧ frameGetPayloadLen (ws.byte 1) ≠ 0 then
      [(ws.szhead : Int) - 2, (ws.szhead : Int) - 1]
      else [])

/-- In `turnLength`. -/
def lengthPoints (ws : Websock) (rx : List Rx) : Points where
  reads := [ws]
  uses :=
    match readHeader ws rx with
    | (.error _, _, _) => []
    | (.ok, ws, _) => if ws.lenhead < ws.szhead then [] else [(ws, headingIndices ws)]

/-- In `turnStart`; the fast track looks at the two first bytes. -/
def startPoints (ws : Websock) (rx : List Rx) : Points :=
  match readHeader ws rx with
  | (.error _, _, _) => ⟨[ws], []⟩
  | (.ok, ws', rx) =>
      if ws'.lenhead < ws'.szhead then ⟨[ws], []⟩
      else
        match fastTrack ws' with
        | none => ⟨[ws], [(ws', [0, 1])]⟩
        | some ws'' =>
            let next := lengthPoints { ws'' with
              szhead := ws''.szhead + headingSize (ws''.byte 1)
              state := .length } rx
            ⟨ws :: next.reads, (ws', [0, 1]) :: next.uses⟩

/-- In `websockTurn`. -/
def turnPoints (ws : Websock) (rx : List Rx) : Points :=
  match ws.state with
  | .init => startPoints { ws with lenhead := 0, szhead := 2, state := .start } rx
  | .start => startPoints ws rx
  | .length => lengthPoints ws rx
  | .data => ⟨[], []⟩

/-- The buffer is not overrun: the bytes asked for fit it at each read, and the bytes used
have been read. -/
structure Points.Kept (points : Points) : Prop where
  reads : ∀ ws ∈ points.reads, ws.lenhead ≤ ws.szhead ∧ ws.szhead ≤ 14
  uses : ∀ use ∈ points.uses, ∀ i ∈ use.2, 0 ≤ i ∧ i < use.1.lenhead

section Congr

variable {ws ws' : Websock}

theorem headerLength_congr
    (h : ∀ i : Nat, (i : Int) ∈ headingIndices ws → ws.byte i = ws'.byte i) :
    headerLength ws = headerLength ws' := by
  have h0 : ws.byte 0 = ws'.byte 0 := h 0 (by simp [headingIndices])
  have h1 : ws.byte 1 = ws'.byte 1 := h 1 (by simp [headingIndices])
  have hopcode : ws.opcode = ws'.opcode := congrArg frameGetOpcode h0
  have hnumber : ∀ count, (∀ i < count, ((2 + i : Nat) : Int) ∈ headingIndices ws) →
      ws.number 2 count = ws'.number 2 count := by
    intro count hin
    unfold Websock.number
    apply List.foldl_ext
    intro acc i hi
    rw [h (2 + i) (hin i (List.mem_range.mp hi))]
  unfold headerLength
  rw [← h1, ← hopcode]
  by_cases h127 : frameGetPayloadLen (ws.byte 1) = 127
  · have height := hnumber 8 (by
      intro i hi
      simp only [headingIndices, if_pos h127, List.mem_append, List.mem_cons]
      omega)
    simp only [if_pos h127, height]
  · by_cases h126 : frameGetPayloadLen (ws.byte 1) = 126
    · have htwo := hnumber 2 (by
        intro i hi
        simp only [headingIndices, if_neg h127, if_pos h126, List.mem_append, List.mem_cons]
        omega)
      simp only [if_neg h127, if_pos h126, htwo]
    · simp only [if_neg h127, if_neg h126]

theorem headerMask_congr (hszhead : ws.szhead = ws'.szhead) (hmask : 4 ≤ ws.szhead)
    (h : ∀ i : Nat, (i : Int) ∈ headingIndices ws → ws.byte i = ws'.byte i) :
    headerMask ws = headerMask ws' := by
  have h1 : ws.byte 1 = ws'.byte 1 := h 1 (by simp [headingIndices])
  unfold headerMask
  rw [← h1, ← hszhead]
  by_cases hbit : frameGetMask (ws.byte 1) = true
  · have hin : ∀ k, 1 ≤ k → k ≤ 4 → ws.byte (ws.szhead - k) = ws'.byte (ws.szhead - k) := by
      intro k hpos hk
      apply h
      simp only [headingIndices, if_pos hbit, List.mem_append, List.mem_cons]
      omega
    rw [if_pos hbit, if_pos hbit, hin 4 (by omega) (by omega), hin 3 (by omega) (by omega),
      hin 2 (by omega) (by omega), hin 1 (by omega) (by omega)]
  · rw [if_neg hbit, if_neg hbit]

theorem closeCode_congr (hszhead : ws.szhead = ws'.szhead) (hlength : ws.length = ws'.length)
    (htwo : 2 ≤ ws.szhead) (hclose : ws.opcode = .close)
    (hlen : frameGetPayloadLen (ws.byte 1) ≠ 0)
    (h : ∀ i : Nat, (i : Int) ∈ headingIndices ws → ws.byte i = ws'.byte i) :
    closeCode ws = closeCode ws' := by
  have hin : ∀ k, 1 ≤ k → k ≤ 2 → ws.byte (ws.szhead - k) = ws'.byte (ws.szhead - k) := by
    intro k hpos hk
    apply h
    simp only [headingIndices, if_pos (And.intro hclose hlen), List.mem_append, List.mem_cons]
    omega
  unfold closeCode
  rw [← hlength, ← hszhead, hin 2 (by omega) (by omega), hin 1 (by omega) (by omega)]

/-- The values used depend on the bytes at these indices only. -/
theorem heading_congr (hszhead : ws.szhead = ws'.szhead) (hlength : ws.length = ws'.length)
    (hmask : 4 ≤ ws.szhead)
    (h : ∀ i : Nat, (i : Int) ∈ headingIndices ws → ws.byte i = ws'.byte i) :
    headerLength ws = headerLength ws' ∧ headerMask ws = headerMask ws' ∧
      (ws.opcode = .close → frameGetPayloadLen (ws.byte 1) ≠ 0 → closeCode ws = closeCode ws') := by
  refine ⟨headerLength_congr h, headerMask_congr hszhead hmask h, ?_⟩
  intro hclose hlen
  exact closeCode_congr hszhead hlength (Nat.le_trans (by decide) hmask) hclose hlen h

end Congr

/-- A call of `read_header` by a websocket whose header fits. -/
theorem Points.Kept.read {ws : Websock} (hwithin : ws.lenhead ≤ ws.szhead) (hle : ws.szhead ≤ 14) :
    Points.Kept ⟨[ws], []⟩ :=
  ⟨List.forall_mem_singleton.mpr ⟨hwithin, hle⟩, List.forall_mem_nil _⟩

/-- The use of a header that this call has completed, before other points. -/
theorem Points.Kept.then_use {ws ws' : Websock} {indices : List Int} {next : Points}
    (h : Points.Kept ⟨[ws], []⟩) (huse : ∀ i ∈ indices, 0 ≤ i ∧ i < ws'.lenhead) (hnext : next.Kept) :
    Points.Kept ⟨ws :: next.reads, (ws', indices) :: next.uses⟩ :=
  ⟨List.forall_mem_cons.mpr ⟨h.reads ws List.mem_cons_self, hnext.reads⟩,
    List.forall_mem_cons.mpr ⟨huse, hnext.uses⟩⟩

theorem Points.Kept.none : Points.Kept ⟨[], []⟩ := ⟨List.forall_mem_nil _, List.forall_mem_nil _⟩

/-! ## The invariant -/

/-- The size of the header that starts with the two first bytes. -/
def fullSize (ws : Websock) : Nat :=
  2 + (if ws.opcode = .close ∧ frameGetPayloadLen (ws.byte 1) ≠ 0 then 2 else 0) +
    headingSize (ws.byte 1)

/-- `check_control_header` has passed for a close. -/
def ShortClose (ws : Websock) : Prop := ws.opcode = .close → frameGetPayloadLen (ws.byte 1) ≤ 125

/-- How much of the header may be asked for, by the state. -/
def PhaseSize (ws : Websock) : Prop :=
  match ws.state with
  | .init => ws.szhead ≤ 14
  | .start => ws.szhead = 2
  | .length => 2 ≤ ws.lenhead ∧ ws.szhead = fullSize ws ∧ ShortClose ws
  | .data => ws.szhead ≤ 14

structure HeaderInv (ws : Websock) : Prop where
  room : ws.header.length = 14
  within : ws.lenhead ≤ ws.szhead
  phase : PhaseSize ws

theorem headingSize_le (second : UInt8) : headingSize second ≤ 12 := by
  unfold headingSize
  split <;> split <;> (try split) <;> omega

theorem fullSize_le {ws : Websock} (h : ShortClose ws) : fullSize ws ≤ 14 := by
  have hall := headingSize_le (ws.byte 1)
  unfold fullSize
  split
  case isTrue hclose =>
    -- no extended length in a close
    have hshort := h hclose.1
    unfold headingSize
    rw [if_neg (by omega), if_neg (by omega)]
    split <;> omega
  case isFalse => omega

theorem HeaderInv.szhead_le {ws : Websock} (h : HeaderInv ws) : ws.szhead ≤ 14 := by
  have hphase := h.phase
  unfold PhaseSize at hphase
  split at hphase
  · exact hphase
  · omega
  · rw [hphase.2.1]
    exact fullSize_le hphase.2.2
  · exact hphase

theorem headingIndices_within {ws : Websock} (hsize : ws.szhead = fullSize ws)
    (hfull : ¬ ws.lenhead < ws.szhead) : ∀ i ∈ headingIndices ws, 0 ≤ i ∧ i < ws.lenhead := by
  intro i hi
  unfold headingIndices at hi
  unfold fullSize headingSize at hsize
  rw [List.mem_append, List.mem_append, List.mem_append] at hi
  rcases hi with ((hi | hi) | hi) | hi
  · simp only [List.mem_cons, List.not_mem_nil, or_false] at hi
    omega
  · split at hi
    case isTrue h127 =>
      rw [if_pos h127] at hsize
      simp only [List.mem_cons, List.not_mem_nil, or_false] at hi
      omega
    case isFalse h127 =>
      rw [if_neg h127] at hsize
      split at hi
      case isTrue h126 =>
        rw [if_pos h126] at hsize
        simp only [List.mem_cons, List.not_mem_nil, or_false] at hi
        omega
      case isFalse => cases hi
  · split at hi
    case isTrue hmask =>
      rw [if_pos hmask] at hsize
      simp only [List.mem_cons, List.not_mem_nil, or_false] at hi
      omega
    case isFalse => cases hi
  · split at hi
    case isTrue hclose =>
      rw [if_pos hclose] at hsize
      simp only [List.mem_cons, List.not_mem_nil, or_false] at hi
      omega
    case isFalse => cases hi

/-! ## What the steps keep -/

/-- Reading the header keeps the bytes that are there and never goes beyond what is asked. -/
theorem readHeader_kept {ws : Websock} (hroom : ws.header.length = 14)
    (hwithin : ws.lenhead ≤ ws.szhead) (hle : ws.szhead ≤ 14) (rx : List Rx) :
    ∃ rc header lenhead rx', readHeader ws rx =
        (rc, { ws with header := header, lenhead := lenhead }, rx') ∧ header.length = 14 ∧
      ws.lenhead ≤ lenhead ∧ lenhead ≤ ws.szhead ∧ header.take ws.lenhead = ws.header.take ws.lenhead := by
  unfold readHeader
  by_cases hlt : ws.lenhead < ws.szhead
  · rw [if_pos hlt]
    have hread := awsReadv_arriving (ws.szhead - ws.lenhead) rx
    cases hcase : awsReadv (ws.szhead - ws.lenhead) rx with
    | mk received rest =>
        rw [hcase] at hread
        cases received with
        | error errno => exact ⟨_, ws.header, ws.lenhead, rest, rfl, hroom, Nat.le_refl _, hwithin, rfl⟩
        | bytes data =>
            have hsize := hread.1
            refine ⟨_, copyAt ws.header ws.lenhead data, ws.lenhead + data.length, rest, rfl, ?_,
              Nat.le_add_right _ _, by omega, ?_⟩
            · rw [length_copyAt (by omega), hroom]
            · rw [copyAt, List.append_assoc, List.take_append_of_le_length (by simp; omega),
                List.take_take, Nat.min_self]
  · rw [if_neg hlt]
    exact ⟨_, ws.header, ws.lenhead, rx, rfl, hroom, Nat.le_refl _, hwithin, rfl⟩

theorem byte_kept {ws : Websock} {header : Bytes} {lenhead n : Nat}
    (h : header.take n = ws.header.take n) {i : Nat} (hi : i < n) :
    Websock.byte { ws with header := header, lenhead := lenhead } i = ws.byte i := by
  have hat := congrArg (fun bytes : Bytes => bytes[i]?) h
  simp only [List.getElem?_take, if_pos hi] at hat
  simp only [Websock.byte, List.getD, hat]

/-- The two first bytes decide on the size of the header. -/
theorem fullSize_congr {ws ws' : Websock} (h0 : ws'.byte 0 = ws.byte 0)
    (h1 : ws'.byte 1 = ws.byte 1) :
    fullSize ws' = fullSize ws ∧ (ShortClose ws' ↔ ShortClose ws) := by
  have hopcode : ws'.opcode = ws.opcode := congrArg frameGetOpcode h0
  unfold fullSize ShortClose
  rw [hopcode, h1]
  exact ⟨rfl, Iff.rfl⟩

/-- What the fast track adds. -/
theorem fastTrack_some {ws ws' : Websock} (h : fastTrack ws = some ws') (hsize : ws.szhead = 2) :
    ShortClose ws ∧ ws' = { ws with
      szhead := 2 + if ws.opcode = .close ∧ frameGetPayloadLen (ws.byte 1) ≠ 0 then 2 else 0 } := by
  have hsame : ws = { ws with szhead := 2 } := by rw [← hsize]
  by_cases hclose : ws.opcode = .close
  · have hfast : fastTrack ws = if !checkControlHeader ws then none
        else if frameGetPayloadLen (ws.byte 1) ≠ 0 then some { ws with szhead := ws.szhead + 2 }
        else some ws := by
      unfold fastTrack
      rw [hclose]
    rw [hfast] at h
    by_cases hcheck : checkControlHeader ws = true
    · rw [hcheck] at h
      have hshort : frameGetPayloadLen (ws.byte 1) ≤ 125 := by
        by_contra hlong
        simp [checkControlHeader, Nat.lt_of_not_le hlong] at hcheck
      refine ⟨fun _ => hshort, ?_⟩
      by_cases hzero : frameGetPayloadLen (ws.byte 1) ≠ 0
      · rw [if_pos ⟨hclose, hzero⟩]
        simpa [hzero, hsize] using h.symm
      · rw [if_neg fun hboth => hzero hboth.2]
        rw [Bool.not_true, if_neg Bool.false_ne_true, if_neg hzero] at h
        exact (Option.some.inj h).symm.trans hsame
    · rw [if_pos (by simpa using hcheck)] at h
      cases h
  · have hplain : ws' = ws := by
      unfold fastTrack at h
      split at h
      · exact absurd (by assumption) hclose
      · split at h
        · cases h
        · exact (Option.some.inj h).symm
      · split at h
        · cases h
        · exact (Option.some.inj h).symm
      · exact (Option.some.inj h).symm
    refine ⟨fun hyes => absurd hyes hclose, ?_⟩
    rw [if_neg fun hboth => hclose hboth.1, hplain]
    exact hsame

theorem turnLength_kept {ws : Websock} (hstate : ws.state = .length) (h : HeaderInv ws)
    (rx : List Rx) : HeaderInv (turnLength ws rx).2.1 ∧ (lengthPoints ws rx).Kept := by
  have hle := h.szhead_le
  have hphase := h.phase
  unfold PhaseSize at hphase
  rw [hstate] at hphase
  rcases hphase with ⟨htwo, hsize, hclose⟩
  rcases readHeader_kept h.room h.within hle rx with
    ⟨rc, header, lenhead, rx', hread, hroom', hmore, hwithin', hkept⟩
  have hcongr := @fullSize_congr ws { ws with header := header, lenhead := lenhead }
    (byte_kept hkept (by omega)) (byte_kept hkept (by omega))
  have hinv : HeaderInv { ws with header := header, lenhead := lenhead } := by
    refine ⟨hroom', hwithin', ?_⟩
    unfold PhaseSize
    rw [hstate]
    exact ⟨Nat.le_trans htwo hmore, hsize.trans hcongr.1.symm, hcongr.2.mpr hclose⟩
  have hpoint := Points.Kept.read h.within hle
  unfold turnLength lengthPoints
  rw [hread]
  cases rc with
  | error errno => exact ⟨hinv, hpoint⟩
  | ok =>
      dsimp only
      by_cases hpart : lenhead < ws.szhead
      · rw [if_pos hpart, if_pos hpart]
        exact ⟨hinv, hpoint⟩
      · rw [if_neg hpart, if_neg hpart]
        constructor
        · -- a header too long is kept in this state, the others go to the data
          have hnext : ∀ (length : Nat) (mask : Mask) (state : Phase),
              state = .length ∨ state = .data →
              HeaderInv { ws with
                header := header, lenhead := lenhead, length := length, mask := mask, state := state } := by
            intro length mask state hcase
            refine ⟨hroom', hwithin', ?_⟩
            rcases hcase with rfl | rfl
            · exact ⟨Nat.le_trans htwo hmore, hsize.trans hcongr.1.symm, hcongr.2.mpr hclose⟩
            · exact hle
          split
          · rw [show ws = { ws with state := .length } by rw [← hstate]]
            exact hnext _ _ .length (.inl rfl)
          · split
            · exact hnext _ _ .data (.inr rfl)
            · split
              · exact hnext _ _ .data (.inr rfl)
              · split
                · exact hnext _ _ .data (.inr rfl)
                · exact hnext _ _ .data (.inr rfl)
        · apply hpoint.then_use _ .none
          exact headingIndices_within (hsize.trans hcongr.1.symm) hpart

theorem turnStart_kept {ws : Websock} (hstate : ws.state = .start) (h : HeaderInv ws)
    (rx : List Rx) : HeaderInv (turnStart ws rx).2.1 ∧ (startPoints ws rx).Kept := by
  have hle := h.szhead_le
  have hphase := h.phase
  unfold PhaseSize at hphase
  rw [hstate] at hphase
  dsimp only at hphase
  rcases readHeader_kept h.room h.within hle rx with
    ⟨rc, header, lenhead, rx', hread, hroom', hmore, hwithin', hkept⟩
  have hinv : HeaderInv { ws with header := header, lenhead := lenhead } := by
    refine ⟨hroom', hwithin', ?_⟩
    unfold PhaseSize
    rw [hstate]
    exact hphase
  have hpoint := Points.Kept.read h.within hle
  unfold turnStart startPoints
  rw [hread]
  cases rc with
  | error errno => exact ⟨hinv, hpoint⟩
  | ok =>
      dsimp only
      by_cases hpart : lenhead < ws.szhead
      · rw [if_pos hpart, if_pos hpart]
        exact ⟨hinv, hpoint⟩
      · rw [if_neg hpart, if_neg hpart]
        have hfirst : ∀ i ∈ ([0, 1] : List Int), 0 ≤ i ∧ i < (lenhead : Int) := by
          intro i hi
          simp only [List.mem_cons, List.not_mem_nil, or_false] at hi
          omega
        cases hfast : fastTrack { ws with header := header, lenhead := lenhead } with
        | none => exact ⟨hinv, hpoint.then_use hfirst .none⟩
        | some ws'' =>
            rcases fastTrack_some hfast hphase with ⟨hclose, rfl⟩
            dsimp only
            have hnext : HeaderInv { ws with
                header := header
                lenhead := lenhead
                szhead := fullSize { ws with header := header, lenhead := lenhead }
                state := .length } := by
              refine ⟨hroom', ?_, ?_⟩
              · dsimp only
                unfold fullSize
                omega
              · exact ⟨by dsimp only; omega, rfl, hclose⟩
            rcases turnLength_kept rfl hnext rx' with ⟨hturn, hpoints⟩
            exact ⟨hturn, hpoint.then_use hfirst hpoints⟩

/-- A turn from a websocket whose header is in its buffer. -/
theorem websockTurn_kept {ws : Websock} (h : HeaderInv ws) (rx : List Rx) :
    HeaderInv (websockTurn ws rx).2.1 ∧ (turnPoints ws rx).Kept := by
  unfold websockTurn turnPoints
  cases hstate : ws.state with
  | init =>
      have hstart : HeaderInv { ws with lenhead := 0, szhead := 2, state := .start } :=
        ⟨h.room, Nat.zero_le 2, rfl⟩
      exact turnStart_kept rfl hstart rx
  | start => exact turnStart_kept hstate h rx
  | length => exact turnLength_kept hstate h rx
  | data =>
      dsimp only
      refine ⟨?_, .none⟩
      split
      · exact h
      · exact ⟨h.room, h.within, h.szhead_le⟩

theorem websockRead_header (ws : Websock) (address size : Nat) (rx : List Rx) :
    ∃ received length mask rx', websockRead ws address size rx =
      (received, { ws with length := length, mask := mask }, rx') := by
  unfold websockRead
  by_cases hstate : ws.state ≠ .data
  · rw [if_pos hstate]
    exact ⟨_, ws.length, ws.mask, rx, rfl⟩
  · rw [if_neg hstate]
    cases awsReadv (min size ws.length) rx with
    | mk received rest =>
        cases received with
        | error errno => exact ⟨_, ws.length, ws.mask, rest, rfl⟩
        | bytes data =>
            dsimp only
            split
            · exact ⟨_, _, ws.mask, rest, rfl⟩
            · exact ⟨_, _, _, rest, rfl⟩

theorem headerInv_step {ws ws' : Websock} {rx rx' : List Rx} {act : WebsockAct} (h : HeaderInv ws)
    (hstep : WebsockStep (ws, rx) act (ws', rx')) : HeaderInv ws' := by
  cases hstep with
  | turn hturn =>
      have hkept := (websockTurn_kept h rx).1
      rw [hturn] at hkept
      exact hkept
  | read hread =>
      rcases websockRead_header ws _ _ rx with ⟨received, length, mask, rx'', hsame⟩
      rw [hsame] at hread
      cases hread
      exact ⟨h.room, h.within, h.phase⟩
  | restart => exact ⟨h.room, h.within, h.szhead_le⟩

/-! ## Runs -/

/-- The header buffer of a websocket, and in a turn that it makes from here. -/
structure HeaderLaw (ws : Websock) (rx : List Rx) : Prop where
  within : ws.lenhead ≤ ws.szhead
  bound : ws.szhead ≤ 14
  kept : (turnPoints ws rx).Kept

/-- The header buffer is not overrun, whatever arrives and however often the dispatch is
called, after errors as well. -/
theorem header_not_overrun {rx rx' : List Rx} {ws : Websock}
    {ts : List (Transition (Websock × List Rx) WebsockAct)}
    (h : Runs WebsockStep (websockCreateV13, rx) (ws, rx') ts) : HeaderLaw ws rx' := by
  have hstart : HeaderInv websockCreateV13 := ⟨rfl, Nat.le_refl 0, Nat.zero_le 14⟩
  have hinv : HeaderInv ws := Runs.invariant (fun s : Websock × List Rx => HeaderInv s.1)
    (fun s act s' hs hstep => headerInv_step hs hstep) h hstart
  exact ⟨hinv.within, hinv.szhead_le, (websockTurn_kept hinv rx').2⟩

/-- A close frame with an extended length is refused twice, by two dispatches. -/
theorem header_not_overrun_refused :
    ∃ ws ts, Runs WebsockStep (websockCreateV13, [.data 136 [254, 0, 2]]) (ws, [.data 0 [2]]) ts ∧
      ts.length = 2 ∧ ws.state = .start ∧ ws.lenhead = 2 ∧ HeaderLaw ws [.data 0 [2]] := by
  have hrun : Runs WebsockStep (websockCreateV13, [.data 136 [254, 0, 2]])
      ({ websockCreateV13 with
        state := .start, lenhead := 2, szhead := 2, header := [136, 254] ++ List.replicate 12 0 },
        [.data 0 [2]]) _ :=
    Runs.snoc (Runs.single (.turn rfl)) (.turn rfl)
  exact ⟨_, _, hrun, rfl, rfl, rfl, header_not_overrun hrun⟩

end AfbBinder.Ws
