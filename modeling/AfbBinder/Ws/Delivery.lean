import AfbBinder.Ws.Assembly
import AfbBinder.Ws.Header

/-!
# Delivery

The link refines the receiver that assembles the frames of the stream: between two
turns of the dispatch loop its state, its buffer and its callbacks are those of the
receiver, and its websocket has seen a part of the frames to come.  So the messages
posted by the peer are delivered, whatever the cuts of the stream.
-/

namespace AfbBinder.Ws

open Lib

/-! ## The buffer -/

/-- The buffer holds the bytes, with room for a zero. -/
def BufferHolds (done : Bytes) (buffer : Buf) : Prop :=
  (done = [] ∧ buffer = Buf.null) ∨
    (done ≠ [] ∧ ∃ last, buffer = ⟨some (done ++ [last]), done.length⟩)

variable {itf : AfbWsItf} (heap : Heap) {link : AfbWs} {ws : Websock}

theorem realloc_holds {done : Bytes} {buffer : Buf} (h : BufferHolds done buffer) (size : Nat) :
    buffer.size = done.length ∧
      ∃ junk, heap.realloc buffer.buffer (done.length + size + 1) = done ++ junk ∧
        junk.length = size + 1 := by
  rcases h with ⟨rfl, rfl⟩ | ⟨-, last, rfl⟩
  · exact ⟨rfl, _, rfl, by simp [Buf.null]⟩
  · refine ⟨rfl, last :: (List.range size).map fun i => heap.garbage (done.length + 1 + i), ?_, by simp⟩
    have hfits : (done ++ [last]).length ≤ done.length + size + 1 := by
      simp only [List.length_append, List.length_singleton]
      omega
    have hroom : done.length + size + 1 - (done ++ [last]).length = size := by
      simp only [List.length_append, List.length_singleton]
      omega
    simp only [Heap.realloc, Option.getD_some, List.take_of_length_le hfits, hroom]
    simp

/-! ## Reading payloads -/

/-- The loop of `aws_read` on a script that delivers all the bytes. -/
theorem awsReadLoop_delivers {fuel : Nat} {raw rest done junk : Bytes}
    (hws : link.ws = some ws) (hdata : ws.state = .data) (hlength : ws.length = raw.length)
    (hraw : raw ≠ []) (hcoming : arriving link.rx = raw ++ rest)
    (hdelays : ∀ entry ∈ link.rx, entry.delays = true)
    (hbuffer : link.buffer = ⟨some (done ++ junk), done.length⟩)
    (hjunk : junk.length = raw.length + 1) (hfuel : link.rx.length < fuel) :
    ∃ rx', awsReadLoop heap fuel raw.length link = .ok (true, { link with
        ws := some { ws with length := 0, mask := (unmaskBytes ws.mask raw).1 }
        rx := rx'
        buffer := ⟨some (done ++ (unmaskBytes ws.mask raw).2 ++ junk.drop raw.length),
          done.length + raw.length⟩ }) ∧
      arriving rx' = rest ∧ (∀ entry ∈ rx', entry.delays = true) ∧
      rx'.length ≤ link.rx.length := by
  induction fuel generalizing link ws raw done junk with
  | zero => omega
  | succ fuel ih =>
      obtain ⟨n, hn⟩ : ∃ n, raw.length = n + 1 :=
        ⟨raw.length - 1, by have := List.length_pos_iff.mpr hraw; omega⟩
      have hmin : min raw.length ws.length = n + 1 := by omega
      obtain ⟨script, hscript, hcase⟩ := websockRead_cases hdata hmin
        (heap.place (done ++ junk).length + done.length) link.rx
      simp only [awsReadLoop, hws, hbuffer, Option.getD_some]
      rcases hcase with ⟨hread, harr, hused, -⟩ | ⟨errno, -, -, hfail⟩ |
        ⟨data, hread, hpos, hle, harr, hshort, hbound, -⟩
      · -- nothing to read yet: an entry of the script is used up, and the loop goes on
        rw [hread]
        have hless : script.length < link.rx.length := by
          rcases hused with rfl | hless
          · simp [← harr, arriving, hraw] at hcoming
          · exact hless
        obtain ⟨rx', hloop, hrest, hdel, hlen⟩ := @ih { link with ws := some ws, rx := script } _ _ _ _
          rfl hdata hlength hraw (harr.trans hcoming) (hscript hdelays) hbuffer hjunk
          (by simp only; omega)
        simp only at hloop hlen
        exact ⟨rx', by rw [← hbuffer]; exact hloop, hrest, hdel, by omega⟩
      · rw [failsWithin_of_delays hdelays] at hfail
        cases hfail
      · rw [hread]
        -- the bytes read are the next ones of the payload
        obtain ⟨left, rfl, hleft⟩ := append_split (hcoming.symm.trans harr) (by omega)
        have hlen : (data ++ left).length = data.length + left.length := List.length_append
        have hplain := unmaskBytes_append ws.mask data left
        have hcopy : copyAt (done ++ junk) done.length (unmaskBytes ws.mask data).2 =
            done ++ (unmaskBytes ws.mask data).2 ++ junk.drop data.length := by
          rw [copyAt_append, unmaskBytes_length]
        simp only [unmaskBytes_length, hcopy]
        by_cases hend : left = []
        · subst hend
          refine ⟨script, ?_, by simpa using hleft, hscript hdelays, hbound⟩
          simp [hlength]
        · have hpos' := List.length_pos_iff.mpr hend
          have hmore : ¬ (data ++ left).length - data.length = 0 := by omega
          have hsize : (data ++ left).length - data.length = left.length := by omega
          have hdone : (done ++ (unmaskBytes ws.mask data).2).length = done.length + data.length := by
            rw [List.length_append, unmaskBytes_length]
          rw [if_neg hmore, hsize]
          obtain ⟨rx', hloop, hrest, hdel, hbound'⟩ := @ih
            { link with
              ws := some { ws with
                length := ws.length - data.length
                mask := (unmaskBytes ws.mask data).1 }
              rx := script
              buffer := ⟨some (done ++ (unmaskBytes ws.mask data).2 ++ junk.drop data.length),
                done.length + data.length⟩ }
            _ left (done ++ (unmaskBytes ws.mask data).2) (junk.drop data.length)
            rfl hdata (by simp only; omega) hend hleft (hscript hdelays) (by rw [hdone])
            (by rw [List.length_drop]; omega)
            (by have := hshort (by omega); simp only; omega)
          refine ⟨rx', ?_, hrest, hdel, by simp only at hbound'; omega⟩
          rw [hloop, hplain, hdone, List.drop_drop, hlen]
          simp [Nat.add_assoc]

theorem awsRead_delivers {raw rest done : Bytes}
    (hws : link.ws = some ws) (hdata : ws.state = .data) (hlength : ws.length = raw.length)
    (hcoming : arriving link.rx = raw ++ rest)
    (hdelays : ∀ entry ∈ link.rx, entry.delays = true) (hbuffer : BufferHolds done link.buffer) :
    ∃ rx' buffer, awsRead heap true raw.length link = .ok (true, { link with
        ws := some { ws with length := 0, mask := (unmaskBytes ws.mask raw).1 }
        rx := rx'
        buffer := buffer }) ∧
      BufferHolds (done ++ (unmaskBytes ws.mask raw).2) buffer ∧ arriving rx' = rest ∧
      (∀ entry ∈ rx', entry.delays = true) ∧ rx'.length ≤ link.rx.length := by
  unfold awsRead
  by_cases hraw : raw = []
  · subst hraw
    have hsame : { ws with length := 0, mask := (unmaskBytes ws.mask []).1 } = ws := by
      cases ws
      simp_all [unmaskBytes]
    refine ⟨link.rx, link.buffer, ?_, ?_, by simpa using hcoming, hdelays, Nat.le_refl _⟩
    · rw [hsame, ← hws]
      rfl
    · simpa [unmaskBytes] using hbuffer
  · have hpos := List.length_pos_iff.mpr hraw
    have hne : ¬ raw.length = 0 := by omega
    obtain ⟨hsize, junk, hblock, hjunk⟩ := realloc_holds heap hbuffer raw.length
    rw [if_neg hne, if_neg (by decide), hsize]
    dsimp only
    rw [hblock]
    obtain ⟨rx', hloop, hrest, hdel, hbound⟩ := @awsReadLoop_delivers heap
      { link with buffer := ⟨some (done ++ junk), done.length⟩ } _ (link.rx.length + 1) raw rest done
      junk hws hdata hlength hraw hcoming hdelays rfl hjunk (Nat.lt_succ_self _)
    refine ⟨rx', _, hloop, Or.inr ⟨?_, ?_⟩, hrest, hdel, hbound⟩
    · intro hnil
      have := congrArg List.length hnil
      simp only [List.length_append, unmaskBytes_length, List.length_nil] at this
      omega
    · have hone : (junk.drop raw.length).length = 1 := by
        rw [List.length_drop]
        omega
      obtain ⟨last, hlast⟩ := List.length_eq_one_iff.mp hone
      exact ⟨last, by simp [hlast]⟩

/-! ## Handling frames -/

/-- The callback of a delivered message: a block with its bytes and a zero, on a link that
waits and holds no buffer. -/
def deliveryEvent (delivered : Bool × Bytes) : Event :=
  let message : Buf := ⟨some (delivered.2 ++ [0]), delivered.2.length⟩
  if delivered.1 then .text message .waiting Buf.null else .binary message .waiting Buf.null

/-- The link is as the receiver. -/
structure Refines (a : Assembly) (link : AfbWs) : Prop where
  state : link.state = a.state
  buffer : BufferHolds a.done link.buffer
  events : link.events = a.delivered.map deliveryEvent

/-- Between two frames: the payload of the last one is read. -/
structure FrameRead (ws : Websock) : Prop where
  state : ws.state = .data
  length : ws.length = 0
  maxlength : ws.maxlength = 65000
  room : ws.header.length = 14

/-- After a frame: the receiver has taken it, and the rest of the stream is to come. -/
structure Handled (a : Assembly) (rest : Bytes) (before after : AfbWs) : Prop where
  refines : Refines a after
  frameRead : ∃ ws, after.ws = some ws ∧ FrameRead ws
  coming : arriving after.rx = rest
  delays : ∀ entry ∈ after.rx, entry.delays = true
  bound : after.rx.length ≤ before.rx.length

/-- What is known when a frame is handled. -/
structure Arriving (frame : Frame) (rest : Bytes) (ws : Websock) (link : AfbWs) : Prop where
  heading : Heading frame ws
  maxlength : ws.maxlength = 65000
  room : ws.header.length = 14
  websock : link.ws = some ws
  coming : arriving link.rx = frame.body ++ rest
  delays : ∀ entry ∈ link.rx, entry.delays = true

/-- There is a callback for the message that the frame is part of. -/
def Assembly.Defined (itf : AfbWsItf) (a : Assembly) (frame : Frame) : Prop :=
  (a.opened frame.opcode = .readingText → itf.onText = true) ∧
    (a.opened frame.opcode ≠ .readingText → itf.onBinary = true)

variable {a : Assembly} {frame : Frame} {rest : Bytes}

theorem awsContinue_delivers (hdefined : a.Defined itf frame)
    (h : Arriving frame rest ws link)
    (hrefines : Refines { a with state := a.opened frame.opcode } link)
    (hfilled : frame.fin = true → a.done ++ frame.payload ≠ []) :
    ∃ after, awsContinue itf heap true .keep frame.fin frame.payload.length link = .ok after ∧
      Handled (a.take frame) rest link after := by
  obtain ⟨hheading, hmax, hroom, hws, hcoming, hdelays⟩ := h
  have hbody := body_length frame
  have hlength : ws.length = frame.body.length := by rw [hheading.length, hbody]
  obtain ⟨rx', buffer, hread, hholds, hrest, hdel, hbound⟩ :=
    awsRead_delivers heap hws hheading.state hlength hcoming hdelays hrefines.buffer
  rw [hheading.mask, unmask_body] at hholds
  have hread' : FrameRead { ws with
      length := 0
      mask := (unmaskBytes ws.mask frame.body).1 } := ⟨hheading.state, rfl, hmax, hroom⟩
  unfold awsContinue
  rw [← hbody, hread, Outcome.ok_bind]
  have hstate : link.state = a.opened frame.opcode := hrefines.state
  cases hfin : frame.fin with
  | false =>
      refine ⟨_, rfl, ⟨?_, ⟨_, rfl, hread'⟩, hrest, hdel, hbound⟩⟩
      simp only [Assembly.take, hfin]
      exact ⟨hstate, hholds, hrefines.events⟩
  | true =>
      -- the message is complete: its block is picked, ended by a zero and handed over
      rcases hholds with ⟨hnil, -⟩ | ⟨-, last, rfl⟩
      · exact absurd hnil (hfilled hfin)
      · have hzero : copyAt (a.done ++ frame.payload ++ [last]) (a.done ++ frame.payload).length [0] =
            a.done ++ frame.payload ++ [0] := by
          rw [copyAt_append]
          simp
        have htake : a.take frame = ⟨.waiting, [], a.delivered ++
            [(decide (a.opened frame.opcode = .readingText), a.done ++ frame.payload)]⟩ := by
          simp [Assembly.take, hfin]
        rw [htake]
        have hevents : link.events = a.delivered.map deliveryEvent := hrefines.events
        by_cases htxt : a.opened frame.opcode = .readingText
        · simp only [hstate, htxt, hzero, hdefined.1 htxt, callback]
          refine ⟨_, rfl, ⟨⟨rfl, Or.inl ⟨rfl, rfl⟩, ?_⟩, ⟨_, rfl, hread'⟩, hrest, hdel, hbound⟩⟩
          simp [hevents, deliveryEvent]
        · simp only [hstate, htxt, hzero, hdefined.2 htxt, callback]
          refine ⟨_, rfl, ⟨⟨rfl, Or.inl ⟨rfl, rfl⟩, ?_⟩, ⟨_, rfl, hread'⟩, hrest, hdel, hbound⟩⟩
          simp [hevents, deliveryEvent]

/-- An expected frame of a message opens the message or goes on with it: its payload is read
after the bytes of the message. -/
theorem handleFrame_data (hdefined : a.Defined itf frame) (hheading : Heading frame ws)
    (hstate : link.state = a.state) (hexpects : a.Expects frame.opcode) :
    handleFrame itf heap true .keep ws link =
      (awsContinue itf heap true .keep frame.fin frame.payload.length
        { link with state := a.opened frame.opcode }).bind fun link => .ok (.loop, link) := by
  unfold handleFrame
  rw [hheading.opcode, hheading.fin, hheading.length]
  cases hop : frame.opcode with
  | continuation =>
      rw [hop] at hexpects
      have hbusy : ¬ link.state = .waiting := by
        rw [hstate]
        exact hexpects
      have hopened : a.opened .continuation = link.state := hstate.symm
      have hsame : { link with state := a.opened .continuation } = link := by rw [hopened]
      rw [hsame, awsOnContinue, if_neg hbusy]
      rfl
  | text =>
      rw [hop] at hexpects
      have hwaiting : ¬ link.state ≠ .waiting := by
        rw [hstate]
        exact not_not.mpr hexpects
      have htxt : itf.onText = true := hdefined.1 (by rw [hop]; rfl)
      rw [awsOnText, awsOnFirst, if_neg hwaiting, if_neg (by simp [htxt])]
      rfl
  | binary =>
      rw [hop] at hexpects
      have hwaiting : ¬ link.state ≠ .waiting := by
        rw [hstate]
        exact not_not.mpr hexpects
      have hbinary : itf.onBinary = true := hdefined.2 (by rw [hop]; simp [Assembly.opened])
      rw [awsOnBinary, awsOnFirst, if_neg hwaiting, if_neg (by simp [hbinary])]
      rfl
  | close => simp [hop, Assembly.Expects] at hexpects
  | ping => simp [hop, Assembly.Expects] at hexpects
  | pong => simp [hop, Assembly.Expects] at hexpects
  | reserved code => simp [hop, Assembly.Expects] at hexpects

theorem handleFrame_delivers (hdefined : a.Defined itf frame)
    (h : Arriving frame rest ws link) (hrefines : Refines a link) (haccepts : a.Accepts frame) :
    ∃ after, handleFrame itf heap true .keep ws link = .ok (.loop, after) ∧
      Handled (a.take frame) rest link after := by
  obtain ⟨after, hcontinue, hhandled⟩ :=
    @awsContinue_delivers itf heap { link with state := a.opened frame.opcode } ws a frame rest
      hdefined ⟨h.heading, h.maxlength, h.room, h.websock, h.coming, h.delays⟩
      ⟨rfl, hrefines.buffer, hrefines.events⟩ haccepts.filled
  refine ⟨after, ?_, hhandled.refines, hhandled.frameRead, hhandled.coming, hhandled.delays,
    hhandled.bound⟩
  rw [handleFrame_data heap hdefined h.heading hrefines.state haccepts.expects, hcontinue]
  rfl

/-! ## The stream -/

/-- The websocket is somewhere before the payload of the first of the frames to come. -/
def Synced (frames : List Frame) (ws : Websock) (rx : List Rx) : Prop :=
  ws.maxlength = 65000 ∧ ws.header.length = 14 ∧ (∀ entry ∈ rx, entry.delays = true) ∧
    match ws.state with
    | .init => arriving rx = wires frames
    | .data => ws.length = 0 ∧ arriving rx = wires frames
    | .start => ws.szhead = 2 ∧ ws.lenhead < 2 ∧ Seen (wires frames) ws rx
    | .length =>
        ∃ frame rest, frames = frame :: rest ∧ ws.szhead = frame.head.length ∧
          ws.lenhead < ws.szhead ∧ Seen (wires frames) ws rx

theorem wires_cons (frame : Frame) (frames : List Frame) :
    wires (frame :: frames) = frame.wire ++ wires frames := by
  simp [wires]

theorem wires_length (frames : List Frame) : 2 * frames.length ≤ (wires frames).length := by
  induction frames with
  | nil => simp [wires]
  | cons frame frames ih =>
      have hhead := head_two frame
      rw [wires_cons, List.length_append, Frame.wire, List.length_append, List.length_cons]
      omega

theorem Synced.length_le {frames : List Frame} {rx : List Rx} (h : Synced frames ws rx) :
    2 * frames.length ≤ (arriving rx).length + 1 := by
  obtain ⟨-, -, -, hphase⟩ := h
  have hwires := wires_length frames
  split at hphase
  · rw [hphase]
    omega
  · rw [hphase.2]
    omega
  · obtain ⟨-, hlt, hseen⟩ := hphase
    rw [hseen.coming, List.length_drop]
    omega
  · obtain ⟨frame, rest, rfl, hszhead, hlt, hseen⟩ := hphase
    have hrest := wires_length rest
    rw [hseen.coming, List.length_drop, wires_cons, List.length_append, Frame.wire,
      List.length_append, List.length_cons]
    omega

theorem Resting.synced {rest : List Frame} {rx : List Rx} (h : Resting frame ws)
    (hseen : Seen (wires (frame :: rest)) ws rx) : Synced (frame :: rest) ws rx := by
  refine ⟨h.maxlength, hseen.room, hseen.delays, ?_⟩
  have hincomplete := h.incomplete
  rcases h.phase with ⟨hstate, hszhead⟩ | ⟨hstate, hszhead⟩
  · simp only [hstate]
    exact ⟨hszhead, by omega, hseen⟩
  · simp only [hstate]
    exact ⟨frame, rest, rfl, hszhead, hincomplete, hseen⟩

/-- The end of a turn of the websocket on the frames to come. -/
def SyncedTurn (frames : List Frame) (rx : List Rx) : Turn × Websock × List Rx → Prop
  | (.back rc, ws, rx') =>
      (rc = .ok ∨ rc = .error .EAGAIN) ∧ Synced frames ws rx' ∧ UsedUp rx rx'
  | (.frame, ws, rx') =>
      ∃ frame rest, frames = frame :: rest ∧ Heading frame ws ∧ ws.maxlength = 65000 ∧
        ws.header.length = 14 ∧ arriving rx' = frame.body ++ wires rest ∧
        (∀ entry ∈ rx', entry.delays = true) ∧ rx'.length ≤ rx.length
  | _ => False

theorem HeaderTurn.synced {rest : List Frame} {rx : List Rx} {result : Turn × Websock × List Rx}
    (h : HeaderTurn frame (wires rest) rx result) : SyncedTurn (frame :: rest) rx result := by
  obtain ⟨turn, ws, rx'⟩ := result
  cases turn with
  | back rc =>
      obtain ⟨hrc, hresting, hseen, hused⟩ := h
      rw [← wires_cons] at hseen
      exact ⟨hrc, hresting.synced hseen, hused⟩
  | frame => exact ⟨frame, rest, rfl, h⟩
  | loop => exact h
  | tooLongError => exact h
  | protocolError => exact h

theorem turnStart_synced {frames : List Frame} {rx : List Rx}
    (hordinary : ∀ frame ∈ frames.head?, frame.Ordinary) (hstate : ws.state = .start)
    (hszhead : ws.szhead = 2) (hmax : ws.maxlength = 65000) (hseen : Seen (wires frames) ws rx) :
    SyncedTurn frames rx (turnStart ws rx) := by
  cases frames with
  | nil =>
      obtain ⟨rc, ws', rx', hturn, hrc, hstate', hszhead', hmax', hseen', hused⟩ :=
        turnStart_empty hseen hszhead
      rw [hturn]
      refine ⟨hrc, ⟨hmax'.trans hmax, hseen'.room, hseen'.delays, ?_⟩, hused⟩
      have hnone : ws'.lenhead ≤ 0 := hseen'.available
      simp only [hstate', hstate]
      exact ⟨hszhead', by omega, hseen'⟩
  | cons frame rest =>
      rw [wires_cons] at hseen
      exact (turnStart_seen (hordinary frame rfl) hseen hstate hszhead hmax).synced

theorem websockTurn_synced {frames : List Frame} {rx : List Rx}
    (hordinary : ∀ frame ∈ frames.head?, frame.Ordinary) (h : Synced frames ws rx)
    (hdata : ws.state ≠ .data) : SyncedTurn frames rx (websockTurn ws rx) := by
  obtain ⟨hmax, hroom, hdelays, hphase⟩ := h
  unfold websockTurn
  split at hphase
  · rename_i hstate
    rw [hstate]
    refine turnStart_synced hordinary rfl rfl hmax ?_
    exact
      { room := hroom
        fits := by simp
        within := by simp
        available := Nat.zero_le _
        header := by simp
        coming := by simpa using hphase
        delays := hdelays }
  · rename_i hstate
    exact absurd hstate hdata
  · rename_i hstate
    rw [hstate]
    exact turnStart_synced hordinary hstate hphase.1 hmax hphase.2.2
  · rename_i hstate
    obtain ⟨frame, rest, rfl, hszhead, -, hseen⟩ := hphase
    rw [hstate]
    rw [wires_cons] at hseen
    exact (turnLength_seen (hordinary frame rfl) hseen hstate hszhead hmax).synced

/-- A turn of a websocket before the frames to come: it returns for want of bytes, leaves
the last payload behind, or has read the header of the first frame. -/
theorem websockTurn_cases {frames : List Frame} {rx : List Rx}
    (hordinary : ∀ frame ∈ frames.head?, frame.Ordinary) (h : Synced frames ws rx) :
    (∃ rc ws' rx', websockTurn ws rx = (.back rc, ws', rx') ∧ (rc = .ok ∨ rc = .error .EAGAIN) ∧
        Synced frames ws' rx' ∧ UsedUp rx rx') ∨
      (ws.state = .data ∧ websockTurn ws rx = (.loop, { ws with state := .init }, rx) ∧
        Synced frames { ws with state := .init } rx) ∨
      ∃ ws' rx' frame rest, websockTurn ws rx = (.frame, ws', rx') ∧ frames = frame :: rest ∧
        Heading frame ws' ∧ ws'.maxlength = 65000 ∧ ws'.header.length = 14 ∧
        arriving rx' = frame.body ++ wires rest ∧ (∀ entry ∈ rx', entry.delays = true) ∧
        rx'.length ≤ rx.length := by
  by_cases hdata : ws.state = .data
  · right
    left
    have hphase := h
    simp only [Synced, hdata] at hphase
    obtain ⟨hmax, hroom, hdelays, hlength, hcoming⟩ := hphase
    refine ⟨hdata, ?_, hmax, hroom, hdelays, hcoming⟩
    simp [websockTurn, hdata, hlength]
  · have hturn := websockTurn_synced hordinary h hdata
    cases hresult : websockTurn ws rx with
    | mk turn result =>
        obtain ⟨ws', rx'⟩ := result
        rw [hresult] at hturn
        cases turn with
        | back rc => exact Or.inl ⟨rc, ws', rx', rfl, hturn⟩
        | frame =>
            obtain ⟨frame, rest, hturn⟩ := hturn
            exact Or.inr (Or.inr ⟨ws', rx', frame, rest, rfl, hturn⟩)
        | loop => exact hturn.elim
        | tooLongError => exact hturn.elim
        | protocolError => exact hturn.elim

/-! ## The dispatch loop -/

/-- Between two turns: the link is as the receiver, which accepts the frames to come. -/
structure Delivering (a : Assembly) (frames : List Frame) (link : AfbWs) : Prop where
  refines : Refines a link
  synced : ∃ ws, link.ws = some ws ∧ Synced frames ws link.rx
  accepts : a.AcceptsAll frames

theorem Delivering.ordinary {frames : List Frame} (h : Delivering a frames link) :
    ∀ frame ∈ frames.head?, frame.Ordinary := by
  intro frame hframe
  have haccepts := h.accepts
  cases frames with
  | nil => cases hframe
  | cons first rest =>
      cases hframe
      have hexpects := haccepts.1.expects
      have hdata : frame.opcode.isData = true := by
        cases hop : frame.opcode <;> simp_all [Assembly.Expects, Opcode.isData]
      exact (Frame.Receivable.mk hdata haccepts.1.small).ordinary

/-- How far the loop is from the end of the frames. -/
def turnsLeft (frames : List Frame) (link : AfbWs) : Nat :=
  2 * frames.length + if link.ws.map Websock.state = some .data then 1 else 0

theorem turnsLeft_cons {frames : List Frame} {after : AfbWs} (h : after.ws = some ws) :
    turnsLeft frames after < turnsLeft (frame :: frames) link := by
  simp only [turnsLeft, List.length_cons, h, Option.map_some]
  split <;> split <;> omega

theorem FrameRead.synced {frames : List Frame} {rx : List Rx} (h : FrameRead ws)
    (hdelays : ∀ entry ∈ rx, entry.delays = true) (hcoming : arriving rx = wires frames) :
    Synced frames ws rx := by
  refine ⟨h.maxlength, h.room, hdelays, ?_⟩
  simp only [h.state]
  exact ⟨h.length, hcoming⟩

/-- One turn: the dispatch returns for want of bytes, or a payload is left behind, or a
frame is taken. -/
theorem dispatchTurn_delivers (hitf : itf.onText = true ∧ itf.onBinary = true)
    {frames : List Frame} (h : Delivering a frames link) :
    (∃ rc after, dispatchTurn itf heap true .keep link = .ok (.back rc, after) ∧
        (rc = .ok ∨ rc = .error .EAGAIN) ∧ Delivering a frames after ∧
        UsedUp link.rx after.rx) ∨
      ∃ after frames' a', dispatchTurn itf heap true .keep link = .ok (.loop, after) ∧
        Delivering a' frames' after ∧ after.rx.length ≤ link.rx.length ∧
        turnsLeft frames' after < turnsLeft frames link ∧
        ∃ front, frames = front ++ frames' ∧ a' = front.foldl Assembly.take a := by
  obtain ⟨ws, hws, hsynced⟩ := h.synced
  rcases websockTurn_cases h.ordinary hsynced with ⟨rc, ws', rx', hturn, hrc, hsynced', hused⟩ |
    ⟨hdata, hturn, hsynced'⟩ |
    ⟨ws', rx', frame, rest, hturn, rfl, hheading, hmax, hroom, hcoming, hdelays, hbound⟩
  · left
    refine ⟨rc, { link with ws := some ws', rx := rx' }, ?_, hrc, ?_, hused⟩
    · simp only [dispatchTurn, hws, hturn]
    · exact ⟨⟨h.refines.state, h.refines.buffer, h.refines.events⟩, ⟨_, rfl, hsynced'⟩, h.accepts⟩
  · -- the payload was read: back to the start of a frame
    right
    refine ⟨{ link with ws := some { ws with state := .init } }, frames, a, ?_, ?_, Nat.le_refl _, ?_,
      [], rfl, rfl⟩
    · simp only [dispatchTurn, hws, hturn]
    · exact ⟨⟨h.refines.state, h.refines.buffer, h.refines.events⟩, ⟨_, rfl, hsynced'⟩, h.accepts⟩
    · simp [turnsLeft, hws, hdata]
  · obtain ⟨after, hframe, hhandled⟩ :=
      @handleFrame_delivers itf heap { link with ws := some ws', rx := rx' } ws' a frame
        (wires rest) ⟨fun _ => hitf.1, fun _ => hitf.2⟩
        ⟨hheading, hmax, hroom, rfl, hcoming, hdelays⟩
        ⟨h.refines.state, h.refines.buffer, h.refines.events⟩ h.accepts.1
    obtain ⟨wsEnd, hwsEnd, hread⟩ := hhandled.frameRead
    right
    refine ⟨after, rest, a.take frame, ?_, ⟨hhandled.refines, ⟨wsEnd, hwsEnd, ?_⟩,
      h.accepts.2⟩, Nat.le_trans hhandled.bound hbound, ?_, [frame], rfl, rfl⟩
    · simp only [dispatchTurn, hws, hturn, hframe]
    · exact hread.synced hhandled.delays hhandled.coming
    · exact turnsLeft_cons hwsEnd

/-- A whole dispatch: it returns for want of bytes, some frames further. -/
theorem dispatchLoop_delivers (hitf : itf.onText = true ∧ itf.onBinary = true)
    {frames : List Frame} {turns : Nat} (h : Delivering a frames link)
    (hturns : turnsLeft frames link < turns) :
    ∃ rc after front back, dispatchLoop itf heap turns link = .ok (rc, after) ∧
      (rc = .ok ∨ rc = .error .EAGAIN) ∧ frames = front ++ back ∧
      Delivering (front.foldl Assembly.take a) back after ∧ UsedUp link.rx after.rx := by
  induction turns generalizing a frames link with
  | zero => omega
  | succ turns ih =>
      rcases dispatchTurn_delivers heap hitf h with
        ⟨rc, after, hturn, hrc, hafter, hused⟩ |
        ⟨after, frames', a', hturn, hafter, hbound, hless, front, rfl, rfl⟩
      · refine ⟨rc, after, [], frames, ?_, hrc, rfl, hafter, hused⟩
        simp only [dispatchLoop, hturn, Outcome.ok_bind]
      · obtain ⟨rc, last, front', back, hloop, hrc, rfl, hlast, hused⟩ := ih hafter (by omega)
        refine ⟨rc, last, front ++ front', back, ?_, hrc, by simp, ?_, ?_⟩
        · simp only [dispatchLoop, hturn, Outcome.ok_bind, hloop]
        · rw [List.foldl_append]
          exact hlast
        · exact hused.imp_right fun hlt => by omega

theorem enoughTurns_delivers {frames : List Frame} (h : Delivering a frames link) :
    turnsLeft frames link < enoughTurns link := by
  obtain ⟨ws, hws, hsynced⟩ := h.synced
  have hle := hsynced.length_le
  unfold turnsLeft enoughTurns
  split <;> omega

theorem awsOnReadable_delivers (hitf : itf.onText = true ∧ itf.onBinary = true)
    {frames : List Frame} (h : Delivering a frames link) :
    ∃ after front back, awsOnReadable itf heap link = .ok after ∧ frames = front ++ back ∧
      Delivering (front.foldl Assembly.take a) back after ∧ UsedUp link.rx after.rx := by
  obtain ⟨ws, hws, -⟩ := h.synced
  obtain ⟨rc, after, front, back, hloop, hrc, hsplit, hafter, hused⟩ :=
    dispatchLoop_delivers heap hitf h (enoughTurns_delivers h)
  refine ⟨after, front, back, ?_, hsplit, hafter, hused⟩
  have hnotpipe : rc ≠ .error .EPIPE := by
    rcases hrc with rfl | rfl <;> simp
  simp only [awsOnReadable, hws, hloop, Outcome.ok_bind, if_neg hnotpipe]

/-! ## Repeated calls -/

/-- The socket is found readable, again and again. -/
def readable (itf : AfbWsItf) (heap : Heap) : Nat → AfbWs → Outcome AfbWs
  | 0, link => .ok link
  | calls + 1, link => do
      let link ← awsOnReadable itf heap link
      readable itf heap calls link

theorem readable_delivers (hitf : itf.onText = true ∧ itf.onBinary = true)
    {frames : List Frame} (calls : Nat) (h : Delivering a frames link) :
    ∃ after front back, readable itf heap calls link = .ok after ∧ frames = front ++ back ∧
      Delivering (front.foldl Assembly.take a) back after ∧
      (after.rx = [] ∨ after.rx.length + calls ≤ link.rx.length) := by
  induction calls generalizing a frames link with
  | zero => exact ⟨link, [], frames, rfl, rfl, h, Or.inr (Nat.le_refl _)⟩
  | succ calls ih =>
      obtain ⟨mid, front, back, hcall, rfl, hmid, hused⟩ :=
        awsOnReadable_delivers heap hitf h
      obtain ⟨after, front', back', hrest, rfl, hafter, hlen⟩ := ih hmid
      refine ⟨after, front ++ front', back', ?_, by simp, ?_, ?_⟩
      · simp only [readable, hcall, Outcome.ok_bind, hrest]
      · rw [List.foldl_append]
        exact hafter
      · rcases hlen with hnil | hlen
        · exact Or.inl hnil
        · rcases hused with hmidnil | hless
          · left
            rw [hmidnil, List.length_nil] at hlen
            exact List.eq_nil_of_length_eq_zero (by omega)
          · right
            omega

/-- When nothing is left in the script, no frame is left to come. -/
theorem Delivering.finished {frames : List Frame} (h : Delivering a frames link)
    (hrx : link.rx = []) : frames = [] := by
  obtain ⟨ws, -, hsynced⟩ := h.synced
  have hle := hsynced.length_le
  rw [hrx] at hle
  simp only [arriving, List.length_nil] at hle
  exact List.eq_nil_of_length_eq_zero (by omega)

/-- No byte of a frame is pending in the websocket. -/
def AtBoundary (ws : Websock) : Prop :=
  ws.state = .init ∨ (ws.state = .data ∧ ws.length = 0) ∨ (ws.state = .start ∧ ws.lenhead = 0)

theorem Synced.atBoundary {rx : List Rx} (h : Synced [] ws rx) : AtBoundary ws := by
  obtain ⟨-, -, -, hphase⟩ := h
  split at hphase
  · exact Or.inl ‹_›
  · exact Or.inr (Or.inl ⟨‹_›, hphase.1⟩)
  · have hnone : ws.lenhead ≤ 0 := hphase.2.2.available
    exact Or.inr (Or.inr ⟨‹_›, by omega⟩)
  · obtain ⟨frame, rest, hnil, -⟩ := hphase
    cases hnil

/-- The bytes of the posted messages. -/
def postedWire (posted : List Posted) : Bytes := posted.flatMap fun p => p.posting.wire

theorem postedWire_eq (posted : List Posted) :
    postedWire posted = wires (posted.flatMap fun p => p.posting.frames) := by
  induction posted with
  | nil => rfl
  | cons p rest ih =>
      have hsplit : postedWire (p :: rest) = p.posting.wire ++ postedWire rest := rfl
      rw [hsplit, Posting.wire_eq, ih, List.flatMap_cons]
      simp [wires]

theorem created_delivering {posted : List Posted} {rx : List Rx} (tx : List Tx)
    (hdelays : ∀ entry ∈ rx, entry.delays = true) (hcoming : arriving rx = postedWire posted) :
    Delivering Assembly.start (posted.flatMap fun p => p.posting.frames) (afbWsCreate rx tx) where
  refines := ⟨rfl, Or.inl ⟨rfl, rfl⟩, rfl⟩
  synced := ⟨_, rfl, rfl, rfl, hdelays, hcoming.trans (postedWire_eq posted)⟩
  accepts := (Assembly.take_posted rfl rfl posted).1

/-- The callback that a message is due. -/
def Posted.event (p : Posted) : Event := deliveryEvent (p.message.istxt, p.message.payload)

/-- End-to-end delivery: whatever the cuts of the stream of the posted messages, the
callbacks are those of the first messages, and those of all the messages once the
socket was found readable as often as the stream was cut. -/
theorem messages_delivered (itf : AfbWsItf) (heap : Heap)
    (hitf : itf.onText = true ∧ itf.onBinary = true) (posted : List Posted) (rx : List Rx)
    (tx : List Tx) (hdelays : ∀ entry ∈ rx, entry.delays = true)
    (hcoming : arriving rx = postedWire posted) (calls : Nat) :
    ∃ after, readable itf heap calls (afbWsCreate rx tx) = .ok after ∧
      after.events <+: posted.map Posted.event ∧
      (rx.length ≤ calls → after.events = posted.map Posted.event ∧ after.state = .waiting ∧
        after.buffer = Buf.null ∧ after.rx = [] ∧ ∃ ws, after.ws = some ws ∧ AtBoundary ws) := by
  have hstart := created_delivering tx hdelays hcoming
  obtain ⟨after, front, back, hrun, hsplit, hafter, hlen⟩ :=
    readable_delivers heap hitf calls hstart
  have hall := (Assembly.take_posted (a := Assembly.start) rfl rfl posted).2
  have hevents : posted.map Posted.event = ((posted.flatMap fun p => p.posting.frames).foldl
      Assembly.take Assembly.start).delivered.map deliveryEvent := by
    rw [hall]
    simp [Assembly.start, Posted.event]
  refine ⟨after, hrun, ?_, fun hcalls => ?_⟩
  · rw [hevents, hafter.refines.events, hsplit, List.foldl_append]
    exact (Assembly.delivered_grows _ back).map deliveryEvent
  · have hnil : after.rx = [] := by
      rcases hlen with hnil | hlen
      · exact hnil
      · have hrx : after.rx.length + calls ≤ rx.length := hlen
        exact List.eq_nil_of_length_eq_zero (by omega)
    have hback : back = [] := hafter.finished hnil
    rw [hback, List.append_nil] at hsplit
    rw [hback] at hafter
    obtain ⟨ws, hws, hsynced⟩ := hafter.synced
    have hrefines := hafter.refines
    rw [← hsplit] at hrefines
    have hdone := hrefines.buffer
    rw [hall] at hdone
    refine ⟨?_, ?_, ?_, hnil, ws, hws, hsynced.atBoundary⟩
    · rw [hevents, hrefines.events]
    · rw [hrefines.state, hall]
    · rcases hdone with ⟨-, hnull⟩ | ⟨hne, -⟩
      · exact hnull
      · exact absurd rfl hne

/-- The text `hi` sent whole in two vectors, and a binary message in an empty fragment and
a masked one. -/
def twoMessages : List Posted :=
  [⟨⟨true, [104, 105], by decide⟩, .whole [[104], [105]] (by decide) rfl (by decide)⟩,
    ⟨⟨false, [7], by decide⟩,
      .fragmented ⟨none, [], by decide⟩ [⟨some ⟨1, 2, 3, 4⟩, [7], by decide⟩] rfl⟩]

/-- The stream of the two messages, cut in headers, in payloads and across frames. -/
def cutStream : List Rx :=
  [.data 129 [2, 104], .again, .data 105 [2], .intr, .data 0 [128, 129, 1], .again, .data 2 [3, 4],
    .data 6 []]

theorem messages_delivered_cut :
    ∃ after, readable ⟨false, true, true, false, some .keep⟩ ⟨fun _ => 9, fun n => n⟩ 8
        (afbWsCreate cutStream []) = .ok after ∧
      after.events = [.text ⟨some [104, 105, 0], 2⟩ .waiting Buf.null,
        .binary ⟨some [7, 0], 1⟩ .waiting Buf.null] := by
  obtain ⟨after, hrun, -, hall⟩ := messages_delivered ⟨false, true, true, false, some .keep⟩
    ⟨fun _ => 9, fun n => n⟩ ⟨rfl, rfl⟩ twoMessages cutStream [] (by decide) (by decide) 8
  exact ⟨after, hrun, (hall (by decide)).1⟩

end AfbBinder.Ws
