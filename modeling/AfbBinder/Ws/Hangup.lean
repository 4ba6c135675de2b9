import AfbBinder.Lib.Run
import AfbBinder.Ws.Frame
import AfbBinder.Ws.Link

/-!
# After a hangup

The activations of `io_event_callback` taken turn by turn of the dispatch loop.  A
turn that hangs up returns at once from `websock_dispatch`, except when the hangup
comes from the handling of a data frame: there the loop goes on, and its next turn
reads the destroyed websocket.  At its end `io_event_callback` hangs up again on
`EPOLLHUP`: this does nothing on a link that is disconnected, and reads freed memory when
a callback, such as `on_hangup`, has destroyed the link.
-/

namespace AfbBinder.Ws

open Lib

/-! ## Activations -/

/-- Where an activation is: `websock_dispatch` has returned in `returned`, and
`aws_on_readable` in `read`.  `EPOLLHUP` is still to be looked at in the three. -/
inductive Pc where
  | idle
  | loop (hup : Bool)
  | returned (result : Rc) (hup : Bool)
  | read (hup : Bool)
  | blocked
  | fault (fault : Fault)
deriving DecidableEq, Repr

structure Activation where
  link : AfbWs
  pc : Pc
deriving DecidableEq, Repr

inductive Action where
  /-- The event source of the socket fires. -/
  | event (input hup : Bool)
  /-- A turn of the loop of `websock_dispatch`. -/
  | turn (memory : Bool) (reaction : Reaction)
  /-- The end of `aws_on_readable`. -/
  | readable
  /-- The end of `io_event_callback`. -/
  | finish

/-- The activation after a turn from the link. -/
def afterTurn (hup : Bool) (link : AfbWs) : Outcome (Next × AfbWs) → Activation
  | .ok (.loop, after) => ⟨after, .loop hup⟩
  | .ok (.back result, after) => ⟨after, .returned result hup⟩
  | .blocked => ⟨link, .blocked⟩
  | .fault f => ⟨link, .fault f⟩

/-- The activation after a hangup, if one is asked for. -/
def afterHangup (itf : AfbWsItf) (asked : Bool) (pc : Pc) (link : AfbWs) : Activation :=
  match if asked then afbWsHangupAfter itf link else .ok link with
  | .ok after => ⟨after, pc⟩
  | .blocked => ⟨link, .blocked⟩
  | .fault f => ⟨link, .fault f⟩

/-- The source fires only while the link is connected: `aws_disconnect` drops it. -/
inductive Step (itf : AfbWsItf) (heap : Heap) : Activation → Action → Activation → Prop
  | event {link : AfbWs} (input hup : Bool) (connected : link.ws.isSome = true) :
      Step itf heap ⟨link, .idle⟩ (.event input hup)
        ⟨link, if input then .loop hup else .read hup⟩
  | turn {link : AfbWs} {hup : Bool} (memory : Bool) (reaction : Reaction) :
      Step itf heap ⟨link, .loop hup⟩ (.turn memory reaction)
        (afterTurn hup link (dispatchTurn itf heap memory reaction link))
  | readable {link : AfbWs} {result : Rc} {hup : Bool} :
      Step itf heap ⟨link, .returned result hup⟩ .readable
        (afterHangup itf (result = .error .EPIPE) (.read hup) link)
  | finish {link : AfbWs} {hup : Bool} :
      Step itf heap ⟨link, .read hup⟩ .finish (afterHangup itf hup .idle link)

/-- The frame is one that its callback does not accept. -/
def refused (itf : AfbWsItf) (opcode : Opcode) (state : State) : Bool :=
  match opcode with
  | .text => state ≠ .waiting || !itf.onText
  | .binary => state ≠ .waiting || !itf.onBinary
  | .continuation => state = .waiting
  | _ => false

/-- A payload of that size cannot be read: `realloc` finds no memory, or the socket fails. -/
def unreadable (memory : Bool) (size : Nat) (rx : List Rx) : Bool :=
  (!memory && size ≠ 0) || failsWithin size rx

/-- The handling of a data frame leaves the link connected: when the frame is refused or
its payload cannot be read there is a callback for errors that does not disconnect, and
when it ends a message the callback for messages does not. -/
def DataKept (itf : AfbWsItf) (memory : Bool) (reaction : Reaction) (ws : Websock)
    (link : AfbWs) : Prop :=
  if refused itf ws.opcode link.state || unreadable memory ws.length link.rx then
    itf.onError = true ∧ reaction = .keep
  else ws.fin = true → reaction = .keep

instance (itf : AfbWsItf) (memory : Bool) (reaction : Reaction) (ws : Websock) (link : AfbWs) :
    Decidable (DataKept itf memory reaction ws link) :=
  inferInstanceAs (Decidable (
    if refused itf ws.opcode link.state || unreadable memory ws.length link.rx then
      itf.onError = true ∧ reaction = .keep
    else ws.fin = true → reaction = .keep))

/-- The condition on a step: a data frame whose header is complete leaves the link
connected, and at the end of `io_event_callback` the link to hang up still exists. -/
def LinkKept (itf : AfbWsItf) (before : Activation) : Action → Prop
  | .turn memory reaction =>
      ∀ ws, before.link.ws = some ws →
        ∀ ws' rx', websockTurn ws before.link.rx = (.frame, ws', rx') →
          ws'.opcode.isData = true →
            DataKept itf memory reaction ws' { before.link with ws := some ws', rx := rx' }
  | .finish => before.pc = .read true → before.link.destroyed = false
  | _ => True

/-! ## Connected and disconnected links -/

/-- The faults that do not involve the websocket. -/
def Fault.OffWebsock (f : Fault) : Prop := f ≠ .useAfterFree ∧ f ≠ .nullWebsock

structure Alive (link : AfbWs) : Prop where
  connected : link.ws.isSome = true
  kept : link.destroyed = false
  silent : Event.hangup ∉ link.events

/-- Once disconnected, the hangup is the last callback. -/
def HungUp (link : AfbWs) : Prop :=
  link.ws = none ∧
    ∃ front, Event.hangup ∉ front ∧ (link.events = front ∨ link.events = front ++ [.hangup])

def Settled (link : AfbWs) : Prop := Alive link ∨ HungUp link

/-- A frame is being read. -/
structure Reading (ws : Websock) (link : AfbWs) : Prop where
  websock : link.ws = some ws
  state : ws.state = .data
  kept : link.destroyed = false
  silent : Event.hangup ∉ link.events

theorem Reading.alive {ws : Websock} {link : AfbWs} (h : Reading ws link) : Alive link :=
  ⟨by simp [h.websock], h.kept, h.silent⟩

section Specs

variable {itf : AfbWsItf} {heap : Heap} {memory : Bool} {reaction : Reaction} {link : AfbWs}
  {ws : Websock}

theorem awsDisconnect_alive (call : Bool) (h : Alive link) :
    HungUp (awsDisconnect itf call link) := by
  obtain ⟨ws, hws⟩ := Option.isSome_iff_exists.mp h.connected
  simp only [awsDisconnect, hws]
  split
  · exact ⟨rfl, link.events, h.silent, Or.inr rfl⟩
  · exact ⟨rfl, link.events, h.silent, Or.inl rfl⟩

theorem awsDisconnect_none (call : Bool) (h : link.ws = none) :
    awsDisconnect itf call link = link := by
  simp [awsDisconnect, h]

theorem callback_alive {event : Event} (hevent : event ≠ .hangup) (h : Alive link) :
    Settled (callback itf reaction event link) ∧
      (reaction = .keep → Alive (callback itf reaction event link)) := by
  have hcalled : Alive { link with events := link.events ++ [event] } :=
    ⟨h.connected, h.kept, by simpa [h.silent] using hevent.symm⟩
  cases reaction with
  | keep => exact ⟨Or.inl hcalled, fun _ => hcalled⟩
  | hangup => exact ⟨Or.inr (awsDisconnect_alive true hcalled), by simp⟩
  | destroy => exact ⟨Or.inr (awsDisconnect_alive false hcalled), by simp⟩

theorem awsOnError_alive (code : Nat) (h : Alive link) :
    Settled (awsOnError itf reaction code link) ∧
      (itf.onError = true ∧ reaction = .keep → Alive (awsOnError itf reaction code link)) := by
  unfold awsOnError
  split
  · exact ⟨(callback_alive (by simp) h).1, fun hc => (callback_alive (by simp) h).2 hc.2⟩
  · rename_i hoff
    exact ⟨Or.inr (awsDisconnect_alive true h), fun hc => absurd hc.1 hoff⟩

theorem websockError_alive (code : UInt16) (h : Alive link) :
    (websockError itf reaction code link).Post Fault.OffWebsock fun after =>
      Settled after ∧ (itf.onError = true ∧ reaction = .keep → Alive after) := by
  unfold websockError
  split
  · rename_i hnone
    have hconnected := h.connected
    simp [hnone] at hconnected
  · exact awsOnError_alive code.toNat ⟨h.connected, h.kept, h.silent⟩

/-! ## Reading a frame -/

theorem websockDropLoop_data {fuel : Nat} (rx : List Rx) (hdata : ws.state = .data)
    (hfuel : ws.length ≤ fuel) :
    ∃ ws' rest, websockDropLoop fuel ws rx = some (ws', rest) ∧ ws'.state = .data := by
  induction fuel generalizing ws rx with
  | zero => exact ⟨ws, rx, by simp [websockDropLoop, Nat.le_zero.mp hfuel], hdata⟩
  | succ fuel ih =>
      by_cases hzero : ws.length = 0
      · exact ⟨ws, rx, by simp [websockDropLoop, hzero], hdata⟩
      · obtain ⟨n, hn⟩ : ∃ n, min 8000 ws.length = n + 1 := ⟨min 8000 ws.length - 1, by omega⟩
        obtain ⟨rest, -, hcase⟩ := websockRead_cases hdata hn 0 rx
        simp only [websockDropLoop, hzero, if_false]
        rcases hcase with ⟨hread, -⟩ | ⟨errno, hread, -⟩ | ⟨data, hread, hpos, -⟩
        · exact ⟨ws, rest, by rw [hread], hdata⟩
        · exact ⟨ws, rest, by rw [hread], hdata⟩
        · rw [hread]
          refine ih rest hdata ?_
          simp only
          omega

theorem dropFrame_reading (h : Reading ws link) :
    (dropFrame link).Post Fault.OffWebsock fun after =>
      Alive after ∧ after.events = link.events := by
  obtain ⟨ws', rest, hdrop, -⟩ := websockDropLoop_data link.rx h.state (Nat.le_refl _)
  have heq : dropFrame link = .ok { link with ws := some ws', rx := rest } := by
    simp only [dropFrame, h.websock, websockDrop, hdrop]
  rw [heq]
  exact ⟨⟨rfl, h.kept, h.silent⟩, rfl⟩

theorem awsDropError_reading (code : UInt16) (h : Reading ws link) :
    (awsDropError itf reaction code link).Post Fault.OffWebsock fun after =>
      Settled after ∧ (itf.onError = true ∧ reaction = .keep → Alive after) := by
  have hreset : Reading ws { link with state := .waiting, buffer := Buf.null } :=
    ⟨h.websock, h.state, h.kept, h.silent⟩
  exact (dropFrame_reading hreset).bind fun after hafter => websockError_alive code hafter.1

theorem awsReadLoop_reading {fuel size : Nat} (h : Reading ws link) (hsize : ws.length = size)
    (hpos : 0 < size) :
    (awsReadLoop heap fuel size link).Post Fault.OffWebsock fun result =>
      (∃ ws', Reading ws' result.2) ∧ (result.1 = false → failsWithin size link.rx = true) := by
  induction fuel generalizing ws link size with
  | zero => trivial
  | succ fuel ih =>
      obtain ⟨n, rfl⟩ : ∃ n, size = n + 1 := ⟨size - 1, by omega⟩
      have hmin : min (n + 1) ws.length = n + 1 := by omega
      simp only [awsReadLoop, h.websock]
      obtain ⟨rest, -, hcase⟩ := websockRead_cases h.state hmin
        (heap.place (link.buffer.buffer.getD []).length + link.buffer.size) link.rx
      rcases hcase with ⟨hread, -, -, hfail⟩ | ⟨errno, hread, hne, hfail⟩ |
        ⟨data, hread, hdata, hle, -, -, -, hfail⟩
      · rw [hread]
        refine Outcome.Post.mono (ih ⟨rfl, h.state, h.kept, h.silent⟩ hsize hpos) ?_
        exact fun result hresult => ⟨hresult.1, fun hfalse => hfail ▸ hresult.2 hfalse⟩
      · rw [hread]
        cases errno with
        | EAGAIN => exact absurd rfl hne
        | EPIPE => exact ⟨⟨ws, rfl, h.state, h.kept, h.silent⟩, fun _ => hfail⟩
        | EINVAL => exact ⟨⟨ws, rfl, h.state, h.kept, h.silent⟩, fun _ => hfail⟩
        | other code => exact ⟨⟨ws, rfl, h.state, h.kept, h.silent⟩, fun _ => hfail⟩
      · rw [hread]
        simp only [unmaskBytes_length]
        split
        · exact ⟨⟨_, rfl, h.state, h.kept, h.silent⟩, by simp⟩
        · rename_i hleft
          refine Outcome.Post.mono (ih ⟨rfl, h.state, h.kept, h.silent⟩ ?_ ?_) ?_
          · simp only
            omega
          · omega
          · exact fun result hresult => ⟨hresult.1, fun hfalse => hfail ▸ hresult.2 hfalse⟩

variable (heap) in
theorem awsRead_reading {size : Nat} (h : Reading ws link) (hsize : ws.length = size) :
    (awsRead heap memory size link).Post Fault.OffWebsock fun result =>
      (∃ ws', Reading ws' result.2) ∧
        (result.1 = false → unreadable memory size link.rx = true) := by
  unfold awsRead
  split
  · exact ⟨⟨ws, h⟩, by simp⟩
  · rename_i hpos
    split
    · rename_i hstarved
      exact ⟨⟨ws, h⟩, fun _ => by simp_all [unreadable]⟩
    · have hgrown : Reading ws { link with
          buffer := ⟨some (heap.realloc link.buffer.buffer (link.buffer.size + size + 1)),
            link.buffer.size⟩ } := ⟨h.websock, h.state, h.kept, h.silent⟩
      refine (awsReadLoop_reading hgrown hsize (by omega)).mono ?_
      exact fun result hresult => ⟨hresult.1, fun hfalse => by simp [unreadable, hresult.2 hfalse]⟩

/-- The frame is kept, as far as the reading of its payload goes. -/
def PayloadKept (itf : AfbWsItf) (memory : Bool) (reaction : Reaction) (last : Bool) (size : Nat)
    (rx : List Rx) : Prop :=
  if unreadable memory size rx then itf.onError = true ∧ reaction = .keep
  else last = true → reaction = .keep

theorem awsContinue_reading {last : Bool} {size : Nat} (h : Reading ws link)
    (hsize : ws.length = size) :
    (awsContinue itf heap memory reaction last size link).Post Fault.OffWebsock fun after =>
      Settled after ∧ (PayloadKept itf memory reaction last size link.rx → Alive after) := by
  apply (awsRead_reading heap h hsize).bind
  rintro ⟨complete, read⟩ ⟨⟨ws', hread⟩, hfails⟩
  cases complete with
  | false =>
      refine (awsDropError_reading _ hread).mono fun after hafter => ⟨hafter.1, fun hkept => ?_⟩
      rw [PayloadKept, if_pos (hfails rfl)] at hkept
      exact hafter.2 hkept
  | true =>
      cases last with
      | false => exact ⟨Or.inl hread.alive, fun _ => hread.alive⟩
      | true =>
          have hkeep : PayloadKept itf memory reaction true size link.rx → reaction = .keep := by
            intro hkept
            unfold PayloadKept at hkept
            split at hkept
            · exact hkept.2
            · exact hkept rfl
          have hpicked : Alive { read with state := .waiting, buffer := Buf.null } :=
            ⟨hread.alive.connected, hread.kept, hread.silent⟩
          simp only [Bool.not_true, Bool.false_eq_true, if_false, if_true]
          split
          · exact ⟨by simp, by simp⟩
          · have hcall : ∀ event, event ≠ Event.hangup →
                Outcome.Post Fault.OffWebsock (fun after => Settled after ∧
                  (PayloadKept itf memory reaction true size link.rx → Alive after))
                  (.ok (callback itf reaction event
                    { read with state := .waiting, buffer := Buf.null })) :=
              fun event hevent => ⟨(callback_alive hevent hpicked).1, fun hkept =>
                (callback_alive hevent hpicked).2 (hkeep hkept)⟩
            split
            · split
              · exact hcall _ (by simp)
              · exact ⟨by simp, by simp⟩
            · split
              · exact hcall _ (by simp)
              · exact ⟨by simp, by simp⟩

/-- A refused frame. -/
theorem dropError_dataKept {code : UInt16} {opcode : Opcode} (h : Reading ws link)
    (hopcode : ws.opcode = opcode) (hrefused : refused itf opcode link.state = true) :
    (awsDropError itf reaction code link).Post Fault.OffWebsock fun after =>
      Settled after ∧ (DataKept itf memory reaction ws link → Alive after) := by
  refine (awsDropError_reading code h).mono fun after hafter => ⟨hafter.1, fun hkept => ?_⟩
  rw [DataKept, hopcode, hrefused, Bool.true_or, if_pos rfl] at hkept
  exact hafter.2 hkept

/-- An accepted frame. -/
theorem continue_dataKept {reading : State} {opcode : Opcode} (h : Reading ws link)
    (hopcode : ws.opcode = opcode) (haccepted : refused itf opcode link.state = false) :
    (awsContinue itf heap memory reaction ws.fin ws.length { link with state := reading }).Post
      Fault.OffWebsock fun after =>
        Settled after ∧ (DataKept itf memory reaction ws link → Alive after) := by
  have hread : Reading ws { link with state := reading } :=
    ⟨h.websock, h.state, h.kept, h.silent⟩
  refine (awsContinue_reading hread rfl).mono fun after hafter => ⟨hafter.1, fun hkept => ?_⟩
  rw [DataKept, hopcode, haccepted, Bool.false_or] at hkept
  exact hafter.2 hkept

theorem awsOnFirst_dataKept {reading : State} {defined : Bool} {opcode : Opcode}
    (h : Reading ws link) (hopcode : ws.opcode = opcode)
    (hrefused : refused itf opcode link.state = (decide (link.state ≠ .waiting) || !defined)) :
    (awsOnFirst itf heap memory reaction reading defined ws.fin ws.length link).Post Fault.OffWebsock
      fun after => Settled after ∧ (DataKept itf memory reaction ws link → Alive after) := by
  unfold awsOnFirst
  split
  · rename_i hbusy
    exact dropError_dataKept h hopcode (by simp [hrefused, hbusy])
  · rename_i hwaiting
    split
    · rename_i hmissing
      exact dropError_dataKept h hopcode (by simpa [hrefused] using Or.inr hmissing)
    · rename_i hdefined
      apply continue_dataKept h hopcode
      have hw : link.state = .waiting := Decidable.not_not.mp hwaiting
      rw [hrefused]
      simpa [hw] using hdefined

theorem awsOnContinue_dataKept (h : Reading ws link) (hopcode : ws.opcode = .continuation) :
    (awsOnContinue itf heap memory reaction ws.fin ws.length link).Post Fault.OffWebsock
      fun after => Settled after ∧ (DataKept itf memory reaction ws link → Alive after) := by
  unfold awsOnContinue
  split
  · rename_i hwaiting
    exact dropError_dataKept h hopcode (by simp [refused, hwaiting])
  · rename_i hbusy
    exact continue_dataKept h hopcode (by simp [refused, hbusy])

theorem awsOnClose_reading {code : Nat} (h : Reading ws link) :
    (awsOnClose itf heap memory reaction code ws.length link).Post Fault.OffWebsock Settled := by
  have hreset : Reading ws { link with state := .waiting, buffer := Buf.null } :=
    ⟨h.websock, h.state, h.kept, h.silent⟩
  unfold awsOnClose
  dsimp only
  split
  · apply (dropFrame_reading hreset).bind
    intro after hafter
    exact Or.inr (awsDisconnect_alive true hafter.1)
  · apply (awsRead_reading _ hreset rfl).bind
    rintro ⟨complete, read⟩ ⟨⟨ws', hread⟩, -⟩
    have hpicked : Alive { read with buffer := Buf.null } :=
      ⟨hread.alive.connected, hread.kept, hread.silent⟩
    dsimp only
    split
    · exact (callback_alive (by simp) hread.alive).1
    · exact (callback_alive (by simp) hpicked).1

theorem handleFrame_reading (h : Reading ws link)
    (hkept : ws.opcode.isData = true → DataKept itf memory reaction ws link) :
    (handleFrame itf heap memory reaction ws link).Post Fault.OffWebsock fun result =>
      Settled result.2 ∧ (result.1 ≠ .back .ok → Alive result.2) := by
  unfold handleFrame
  split
  · rename_i hop
    apply (awsOnContinue_dataKept h hop).bind
    intro after hafter
    exact ⟨hafter.1, fun _ => hafter.2 (hkept (by simp [hop, Opcode.isData]))⟩
  · rename_i hop
    apply (awsOnFirst_dataKept h hop (by simp [refused])).bind
    intro after hafter
    exact ⟨hafter.1, fun _ => hafter.2 (hkept (by simp [hop, Opcode.isData]))⟩
  · rename_i hop
    apply (awsOnFirst_dataKept h hop (by simp [refused])).bind
    intro after hafter
    exact ⟨hafter.1, fun _ => hafter.2 (hkept (by simp [hop, Opcode.isData]))⟩
  · exact (awsOnClose_reading h).bind fun after hafter => ⟨hafter, by simp⟩
  · apply (dropFrame_reading h).bind
    intro after hafter
    have halive : Alive { after with
        ws := after.ws.map fun ws => { ws with state := .init }
        tx := (websockPong [] after.tx).tx
        sent := after.sent ++ (websockPong [] after.tx).out } :=
      ⟨by simpa using hafter.1.connected, hafter.1.kept, hafter.1.silent⟩
    exact ⟨Or.inl halive, fun _ => halive⟩
  · apply (dropFrame_reading h).bind
    intro after hafter
    have halive : Alive { after with ws := after.ws.map fun ws => { ws with state := .init } } :=
      ⟨by simpa using hafter.1.connected, hafter.1.kept, hafter.1.silent⟩
    exact ⟨Or.inl halive, fun _ => halive⟩
  · exact (websockError_alive _ h.alive).bind fun after hafter => ⟨hafter.1, by simp⟩

/-! ## A turn of the loop -/

theorem turnLength_frame {ws' : Websock} {rx rx' : List Rx}
    (h : turnLength ws rx = (.frame, ws', rx')) : ws'.state = .data := by
  unfold turnLength at h
  split at h
  · simp at h
  · split at h
    · simp at h
    · dsimp only at h
      split at h
      · simp at h
      · split at h
        · simp at h
        · split at h
          · simp at h
          · split at h
            · simp at h
            · simp only [Prod.mk.injEq, true_and] at h
              rw [← h.1]

theorem turnStart_frame {ws' : Websock} {rx rx' : List Rx}
    (h : turnStart ws rx = (.frame, ws', rx')) : ws'.state = .data := by
  unfold turnStart at h
  split at h
  · simp at h
  · split at h
    · simp at h
    · split at h
      · simp at h
      · exact turnLength_frame h

theorem websockTurn_frame {ws' : Websock} {rx rx' : List Rx}
    (h : websockTurn ws rx = (.frame, ws', rx')) : ws'.state = .data := by
  unfold websockTurn at h
  split at h
  · exact turnStart_frame h
  · exact turnStart_frame h
  · exact turnLength_frame h
  · split at h <;> simp at h

variable (heap) in
theorem dispatchTurn_alive {hup : Bool} (h : Alive link)
    (hkept : LinkKept itf ⟨link, .loop hup⟩ (.turn memory reaction)) :
    (dispatchTurn itf heap memory reaction link).Post Fault.OffWebsock fun result =>
      Settled result.2 ∧ (result.1 ≠ .back .ok → Alive result.2) := by
  obtain ⟨ws, hws⟩ := Option.isSome_iff_exists.mp h.connected
  have hset : ∀ ws' rx', Alive { link with ws := some ws', rx := rx' } :=
    fun _ _ => ⟨rfl, h.kept, h.silent⟩
  unfold dispatchTurn
  rw [hws]
  dsimp only
  split
  · exact ⟨Or.inl (hset _ _), fun _ => hset _ _⟩
  · exact ⟨Or.inl (hset _ _), fun _ => hset _ _⟩
  · exact (websockError_alive _ (hset _ _)).bind fun after hafter => ⟨hafter.1, by simp⟩
  · exact (websockError_alive _ (hset _ _)).bind fun after hafter => ⟨hafter.1, by simp⟩
  · rename_i ws' rx' hturn
    exact handleFrame_reading ⟨rfl, websockTurn_frame hturn, h.kept, h.silent⟩
      (hkept ws hws ws' rx' hturn)

theorem afbWsHangup_settled (h : Settled link) : Settled (afbWsHangup itf link) := by
  rcases h with halive | hhung
  · exact Or.inr (awsDisconnect_alive true halive)
  · rw [afbWsHangup, awsDisconnect_none true hhung.1]
    exact Or.inr hhung

/-! ## Hangups of `io_event_callback` -/

theorem afterHangup_kept {asked : Bool} {pc : Pc} (h : asked = true → link.destroyed = false) :
    afterHangup itf asked pc link = ⟨if asked then afbWsHangup itf link else link, pc⟩ := by
  cases asked with
  | false => rfl
  | true => simp [afterHangup, afbWsHangupAfter, h rfl]

/-- A disconnected link is not changed, be it destroyed or not. -/
theorem afterHangup_none {asked : Bool} {pc : Pc} (h : link.ws = none) :
    (afterHangup itf asked pc link).link = link := by
  cases asked with
  | false => rfl
  | true =>
      cases hdestroyed : link.destroyed with
      | true => simp [afterHangup, afbWsHangupAfter, hdestroyed]
      | false => simp [afterHangup, afbWsHangupAfter, hdestroyed, afbWsHangup,
          awsDisconnect_none true h]

/-! ## Runs -/

/-- While the loop turns the link is connected, as it is when `websock_dispatch` has
failed, and no fault involves the websocket. -/
def Orderly (c : Activation) : Prop :=
  match c.pc with
  | .loop _ => Alive c.link
  | .returned result _ => Settled c.link ∧ (result ≠ .ok → Alive c.link)
  | .fault f => Settled c.link ∧ f.OffWebsock
  | _ => Settled c.link

theorem Orderly.settled {c : Activation} (h : Orderly c) : Settled c.link := by
  unfold Orderly at h
  split at h
  · exact Or.inl h
  · exact h.1
  · exact h.1
  · exact h

theorem Orderly.offWebsock {c : Activation} {f : Fault} (h : Orderly c) (hpc : c.pc = .fault f) :
    f.OffWebsock := by
  simp only [Orderly, hpc] at h
  exact h.2

theorem orderly_step {c c' : Activation} {a : Action} (h : Orderly c) (hkept : LinkKept itf c a)
    (hstep : Step itf heap c a c') : Orderly c' := by
  cases hstep with
  | @event link input hup connected =>
      have hsettled : Settled link := h
      cases input with
      | false => exact hsettled
      | true =>
          rcases hsettled with hlive | hhung
          · exact hlive
          · simp [hhung.1] at connected
  | @turn link hup memory reaction =>
      have hlive : Alive link := h
      have hpost := dispatchTurn_alive heap hlive hkept
      cases hturn : dispatchTurn itf heap memory reaction link with
      | ok result =>
          obtain ⟨next, after⟩ := result
          rw [hturn] at hpost
          cases next with
          | loop => exact hpost.2 (by simp)
          | back result => exact ⟨hpost.1, fun hfailed => hpost.2 (by simpa using hfailed)⟩
      | blocked => exact Or.inl hlive
      | fault f =>
          rw [hturn] at hpost
          exact ⟨Or.inl hlive, hpost⟩
  | @readable link result hup =>
      obtain ⟨hsettled, hfailed⟩ : Settled link ∧ (result ≠ .ok → Alive link) := h
      -- the socket has ended on a connected link
      have hexists : decide (result = .error .EPIPE) = true → link.destroyed = false :=
        fun hend => (hfailed (by simp [of_decide_eq_true hend])).kept
      rw [afterHangup_kept hexists]
      show Settled _
      dsimp only
      split
      · exact afbWsHangup_settled hsettled
      · exact hsettled
  | @finish link hup =>
      have hsettled : Settled link := h
      have hexists : hup = true → link.destroyed = false := fun hhup => hkept (by rw [hhup])
      rw [afterHangup_kept hexists]
      show Settled _
      dsimp only
      split
      · exact afbWsHangup_settled hsettled
      · exact hsettled

/-- From an orderly activation of a disconnected link, nothing more happens to the link. -/
theorem link_unchanged {c c' : Activation} {a : Action} (h : Orderly c)
    (hstep : Step itf heap c a c') (hnone : c.link.ws = none) : c'.link = c.link := by
  cases hstep with
  | event input hup connected => rfl
  | @turn link hup memory reaction =>
      have hlive : Alive link := h
      have hconnected := hlive.connected
      have hgone : link.ws = none := hnone
      simp [hgone] at hconnected
  | readable => exact afterHangup_none hnone
  | finish => exact afterHangup_none hnone

/-- The activations of a run leave a disconnected link alone: no step changes it, its
hangup was its last callback, and no fault involves its websocket. -/
def QuietAfterHangup (c : Activation) (ts : List (Transition Activation Action)) : Prop :=
  (∀ t ∈ ts, t.before.link.ws = none → t.after.link = t.before.link) ∧
    (c.link.ws = none → HungUp c.link) ∧ ∀ f, c.pc = .fault f → f.OffWebsock

theorem orderly_run {rx : List Rx} {tx : List Tx} {c : Activation}
    {ts : List (Transition Activation Action)}
    (hrun : Runs (Step itf heap) ⟨afbWsCreate rx tx, .idle⟩ c ts)
    (hkept : ∀ t ∈ ts, LinkKept itf t.before t.action) : Orderly c := by
  refine Runs.invariant_of Orderly (fun t => LinkKept itf t.before t.action)
    (fun s a s' hinv hcond hstep => orderly_step hinv hcond hstep) hrun ?_ hkept
  exact Or.inl ⟨rfl, rfl, by simp [afbWsCreate]⟩

end Specs

/-- In every run where data frames leave the link connected, and where no link is destroyed
when `EPOLLHUP` is looked at, nothing happens on the websocket after the hangup. -/
theorem quiet_after_hangup (itf : AfbWsItf) (heap : Heap) (rx : List Rx) (tx : List Tx)
    {c : Activation} {ts : List (Transition Activation Action)}
    (hrun : Runs (Step itf heap) ⟨afbWsCreate rx tx, .idle⟩ c ts)
    (hkept : ∀ t ∈ ts, LinkKept itf t.before t.action) : QuietAfterHangup c ts := by
  have horderly := orderly_run hrun hkept
  refine ⟨fun t ht hnone => ?_, fun hnone => ?_, fun f hpc => horderly.offWebsock hpc⟩
  · obtain ⟨hstep, us, hfront, hus⟩ := hrun.mem_spec ht
    have hbefore := orderly_run hus fun u hu => hkept u (hfront.subset hu)
    exact link_unchanged hbefore hstep hnone
  · rcases horderly.settled with halive | hhung
    · have hconnected := halive.connected
      simp [hnone] at hconnected
    · exact hhung

/-- An interface without `on_error`. -/
def textOnly : AfbWsItf := ⟨false, true, false, false, some .keep⟩

def zeroHeap : Heap := ⟨fun _ => 0, fun _ => 0⟩

/-- A text is received, then the peer closes the socket. -/
theorem quiet_after_hangup_text :
    ∃ (c : Activation) (ts : List (Transition Activation Action)),
      Runs (Step textOnly zeroHeap) ⟨afbWsCreate [.data 129 [2, 104, 105], .eof] [], .idle⟩ c ts ∧
        c.link.ws = none ∧ c.link.events.length = 2 ∧ QuietAfterHangup c ts := by
  have hidle : Runs (Step textOnly zeroHeap)
    ⟨afbWsCreate [.data 129 [2, 104, 105], .eof] [], .idle⟩ _ [] := Runs.refl
  have hrun := (((hidle.snoc (Step.event true true rfl)).snoc (Step.turn true .keep)).snoc
    (Step.turn true .keep)).snoc (Step.turn true .keep) |>.snoc Step.readable
    |>.snoc Step.finish
  refine ⟨_, _, hrun, rfl, rfl, quiet_after_hangup textOnly zeroHeap _ _ hrun ?_⟩
  intro t ht
  simp only [List.nil_append, List.mem_append, List.mem_singleton] at ht
  rcases ht with ((((rfl | rfl) | rfl) | rfl) | rfl) | rfl
  · trivial
  · intro ws hws ws' rx' hturn _
    cases hws
    cases hturn
    decide
  · intro ws hws ws' rx' hturn _
    cases hws
    cases hturn
  · intro ws hws ws' rx' hturn _
    cases hws
    cases hturn
  · trivial
  · exact fun _ => rfl

/-- A continuation frame with no message to continue, on a link without `on_error`: the
link is hung up and the next turn of the loop reads the destroyed websocket. -/
theorem quiet_after_hangup_fails :
    ¬ ∀ (itf : AfbWsItf) (heap : Heap) (rx : List Rx) (tx : List Tx) (c : Activation)
        (ts : List (Transition Activation Action)),
        Runs (Step itf heap) ⟨afbWsCreate rx tx, .idle⟩ c ts → QuietAfterHangup c ts := by
  intro h
  have hidle : Runs (Step textOnly zeroHeap) ⟨afbWsCreate [.data 128 [0]] [], .idle⟩ _ [] :=
    Runs.refl
  have hrun := ((hidle.snoc (Step.event true false rfl)).snoc (Step.turn true .keep)).snoc
    (Step.turn true .keep)
  have hquiet := h textOnly zeroHeap [.data 128 [0]] [] _ _ hrun
  exact (hquiet.2.2 .useAfterFree rfl).1 rfl

end AfbBinder.Ws
