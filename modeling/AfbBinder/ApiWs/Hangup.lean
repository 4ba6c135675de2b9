import AfbBinder.ApiWs.Replies
import AfbBinder.Ws.Hangup
import AfbBinder.Ws.Send

/-!
# The client of a binder link when the link goes down

The client and its websocket, step by step: calls, the activations of the event source of
the socket and the turns of their dispatch loop, in any order.  The client has no callback
for the hangup of its link, so the memos that wait at that time wait forever; with no
memo at each hangup, none waits while the link is down.
-/

namespace AfbBinder.ApiWs

open Lib Ws

/-- `api_ws_client_ws_itf`: only `on_binary` is defined. -/
def apiWsClientWsItf : AfbWsItf := ⟨false, false, true, false, none⟩

/-- A client and its link. -/
structure ClientLink (J : Type) where
  activation : Activation
  dialogue : Dialogue J

namespace ClientLink

variable {J : Type}

def memos (s : ClientLink J) : List Memo := s.dialogue.api.memos

def log (s : ClientLink J) : List (ApiWs.Effect J) := s.dialogue.api.log

/-- The link is down. -/
def Down (s : ClientLink J) : Prop := s.activation.link.ws = none

/-- After `api_ws_client_connect`. -/
def initial (rx : List Rx) (tx : List Tx) : ClientLink J :=
  ⟨⟨afbWsCreate rx tx, .idle⟩, .initial⟩

/-- The message that a call gives to `afb_ws_binary_v`, if any. -/
def callSends (call : Call) (allocated : Bool) (msgid : UInt32) : Option Writebuf :=
  if allocated then call.raw.bind (callMessage msgid call) else none

/-- The link after the call that took the identifier. -/
def linkAfter (call : Call) (allocated : Bool) (msgid : UInt32) (link : AfbWs) : AfbWs :=
  match callSends call allocated msgid with
  | none => link
  | some wb => (afbWsSend (.binary wb) link).2

/-- The callback of the client for an event of its link. -/
def receive (json : JsonC J) (width : Nat) (heap : Heap) (api : Client J) : Event → Client J
  | .binary message _ _ =>
      match message.buffer with
      | none => api
      | some block =>
          (apiWsClientOnBinary json api (Readbuf.ofData width (heap.place block.length)
            (block.take message.size) (block.drop message.size))).1
  | _ => api

/-- The client after the callbacks that its link has made. -/
def receiveAll (json : JsonC J) (width : Nat) (heap : Heap) (before after : AfbWs)
    (api : Client J) : Client J :=
  (after.events.drop before.events.length).foldl (receive json width heap) api

inductive Action where
  | call (call : Call) (allocated : Bool)
  | link (action : Ws.Action)

/-- The steps of the client and of its link.  No callback of the client disconnects the link. -/
inductive Step (json : JsonC J) (width : Nat) (heap : Heap) :
    ClientLink J → Action → ClientLink J → Prop
  | call {activation : Activation} {dialogue : Dialogue J} {api : Client J}
      {sent : Option Writebuf} (call : Call) (allocated : Bool)
      (made : apiWsClientCallCb dialogue.issued call allocated
        (fun wb => (afbWsSend (.binary wb) activation.link).1 = .ok) dialogue.api =
          some (api, sent)) :
      Step json width heap ⟨activation, dialogue⟩ (.call call allocated)
        ⟨{ activation with link := linkAfter call allocated api.id activation.link },
          ⟨api, dialogue.issued + 1⟩⟩
  | link {before after : Activation} {dialogue : Dialogue J} {action : Ws.Action}
      (keeps : ∀ memory reaction, action = .turn memory reaction → reaction = .keep)
      (step : Ws.Step apiWsClientWsItf heap before action after) :
      Step json width heap ⟨before, dialogue⟩ (.link action)
        ⟨after, { dialogue with
          api := receiveAll json width heap before.link after.link dialogue.api }⟩

/-! ## Requests that are not lost -/

/-- The link goes down in the step. -/
def HangsUp (t : Transition (ClientLink J) Action) : Prop := ¬ t.before.Down ∧ t.after.Down

/-- The step completes the request with a failure. -/
def Fails (req : Nat) (t : Transition (ClientLink J) Action) : Prop :=
  ∃ flags status info,
    ApiWs.Effect.fail req flags status info ∈ t.after.log.drop t.before.log.length

/-- When the link goes down the requests that wait fail, and none waits while it is down. -/
def NoRequestLost (ts : List (Transition (ClientLink J) Action)) : Prop :=
  ∀ t ∈ ts, (HangsUp t → ∀ memo ∈ t.before.memos, Fails memo.req t) ∧
    (t.after.Down → t.after.memos = [])

/-! ## What a turn of the link calls -/

section Link

variable {heap : Heap} {memory : Bool} {link : AfbWs}

/-- Reading makes no callback and leaves the link connected. -/
theorem awsReadLoop_quiet (fuel size : Nat) (link : AfbWs) :
    (awsReadLoop heap fuel size link).Post (fun _ => True) fun result =>
      result.2.ws.isSome = true ∧ result.2.events = link.events := by
  induction fuel generalizing size link with
  | zero => trivial
  | succ fuel ih =>
      unfold awsReadLoop
      split
      · trivial
      · dsimp only
        split
        · exact ih size _
        · exact ⟨rfl, rfl⟩
        · split
          · exact ⟨rfl, rfl⟩
          · exact ih _ _

theorem awsRead_quiet (size : Nat) {link : AfbWs} (h : link.ws.isSome = true) :
    (awsRead heap memory size link).Post (fun _ => True) fun result =>
      result.2.ws.isSome = true ∧ result.2.events = link.events := by
  unfold awsRead
  split
  · exact ⟨h, rfl⟩
  · split
    · exact ⟨h, rfl⟩
    · exact awsReadLoop_quiet _ _ _

theorem dropFrame_quiet (link : AfbWs) :
    (dropFrame link).Post (fun _ => True) fun after => after.events = link.events := by
  unfold dropFrame
  split
  · trivial
  · split
    · trivial
    · rfl

theorem afbWsHangup_quiet (link : AfbWs) :
    (afbWsHangup apiWsClientWsItf link).events = link.events := by
  unfold afbWsHangup awsDisconnect
  split
  · rfl
  · rfl

theorem websockError_quiet (code : UInt16) (link : AfbWs) :
    (websockError apiWsClientWsItf .keep code link).Post (fun _ => True) fun after =>
      after.events = link.events := by
  unfold websockError
  split
  · trivial
  · exact afbWsHangup_quiet _

theorem awsDropError_quiet (code : UInt16) (link : AfbWs) :
    (awsDropError apiWsClientWsItf .keep code link).Post (fun _ => True) fun after =>
      after.events = link.events := by
  apply (dropFrame_quiet _).bind
  intro dropped hdropped
  exact (websockError_quiet code dropped).mono fun after hafter => hafter.trans hdropped

/-- If the link is down after the handling, no callback was made. -/
def QuietDown (before after : AfbWs) : Prop := after.ws = none → after.events = before.events

theorem awsContinue_quiet (last : Bool) (size : Nat) (h : link.ws.isSome = true) :
    (awsContinue apiWsClientWsItf heap memory .keep last size link).Post (fun _ => True)
      (QuietDown link) := by
  apply (awsRead_quiet size h).bind
  rintro ⟨complete, read⟩ ⟨hread, hevents⟩
  dsimp only at hread hevents ⊢
  have hup : ∀ after : AfbWs, after.ws = read.ws → QuietDown link after := by
    intro after hws hnone
    rw [← hws, hnone] at hread
    cases hread
  split
  · exact (awsDropError_quiet _ read).mono fun after hafter _ => hafter.trans hevents
  · split
    · split
      · trivial
      · split
        · split
          · exact hup _ rfl
          · trivial
        · split
          · exact hup _ rfl
          · trivial
    · exact hup _ rfl

theorem awsOnFirst_quiet (reading : State) (defined last : Bool) (size : Nat)
    (h : link.ws.isSome = true) :
    (awsOnFirst apiWsClientWsItf heap memory .keep reading defined last size link).Post (fun _ => True)
      (QuietDown link) := by
  unfold awsOnFirst
  split
  · exact (awsDropError_quiet _ link).mono fun after hafter _ => hafter
  · split
    · exact (awsDropError_quiet _ link).mono fun after hafter _ => hafter
    · exact @awsContinue_quiet heap memory { link with state := reading } last size h

theorem handleFrame_quiet {ws : Websock} (h : link.ws.isSome = true) :
    (handleFrame apiWsClientWsItf heap memory .keep ws link).Post (fun _ => True) fun result =>
      QuietDown link result.2 := by
  unfold handleFrame
  split
  · have hcontinue : (awsOnContinue apiWsClientWsItf heap memory .keep ws.fin ws.length link).Post
        (fun _ => True) (QuietDown link) := by
      unfold awsOnContinue
      split
      · exact (awsDropError_quiet _ link).mono fun after hafter _ => hafter
      · exact awsContinue_quiet _ _ h
    exact hcontinue.bind fun after hafter => hafter
  · exact (awsOnFirst_quiet _ _ _ _ h).bind fun after hafter => hafter
  · exact (awsOnFirst_quiet _ _ _ _ h).bind fun after hafter => hafter
  · -- the client has no `on_close`: the link hangs up
    have hclose : (awsOnClose apiWsClientWsItf heap memory .keep (closeCode ws) ws.length link).Post
        (fun _ => True) (QuietDown link) := by
      apply (dropFrame_quiet _).bind
      intro dropped hdropped _
      rw [afbWsHangup_quiet]
      exact hdropped
    exact hclose.bind fun after hafter => hafter
  · exact (dropFrame_quiet link).bind fun after hafter _ => hafter
  · exact (dropFrame_quiet link).bind fun after hafter _ => hafter
  · exact (websockError_quiet _ link).bind fun after hafter _ => hafter

theorem dispatchTurn_quiet :
    (dispatchTurn apiWsClientWsItf heap memory .keep link).Post (fun _ => True) fun result =>
      QuietDown link result.2 := by
  unfold dispatchTurn
  split
  · trivial
  · split
    · exact fun _ => rfl
    · exact fun _ => rfl
    · exact (websockError_quiet _ _).bind fun after hafter _ => hafter
    · exact (websockError_quiet _ _).bind fun after hafter _ => hafter
    · exact @handleFrame_quiet heap memory { link with ws := some _, rx := _ } _ rfl

theorem afterHangup_quiet (asked : Bool) (pc : Pc) (link : AfbWs) :
    (afterHangup apiWsClientWsItf asked pc link).link.events = link.events := by
  unfold afterHangup afbWsHangupAfter
  cases asked with
  | false => rfl
  | true =>
      cases link.destroyed with
      | true => rfl
      | false => exact afbWsHangup_quiet link

theorem step_quiet {before after : Activation} {action : Ws.Action}
    (keeps : ∀ memory reaction, action = .turn memory reaction → reaction = .keep)
    (hstep : Ws.Step apiWsClientWsItf heap before action after) :
    QuietDown before.link after.link := by
  cases hstep with
  | event input hup connected => exact fun _ => rfl
  | @turn link hup memory reaction =>
      have hpost := @dispatchTurn_quiet heap memory link
      rw [keeps memory reaction rfl]
      cases hturn : dispatchTurn apiWsClientWsItf heap memory .keep link with
      | ok result =>
          obtain ⟨next, last⟩ := result
          rw [hturn] at hpost
          cases next with
          | loop => exact hpost
          | back rc => exact hpost
      | blocked => exact fun _ => rfl
      | fault f => exact fun _ => rfl
  | readable => exact fun _ => afterHangup_quiet _ _ _
  | finish => exact fun _ => afterHangup_quiet _ _ _

end Link

/-! ## Runs -/

variable {json : JsonC J} {width : Nat} {heap : Heap} {s s' : ClientLink J} {action : Action}

theorem receive_nil {api : Client J} (h : api.memos = []) (event : Event) :
    (receive json width heap api event).memos = [] := by
  cases event with
  | binary message state buffer =>
      rw [receive]
      cases message.buffer with
      | none => exact h
      | some block =>
          rcases onBinary_cases json api (Readbuf.ofData width (heap.place block.length)
            (block.take message.size) (block.drop message.size)) with hsame | ⟨memo, hmemo, -⟩
          · dsimp only
            rw [hsame.memos, h]
          · rw [h] at hmemo
            cases hmemo
  | text message state buffer => exact h
  | close code reason => exact h
  | error code => exact h
  | hangup => exact h

theorem receiveAll_nil {api : Client J} (h : api.memos = []) (before after : AfbWs) :
    (receiveAll json width heap before after api).memos = [] := by
  unfold receiveAll
  induction after.events.drop before.events.length generalizing api with
  | nil => exact h
  | cons event rest ih => exact ih (receive_nil h event)

variable (json width heap) in
theorem receiveAll_quiet {before after : AfbWs} (h : after.events = before.events)
    (api : Client J) : receiveAll json width heap before after api = api := by
  rw [receiveAll, h, List.drop_length]
  rfl

theorem linkAfter_ws (call : Call) (allocated : Bool) (msgid : UInt32) (link : AfbWs) :
    (linkAfter call allocated msgid link).ws = link.ws := by
  unfold linkAfter
  split
  · rfl
  · unfold afbWsSend
    split
    · rfl
    · rfl

theorem call_down {api : Client J} {sent : Option Writebuf} {req : Nat} {call : Call}
    {allocated : Bool} {link : AfbWs} {before : Client J} (hdown : link.ws = none)
    (made : apiWsClientCallCb req call allocated
      (fun wb => (afbWsSend (.binary wb) link).1 = .ok) before = some (api, sent)) :
    api.memos = before.memos := by
  rcases callCb_cases made with ⟨msgid, -, -, wb, hsent⟩ | ⟨id, effect, -, rfl⟩
  · simp [afbWsSend, hdown] at hsent
  · rfl

/-- The memos of a step that hangs up are those it started with. -/
theorem Step.hangsUp (hstep : Step json width heap s action s')
    (h : HangsUp ⟨s, action, s'⟩) : s'.memos = s.memos ∧ s'.log = s.log := by
  cases hstep with
  | @call activation dialogue api sent call allocated made =>
      have hdown : (linkAfter call allocated api.id activation.link).ws = none := h.2
      rw [linkAfter_ws] at hdown
      exact absurd hdown h.1
  | @link before after dialogue action keeps step =>
      have hquiet : after.link.events = before.link.events := step_quiet keeps step h.2
      have hsame := receiveAll_quiet json width heap hquiet dialogue.api
      refine ⟨?_, ?_⟩
      · show (receiveAll json width heap before.link after.link dialogue.api).memos = _
        rw [hsame]
        rfl
      · show (receiveAll json width heap before.link after.link dialogue.api).log = _
        rw [hsame]
        rfl

/-- While the link is down no memo is made. -/
theorem Step.down (hstep : Step json width heap s action s') (hdown : s.Down)
    (h : s.memos = []) : s'.memos = [] := by
  cases hstep with
  | @call activation dialogue api sent call allocated made => exact (call_down hdown made).trans h
  | @link before after dialogue action keeps step => exact receiveAll_nil h _ _

/-- A step ends with no memo or with the link up, when no memo waits as the link goes
down. -/
theorem Step.noneDown (hstep : Step json width heap s action s') (h : s.Down → s.memos = [])
    (hhangs : HangsUp ⟨s, action, s'⟩ → s.memos = []) (hdown : s'.Down) : s'.memos = [] := by
  by_cases hbefore : s.Down
  · exact hstep.down hbefore (h hbefore)
  · have hangs : HangsUp ⟨s, action, s'⟩ := ⟨hbefore, hdown⟩
    rw [(hstep.hangsUp hangs).1]
    exact hhangs hangs

theorem noneDown_of_runs {rx : List Rx} {tx : List Tx}
    {ts : List (Transition (ClientLink J) Action)}
    (hrun : Runs (Step json width heap) (initial rx tx) s ts)
    (hhangs : ∀ t ∈ ts, HangsUp t → t.before.memos = []) : s.Down → s.memos = [] :=
  Runs.invariant_of (fun s => s.Down → s.memos = []) (fun t => HangsUp t → t.before.memos = [])
    (fun _ _ _ hbefore hhangs hstep => hstep.noneDown hbefore hhangs) hrun (fun _ => rfl) hhangs

/-- In every run: no request is lost exactly when none waits each time the link goes
down. -/
theorem requests_kept_iff {J : Type} {json : JsonC J} {width : Nat} {heap : Heap} {rx : List Rx}
    {tx : List Tx} {s : ClientLink J} {ts : List (Transition (ClientLink J) Action)}
    (hrun : Runs (Step json width heap) (initial rx tx) s ts) :
    NoRequestLost ts ↔ ∀ t ∈ ts, HangsUp t → t.before.memos = [] := by
  constructor
  · intro hkept t ht hangs
    have hstep := (hrun.mem_spec ht).1
    rw [← (hstep.hangsUp hangs).1]
    exact (hkept t ht).2 hangs.2
  · intro hnone t ht
    refine ⟨fun hangs memo hmemo => ?_, ?_⟩
    · rw [hnone t ht hangs] at hmemo
      cases hmemo
    · obtain ⟨hstep, us, hfront, hus⟩ := hrun.mem_spec ht
      exact hstep.noneDown (noneDown_of_runs hus fun u hu => hnone u (hfront.subset hu))
        (hnone t ht)

/-- A call of the verb `g`. -/
def callG : Call := ⟨0, [103], 1, ⟨[117], by decide⟩, some []⟩

/-- The client `objectless` on 64 bits, after its first call. -/
def called (rx : List Rx) : ClientLink Empty :=
  ⟨⟨linkAfter callG true 1 (afbWsCreate rx []), .idle⟩, ⟨⟨1, [⟨1, 0⟩], [], []⟩, 1⟩⟩

theorem called_step (rx : List Rx) :
    Step objectless 64 zeroHeap (initial rx []) (.call callG true) (called rx) :=
  @Step.call Empty objectless 64 zeroHeap ⟨afbWsCreate rx [], .idle⟩ .initial
    ⟨1, [⟨1, 0⟩], [], []⟩ (callMessage 1 callG []) callG true rfl

/-- The link goes down, then a call is made. -/
theorem requests_kept_iff_refused :
    ∃ (s : ClientLink Empty) (ts : List (Transition (ClientLink Empty) Action)),
      Runs (Step objectless 64 zeroHeap) (initial [] []) s ts ∧ s.Down ∧ NoRequestLost ts ∧
        s.log = [.fail 0 none (ascii "error") (some (ascii "websocket sending error"))] := by
  have hidle : Runs (Step objectless 64 zeroHeap) (initial [] []) _ [] := Runs.refl
  have hevent := hidle.snoc (Step.link (by simp) (Ws.Step.event false true rfl))
  have hfinish := hevent.snoc (Step.link (by simp) Ws.Step.finish)
  have hcall := hfinish.snoc (@Step.call Empty objectless 64 zeroHeap _ _
    ⟨1, [], [], [.fail 0 none (ascii "error") (some (ascii "websocket sending error"))]⟩ none
    callG true rfl)
  refine ⟨_, _, hcall, rfl, (requests_kept_iff hcall).mpr ?_, rfl⟩
  intro t ht _
  simp only [List.nil_append, List.mem_append, List.mem_singleton] at ht
  rcases ht with (rfl | rfl) | rfl
  · rfl
  · rfl
  · rfl

/-- A call is made and the socket hangs up before the reply. -/
theorem requests_lost :
    ¬ ∀ (J : Type) (json : JsonC J) (width : Nat) (heap : Heap) (rx : List Rx) (tx : List Tx)
        (s : ClientLink J) (ts : List (Transition (ClientLink J) Action)),
        Runs (Step json width heap) (initial rx tx) s ts → NoRequestLost ts := by
  intro h
  have hcall : Runs (Step objectless 64 zeroHeap) (initial [] []) (called []) _ :=
    .single (called_step [])
  have hevent := hcall.snoc (Step.link (by simp) (Ws.Step.event false true rfl))
  have hfinish := hevent.snoc (Step.link (by simp) Ws.Step.finish)
  have hlost := h Empty objectless 64 zeroHeap [] [] _ _ hfinish
  have hlast := (hlost _ (List.mem_append_right _ (List.mem_singleton_self _))).2 rfl
  cases hlast

end ClientLink

end AfbBinder.ApiWs
