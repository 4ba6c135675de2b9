import AfbBinder.ApiWs.Replies
import AfbBinder.ApiWs.RoundTrip
import AfbBinder.Lib.Exchange

/-!
# The exchange of calls and replies over a binder link

Both ends of a link at once: the client makes calls, the server gets them and the bindings
answer them in any order, and the frames travel in order in each direction.  A request of
the client is a number, the rank of its call.  The bytes of a frame are what one end has
written and what the other end reads, anywhere in its memory; the tickets that travel with
them are for the statements only, no function reads them.
-/

namespace AfbBinder.ApiWs

open Lib Lib.Exchange

variable {J : Type}

/-! ## What a binding answers -/

/-- How a request ends. -/
inductive Outcome (J : Type) where
  | success (flags : UInt32) (object : Option J) (info : Option Bytes)
  | fail (flags : UInt32) (status : Bytes) (info : Option Bytes)
  | send (flags : UInt32) (data : Bytes)

/-- The request that an effect ends and how, `none` for a failure that the client makes. -/
def Effect.ending : Effect J → Option (Nat × Option (Outcome J))
  | .success req flags object info => some (req, some (.success flags object info))
  | .fail req (some flags) status info => some (req, some (.fail flags status info))
  | .fail req none _ _ => some (req, none)
  | .send req flags data => some (req, some (.send flags data))
  | _ => none

/-- The replies of a binding to a request. -/
inductive Answer (J : Type) where
  | success (object : Option J) (info : Option CString)
  | fail (status : CString) (info : Option CString)
  | send (buffer : Bytes)

/-- The message of `api_ws_server_req_success_cb`, `api_ws_server_req_fail_cb` or
`api_ws_server_req_send_cb`; the flags are those of the context of the request. -/
def Answer.message (msgid flags : UInt32) : Answer J → ServerMessage J
  | .success object info => .success msgid flags object info
  | .fail status info => .fail msgid flags status info
  | .send buffer => .send msgid flags buffer

/-- What the answer is to the request of the client. -/
def Answer.outcome (flags : UInt32) : Answer J → Outcome J
  | .success object info => .success flags object (optionalInfo (info.getD emptyString).bytes)
  | .fail status info => .fail flags status.bytes (optionalInfo (info.getD emptyString).bytes)
  | .send buffer => .send flags buffer

/-- The messages that complete no call. -/
def ServerMessage.isNotice : ServerMessage J → Bool
  | .success .. => false
  | .fail .. => false
  | .send .. => false
  | _ => true

/-! ## Both ends and what is between -/

/-- The message of a call on its way to the server. -/
structure Parcel where
  ticket : Ticket UInt32
  frame : Bytes

/-- A call that the server has got and not answered. -/
structure Pending where
  ticket : Ticket UInt32
  call : ServerCall

/-- A message on its way to the client, with the call that it replies to and how. -/
structure Envelope (J : Type) where
  reply : Option (Ticket UInt32 × Outcome J)
  message : ServerMessage J
  frame : Bytes

structure Exchange (J : Type) where
  client : Client J
  /-- the calls made, by request -/
  asked : List Call
  upstream : List Parcel
  pending : List Pending
  downstream : List (Envelope J)
  /-- the calls that will get no reply -/
  lost : List (Ticket UInt32)
  /-- the calls that the server has got, in order -/
  received : List (Nat × ServerCall)
  /-- what the bindings have answered -/
  answers : List (Nat × Outcome J)

inductive ExchangeAction (J : Type) where
  | call (call : Call) (allocated : Bool) (sends : Writebuf → Bool)
  | serve (width base : Nat) (beyond : Bytes) (accepts : Bool)
  | answer (index : Nat) (flags : UInt32) (answer : Answer J) (sends : Writebuf → Bool)
  | abandon (index : Nat)
  | notify (message : ServerMessage J) (sends : Writebuf → Bool)
  | deliver (width base : Nat) (beyond : Bytes)

instance (call : Call) : Decidable call.VerbOk :=
  decidable_of_iff (call.lenverb ≤ call.verb.length ∧ (0 : UInt8) ∉ call.verb.take call.lenverb)
    ⟨fun h => ⟨h.1, h.2⟩, fun h => ⟨h.inMemory, h.nulFree⟩⟩

def Memo.ticket (memo : Memo) : Ticket UInt32 := ⟨memo.msgid, memo.req⟩

namespace Exchange

variable (json : JsonC J)

def initial : Exchange J := ⟨.initial, [], [], [], [], [], [], []⟩

/-- The client calls: what it sends is for the memo it has just made. -/
def call (call : Call) (allocated : Bool) (sends : Writebuf → Bool) (s : Exchange J) :
    Option (Exchange J) :=
  if call.VerbOk then do
    let (client, sent) ← apiWsClientCallCb s.asked.length call allocated sends s.client
    let parcel : Option Parcel := do
      let wb ← sent
      let memo ← client.memos.head?
      some ⟨memo.ticket, wb.flatten⟩
    some { s with
      client
      asked := s.asked ++ [call]
      upstream := s.upstream ++ parcel.toList }
  else none

/-- `api_ws_server_on_binary`.  A call that is not read, for which there is no memory or
whose context is not connected is dropped without a word. -/
def serve (width base : Nat) (beyond : Bytes) (accepts : Bool) (s : Exchange J) :
    Option (Exchange J) :=
  match s.upstream with
  | [] => none
  | parcel :: upstream =>
      if base + parcel.frame.length < 2 ^ width then
        match apiWsServerCalled (Readbuf.ofData width base parcel.frame beyond), accepts with
        | some (call, _), true =>
            some { s with
              upstream
              pending := s.pending ++ [⟨parcel.ticket, call⟩]
              received := s.received ++ [(parcel.ticket.rank, call)] }
        | _, _ => some { s with upstream, lost := parcel.ticket :: s.lost }
      else none

/-- What the server sends.  A message that is not written or not sent is dropped. -/
def emit (reply : Option (Ticket UInt32 × Outcome J)) (message : ServerMessage J)
    (sends : Writebuf → Bool) (s : Exchange J) : Exchange J :=
  match message.encode json with
  | none => { s with lost := (reply.map Prod.fst).toList ++ s.lost }
  | some wb =>
      if sends wb then { s with downstream := s.downstream ++ [⟨reply, message, wb.flatten⟩] }
      else { s with lost := (reply.map Prod.fst).toList ++ s.lost }

/-- A binding answers one of the calls, which it does once. -/
def answer (index : Nat) (flags : UInt32) (answer : Answer J) (sends : Writebuf → Bool)
    (s : Exchange J) : Option (Exchange J) := do
  let entry ← s.pending[index]?
  let outcome := answer.outcome flags
  some (emit json (some (entry.ticket, outcome)) (answer.message entry.call.msgid flags) sends
    { s with
      pending := s.pending.eraseIdx index
      answers := s.answers ++ [(entry.ticket.rank, outcome)] })

/-- A request is released without an answer: `api_ws_server_req_unref` says nothing. -/
def abandon (index : Nat) (s : Exchange J) : Option (Exchange J) := do
  let entry ← s.pending[index]?
  some { s with pending := s.pending.eraseIdx index, lost := entry.ticket :: s.lost }

/-- The client gets the next message. -/
def deliver (width base : Nat) (beyond : Bytes) (s : Exchange J) : Option (Exchange J) :=
  match s.downstream with
  | [] => none
  | envelope :: downstream =>
      if base + envelope.frame.length < 2 ^ width then
        some { s with
          downstream
          client := (apiWsClientOnBinary json s.client
            (Readbuf.ofData width base envelope.frame beyond)).1 }
      else none

/-- One step of the client, of the server, of a binding or of the link. -/
def step (s : Exchange J) : ExchangeAction J → Option (Exchange J)
  | .call call allocated sends => s.call call allocated sends
  | .serve width base beyond accepts => s.serve width base beyond accepts
  | .answer index flags answer sends => s.answer json index flags answer sends
  | .abandon index => s.abandon index
  | .notify message sends => if message.isNotice then some (emit json none message sends s) else none
  | .deliver width base beyond => s.deliver json width base beyond

/-- The requests and replies of a binder link, without their bytes. -/
def view (s : Exchange J) : State UInt32 (Outcome J) where
  issued := s.asked.length
  waiting := s.client.memos.map Memo.ticket
  upstream := s.upstream.map Parcel.ticket
  pending := s.pending.map Pending.ticket
  downstream := s.downstream.filterMap Envelope.reply
  lost := s.lost
  received := s.received.map Prod.fst
  answers := s.answers
  ended := s.client.log.filterMap Effect.ending

end Exchange

/-! ## A call sent, a message received -/

variable {json : JsonC J} {api api' : Client J}

/-- A call either waits under a new identifier, its message sent, or ends at once and
nothing is sent. -/
theorem callCb_sent {req : Nat} {call : Call} {allocated : Bool} {sends : Writebuf → Bool}
    {sent : Option Writebuf} (h : apiWsClientCallCb req call allocated sends api = some (api', sent)) :
    (∃ msgid raw wb, msgid ∉ api.memos.map Memo.msgid ∧ call.raw = some raw ∧
      callMessage msgid call raw = some wb ∧ sent = some wb ∧
      api' = { api with id := msgid, memos := ⟨msgid, req⟩ :: api.memos }) ∨
    ∃ id effect, effect.ending = some (req, none) ∧ sent = none ∧
      api' = { api with id := id, log := api.log ++ [effect] } := by
  rw [apiWsClientCallCb] at h
  split at h
  case isTrue =>
    cases h
    exact .inr ⟨api.id, _, rfl, rfl, rfl⟩
  case isFalse =>
    rw [Option.bind_eq_bind, Option.bind_eq_some_iff] at h
    rcases h with ⟨⟨memo, made⟩, hmake, h⟩
    rcases memoMake_some hmake with ⟨rfl, hfresh, rfl⟩
    have hfail (info : String) : failCall memo info _ = _ := failCall_eq memo info memo.msgid api
    cases hraw : call.raw with
    | none =>
        simp only [hraw, hfail] at h
        cases h
        exact .inr ⟨memo.msgid, _, rfl, rfl, rfl⟩
    | some raw =>
        cases hmessage : callMessage memo.msgid call raw with
        | none =>
            simp only [hraw, hmessage, hfail] at h
            cases h
            exact .inr ⟨memo.msgid, _, rfl, rfl, rfl⟩
        | some wb =>
            simp only [hraw, hmessage, hfail] at h
            split at h
            · cases h
              exact .inl ⟨memo.msgid, raw, wb, hfresh, rfl, hmessage, rfl, rfl⟩
            · cases h
              exact .inr ⟨memo.msgid, _, rfl, rfl, rfl⟩

/-- A change of the client that ends no call. -/
structure Quiet (api api' : Client J) : Prop where
  memos : api'.memos = api.memos
  log : api'.log.filterMap Effect.ending = api.log.filterMap Effect.ending

theorem Quiet.refl (api : Client J) : Quiet api api := ⟨rfl, rfl⟩

theorem Quiet.effect {effect : Effect J} (h : effect.ending = none) (api : Client J) :
    Quiet api (api.effect effect) :=
  ⟨rfl, by simp [Client.effect, h]⟩

theorem createEvent_quiet (eventid : UInt32) (name : Bytes) (api : Client J) :
    Quiet api (createEvent eventid name api) := by
  rw [createEvent]
  split
  · exact ⟨rfl, rfl⟩
  · exact ⟨rfl, by simp [Effect.ending]⟩

theorem dropEvent_quiet (ev : ApiWsEvent) (api : Client J) : Quiet api (dropEvent ev api) := by
  rw [dropEvent]
  split
  · exact ⟨rfl, rfl⟩
  · exact ⟨rfl, by simp [Effect.ending]⟩

/-- What a message that completes no call means to the client. -/
theorem receive_quiet {message : ServerMessage J} (h : message.isNotice = true)
    (api : Client J) : Quiet api ((message.receive api).getD api) := by
  cases hreceive : message.receive api with
  | none => exact .refl api
  | some api' =>
      cases message with
      | success | fail | send => cases h
      | broadcast event object =>
          cases hreceive
          exact .effect rfl api
      | add event eventid =>
          cases hreceive
          exact createEvent_quiet eventid event.bytes api
      | remove event eventid =>
          rcases Option.bind_eq_some_iff.mp hreceive with ⟨ev, -, hdrop⟩
          cases hdrop
          exact dropEvent_quiet ev api
      | push event eventid object =>
          rcases Option.bind_eq_some_iff.mp hreceive with ⟨ev, -, hpush⟩
          cases hpush
          exact .effect rfl api
      | subscribe msgid eventid name | unsubscribe msgid eventid name =>
          rcases Option.bind_eq_some_iff.mp hreceive with ⟨memo, -, hevent⟩
          rcases Option.bind_eq_some_iff.mp hevent with ⟨ev, -, heffect⟩
          cases heffect
          exact .effect rfl api

/-- The answer to a call that waits is given to its request. -/
theorem receive_answer {memo : Memo} {msgid : UInt32}
    (hsearch : apiWsClientMemoSearch api.memos msgid = some memo) (flags : UInt32)
    (answer : Answer J) :
    ∃ effect, effect.ending = some (memo.req, some (answer.outcome flags)) ∧
      (answer.message msgid flags).receive api =
        some (apiWsClientMemoDestroy memo (api.effect effect)) := by
  cases answer with
  | success object info =>
      refine ⟨.success memo.req flags object (optionalInfo (info.getD emptyString).bytes), rfl, ?_⟩
      simp [Answer.message, ServerMessage.receive, hsearch]
  | fail status info =>
      refine ⟨.fail memo.req (some flags) status.bytes
        (optionalInfo (info.getD emptyString).bytes), rfl, ?_⟩
      simp [Answer.message, ServerMessage.receive, hsearch]
  | send buffer =>
      refine ⟨.send memo.req flags buffer, rfl, ?_⟩
      simp [Answer.message, ServerMessage.receive, hsearch]

theorem receive_unknown {msgid : UInt32}
    (hsearch : apiWsClientMemoSearch api.memos msgid = none) (flags : UInt32)
    (answer : Answer J) : (answer.message msgid flags).receive api = none := by
  cases answer <;> simp [Answer.message, ServerMessage.receive, hsearch]

theorem Memo.ticket_injective : Function.Injective Memo.ticket := by
  intro memo memo' h
  cases memo
  cases memo'
  cases h
  rfl

/-- A memo is found as its ticket is. -/
theorem search_ticket (memos : List Memo) (msgid : UInt32) :
    Keyed.search Ticket.key (memos.map Memo.ticket) msgid =
      (apiWsClientMemoSearch memos msgid).map Memo.ticket :=
  Keyed.search_map fun _ => rfl

/-! ## The bytes -/

/-- What the server has got of a request is what the client asked. -/
def Asked (asked : List Call) (req : Nat) (call : ServerCall) : Prop :=
  ∃ source raw, asked[req]? = some source ∧ source.raw = some raw ∧ call.flags = source.flags ∧
    call.verb = source.verb.take source.lenverb ∧ call.uuid = source.uuid.bytes ∧
    call.request = raw

/-- The frame of a parcel is the message of its call. -/
def Parcel.Carries (asked : List Call) (parcel : Parcel) : Prop :=
  ∃ source raw, asked[parcel.ticket.rank]? = some source ∧ source.VerbOk ∧
    source.raw = some raw ∧ source.Fits raw ∧
    parcel.frame = callFields parcel.ticket.key source raw

/-- The frame of an envelope is its message, which replies to the call of its ticket or to
none. -/
structure Envelope.Sealed (json : JsonC J) (envelope : Envelope J) : Prop where
  fits : envelope.message.Fits json
  frame : envelope.frame = envelope.message.order :: envelope.message.fields json
  notice : envelope.reply = none → envelope.message.isNotice = true
  answer : ∀ ticket outcome, envelope.reply = some (ticket, outcome) →
    ∃ (flags : UInt32) (answer : Answer J),
      envelope.message = answer.message ticket.key flags ∧ outcome = answer.outcome flags

namespace Exchange

structure Framed (json : JsonC J) (s : Exchange J) : Prop where
  carried : ∀ parcel ∈ s.upstream, parcel.Carries s.asked
  received : ∀ got ∈ s.received, Asked s.asked got.1 got.2
  waiting : ∀ entry ∈ s.pending, entry.call.msgid = entry.ticket.key
  sealed : ∀ envelope ∈ s.downstream, envelope.Sealed json

theorem framed_initial : (initial : Exchange J).Framed json := ⟨nofun, nofun, nofun, nofun⟩

variable {s s' : Exchange J}

/-! ### Calls -/

theorem asked_snoc {asked : List Call} {req : Nat} {source : Call} (h : asked[req]? = some source)
    (call : Call) : (asked ++ [call])[req]? = some source := by
  rw [List.getElem?_append_left (List.getElem?_eq_some_iff.mp h).1, h]

/-- The calls made so far are not changed by another one. -/
theorem Framed.snoc (h : s.Framed json) (call : Call) :
    { s with asked := s.asked ++ [call] }.Framed json where
  carried := by
    intro parcel hparcel
    rcases h.carried parcel hparcel with ⟨source, raw, hsource, hrest⟩
    exact ⟨source, raw, asked_snoc hsource call, hrest⟩
  received := by
    intro got hgot
    rcases h.received got hgot with ⟨source, raw, hsource, hrest⟩
    exact ⟨source, raw, asked_snoc hsource call, hrest⟩
  waiting := h.waiting
  sealed := h.sealed

theorem Framed.call {call : Call} {allocated : Bool} {sends : Writebuf → Bool}
    (h : s.Framed json) (hstep : s.call call allocated sends = some s') :
    s'.Framed json ∧ Step s.view s'.view := by
  rw [Exchange.call] at hstep
  split at hstep
  case isFalse => cases hstep
  case isTrue hverb =>
    rcases Option.bind_eq_some_iff.mp hstep with ⟨⟨client, sent⟩, hcall, hmade⟩
    rcases callCb_sent hcall with ⟨msgid, raw, wb, hfresh, hraw, hmessage, rfl, rfl⟩ |
      ⟨id, effect, hending, rfl, rfl⟩
    · -- the request waits, its message is the last one on its way
      have hfits : call.Fits raw := by
        by_contra hnot
        rw [callMessage_refused msgid hnot] at hmessage
        cases hmessage
      rcases callMessage_fits msgid hverb hfits with ⟨count, vectors, hvectors, hbytes, -⟩
      cases hvectors.symm.trans hmessage
      cases hmade
      have hsnoc := h.snoc call
      constructor
      · refine ⟨fun parcel hparcel => ?_, hsnoc.received, hsnoc.waiting, hsnoc.sealed⟩
        rcases List.mem_append.mp hparcel with hparcel | hparcel
        · exact hsnoc.carried parcel hparcel
        · cases List.mem_singleton.mp hparcel
          exact ⟨call, raw, by simp [Memo.ticket], hverb, hraw, hfits, hbytes⟩
      · have hkey : msgid ∉ s.view.waiting.map Ticket.key := by
          simpa [view, Memo.ticket, Function.comp_def] using hfresh
        have hissue := Step.issue msgid hkey
        simpa [view, Memo.ticket] using hissue
    · -- the request ends at once
      cases hmade
      constructor
      · have hsnoc := h.snoc call
        exact ⟨by simpa using hsnoc.carried, hsnoc.received, hsnoc.waiting, hsnoc.sealed⟩
      · have hrefuse : Step s.view _ := .refuse
        simpa [view, hending] using hrefuse

/-! ### Calls received -/

theorem Framed.serve {width base : Nat} {beyond : Bytes} {accepts : Bool} (h : s.Framed json)
    (hstep : s.serve width base beyond accepts = some s') :
    s'.Framed json ∧ Step s.view s'.view := by
  rw [Exchange.serve] at hstep
  split at hstep
  case h_1 => cases hstep
  case h_2 parcel upstream hup =>
    have hnext : s.view.upstream = parcel.ticket :: upstream.map Parcel.ticket := by
      simp [view, hup]
    have hrest : ∀ other ∈ upstream, other.Carries s.asked := fun other hother =>
      h.carried other (hup ▸ List.mem_cons_of_mem parcel hother)
    split at hstep
    case isFalse => cases hstep
    case isTrue hroom =>
      rcases h.carried parcel (hup ▸ List.mem_cons_self) with
        ⟨source, raw, hsource, hverb, hraw, hfits, hframe⟩
      have hunread := unread_ofData parcel.frame beyond hroom
      rw [hframe] at hunread
      rcases serverCalled_written hverb hfits hunread with ⟨rb, hcalled, -⟩
      rw [← hframe] at hcalled
      rw [hcalled] at hstep
      cases accepts with
      | true =>
          cases hstep
          constructor
          · refine ⟨hrest, fun got hgot => ?_, fun entry hentry => ?_, h.sealed⟩
            · rcases List.mem_append.mp hgot with hgot | hgot
              · exact h.received got hgot
              · rw [List.mem_singleton.mp hgot]
                exact ⟨source, raw, hsource, hraw, rfl, rfl, rfl, rfl⟩
            · rcases List.mem_append.mp hentry with hentry | hentry
              · exact h.waiting entry hentry
              · rw [List.mem_singleton.mp hentry]
          · have haccept := Step.accept hnext
            simpa [view] using haccept
      | false =>
          cases hstep
          exact ⟨⟨hrest, h.received, h.waiting, h.sealed⟩, .drop hnext⟩

/-! ### Answers -/

theorem emit_cases (json : JsonC J) (reply : Option (Ticket UInt32 × Outcome J))
    (message : ServerMessage J) (sends : Writebuf → Bool) (s : Exchange J) :
    (∃ frame, message.Fits json ∧ frame = message.order :: message.fields json ∧
      emit json reply message sends s =
        { s with downstream := s.downstream ++ [⟨reply, message, frame⟩] }) ∨
    emit json reply message sends s =
      { s with lost := (reply.map Prod.fst).toList ++ s.lost } := by
  rw [emit]
  split
  case h_1 => exact .inr rfl
  case h_2 wb hencode =>
    split
    case isFalse => exact .inr rfl
    case isTrue =>
      left
      have hfits : message.Fits json := by
        by_contra hnot
        rw [message.encode_refused json hnot] at hencode
        cases hencode
      rcases message.encode_fits json hfits with ⟨count, vectors, hvectors, hbytes, -⟩
      cases hvectors.symm.trans hencode
      exact ⟨wb.flatten, hfits, hbytes, rfl⟩

theorem Framed.answer {index : Nat} {flags : UInt32} {answer : Answer J} {sends : Writebuf → Bool}
    (h : s.Framed json) (hstep : s.answer json index flags answer sends = some s') :
    s'.Framed json ∧ Step s.view s'.view := by
  rcases Option.bind_eq_some_iff.mp hstep with ⟨entry, hentry, hmade⟩
  cases hmade
  have hmsgid := h.waiting entry (List.mem_of_getElem? hentry)
  have hfound : s.view.pending[index]? = some entry.ticket := by
    simp [view, hentry]
  have hpending : ∀ other ∈ s.pending.eraseIdx index, other.call.msgid = other.ticket.key :=
    fun other hother => h.waiting other (List.mem_of_mem_eraseIdx hother)
  rcases emit_cases json (some (entry.ticket, answer.outcome flags))
    (answer.message entry.call.msgid flags) sends { s with
      pending := s.pending.eraseIdx index
      answers := s.answers ++ [(entry.ticket.rank, answer.outcome flags)] } with
    ⟨frame, hfits, hframe, hsent⟩ | hlost
  · rw [hsent]
    constructor
    · refine ⟨h.carried, h.received, hpending, fun envelope henvelope => ?_⟩
      rcases List.mem_append.mp henvelope with henvelope | henvelope
      · exact h.sealed envelope henvelope
      · rw [List.mem_singleton.mp henvelope]
        refine ⟨hfits, hframe, nofun, fun ticket outcome hreply => ?_⟩
        cases hreply
        exact ⟨flags, answer, by rw [hmsgid], rfl⟩
    · have hanswer := Step.answer hfound (answer.outcome flags)
      simpa [view, List.eraseIdx_map] using hanswer
  · rw [hlost]
    constructor
    · exact ⟨h.carried, h.received, hpending, h.sealed⟩
    · have hmislay := Step.mislay hfound (answer.outcome flags)
      simpa [view, List.eraseIdx_map] using hmislay

theorem Framed.abandon {index : Nat} (h : s.Framed json) (hstep : s.abandon index = some s') :
    s'.Framed json ∧ Step s.view s'.view := by
  rcases Option.bind_eq_some_iff.mp hstep with ⟨entry, hentry, hmade⟩
  cases hmade
  have hfound : s.view.pending[index]? = some entry.ticket := by
    simp [view, hentry]
  constructor
  · refine ⟨h.carried, h.received, fun other hother => ?_, h.sealed⟩
    exact h.waiting other (List.mem_of_mem_eraseIdx hother)
  · have habandon := Step.abandon hfound
    simpa [view, List.eraseIdx_map] using habandon

theorem Framed.notify {message : ServerMessage J} {sends : Writebuf → Bool} (h : s.Framed json)
    (hnotice : message.isNotice = true) :
    (emit json none message sends s).Framed json ∧ (emit json none message sends s).view = s.view := by
  rcases emit_cases json none message sends s with ⟨frame, hfits, hframe, hsent⟩ | hlost
  · rw [hsent]
    constructor
    · refine ⟨h.carried, h.received, h.waiting, fun envelope henvelope => ?_⟩
      rcases List.mem_append.mp henvelope with henvelope | henvelope
      · exact h.sealed envelope henvelope
      · rw [List.mem_singleton.mp henvelope]
        exact ⟨hfits, hframe, fun _ => hnotice, nofun⟩
    · simp [view]
  · rw [hlost]
    exact ⟨h, rfl⟩

/-! ### Messages received -/

theorem deliver_cases (hjson : json.Inverse) {width base : Nat} {beyond : Bytes}
    (h : s.Framed json) (hstep : s.deliver json width base beyond = some s') :
    ∃ envelope downstream, s.downstream = envelope :: downstream ∧ envelope.Sealed json ∧
      s' = { s with
        downstream, client := (envelope.message.receive s.client).getD s.client } := by
  rw [deliver] at hstep
  split at hstep
  case h_1 => cases hstep
  case h_2 envelope downstream hdown =>
    have hsealed := h.sealed envelope (hdown ▸ List.mem_cons_self)
    refine ⟨envelope, downstream, hdown, hsealed, ?_⟩
    split at hstep
    case isFalse => cases hstep
    case isTrue hroom =>
      have hunread := unread_ofData envelope.frame beyond hroom
      rw [hsealed.frame] at hunread
      have hreads := ServerMessage.onBinary_written hjson hsealed.fits hunread s.client
      rw [← hsealed.frame] at hreads
      have hclient : (apiWsClientOnBinary json s.client
          (Readbuf.ofData width base envelope.frame beyond)).1 =
            (envelope.message.receive s.client).getD s.client := by
        cases hreceive : envelope.message.receive s.client with
        | none =>
            rw [hreceive] at hreads
            exact hreads
        | some client =>
            rw [hreceive] at hreads
            exact hreads.1
      rw [← hclient]
      exact (Option.some.inj hstep).symm

theorem Framed.deliver (hjson : json.Inverse) {width base : Nat} {beyond : Bytes}
    (h : s.Framed json) (hstep : s.deliver json width base beyond = some s') :
    s'.Framed json ∧ (s'.view = s.view ∨ Step s.view s'.view) := by
  rcases deliver_cases hjson h hstep with ⟨envelope, downstream, hdown, hsealed, rfl⟩
  constructor
  · exact ⟨h.carried, h.received, h.waiting, fun other hother =>
      h.sealed other (hdown ▸ List.mem_cons_of_mem envelope hother)⟩
  cases hreply : envelope.reply with
  | none =>
      left
      have hquiet := receive_quiet (hsealed.notice hreply) s.client
      simp [view, hdown, hreply, hquiet.memos, hquiet.log]
  | some reply =>
      right
      rcases reply with ⟨ticket, outcome⟩
      rcases hsealed.answer ticket outcome hreply with ⟨flags, answer, hmessage, rfl⟩
      have hnext : s.view.downstream =
          (ticket, answer.outcome flags) :: downstream.filterMap Envelope.reply := by
        simp [view, hdown, hreply]
      have hfound : Keyed.search Ticket.key s.view.waiting ticket.key =
          (apiWsClientMemoSearch s.client.memos ticket.key).map Memo.ticket :=
        search_ticket s.client.memos ticket.key
      rw [hmessage]
      cases hsearch : apiWsClientMemoSearch s.client.memos ticket.key with
      | none =>
          rw [hsearch] at hfound
          rw [receive_unknown hsearch]
          exact .ignore hnext hfound
      | some memo =>
          rw [hsearch] at hfound
          rcases receive_answer hsearch flags answer with ⟨effect, hending, hreceive⟩
          rw [hreceive]
          have hsettle := Step.settle hnext hfound
          simpa [view, apiWsClientMemoDestroy, Client.effect, hending,
            List.map_erase Memo.ticket_injective, Memo.ticket] using hsettle

/-! ### Runs -/

/-- A step of the link is a step of requests and replies, or nothing for them. -/
theorem Framed.step (hjson : json.Inverse) {action : ExchangeAction J} (h : s.Framed json)
    (hstep : s.step json action = some s') :
    s'.Framed json ∧ (s'.view = s.view ∨ Step s.view s'.view) := by
  cases action with
  | call call allocated sends => exact (h.call hstep).imp_right .inr
  | serve width base beyond accepts => exact (h.serve hstep).imp_right .inr
  | answer index flags answer sends => exact (h.answer hstep).imp_right .inr
  | abandon index => exact (h.abandon hstep).imp_right .inr
  | notify message sends =>
      simp only [Exchange.step] at hstep
      split at hstep
      case isFalse => cases hstep
      case isTrue hnotice =>
        cases hstep
        exact (h.notify hnotice).imp_right .inl
  | deliver width base beyond => exact h.deliver hjson hstep

theorem sound_of_runs (hjson : json.Inverse) {ts : List (Transition (Exchange J) (ExchangeAction J))}
    (hrun : Runs (fun s action s' => s.step json action = some s') initial s ts) :
    s.Framed json ∧ Sound s.view := by
  apply hrun.invariant fun s => s.Framed json ∧ Sound s.view
  · intro s action s' h hstep
    rcases h.1.step hjson hstep with ⟨hframed, hsame | hview⟩
    · exact ⟨hframed, hsame ▸ h.2⟩
    · exact ⟨hframed, h.2.step hview⟩
  · exact ⟨framed_initial, sound_initial⟩

end Exchange

/-- In every run of both ends: the server gets calls in the order they were made, none
twice and each with the fields of the call; a request ends at most once, by a failure of
the client for a call that the server never gets, or with what a binding has answered to
that very call, which is one answer at most; and each request made has ended, is on its
way, waits at the server, has its answer on the way back, or is among the calls dropped. -/
theorem calls_answered {J : Type} {json : JsonC J} (hjson : json.Inverse) {s : Exchange J}
    {ts : List (Transition (Exchange J) (ExchangeAction J))}
    (hrun : Runs (fun s action s' => s.step json action = some s') Exchange.initial s ts) :
    (s.received.map Prod.fst).Pairwise (· < ·) ∧
    (∀ got ∈ s.received, Asked s.asked got.1 got.2) ∧
    (∀ effect ∈ s.client.log, ∀ req,
      (effect.ending = some (req, none) → req ∉ s.received.map Prod.fst) ∧
      ∀ outcome, effect.ending = some (req, some outcome) → (req, outcome) ∈ s.answers) ∧
    (s.answers.map Prod.fst).Nodup ∧
    (∀ given ∈ s.answers, given.1 ∈ s.received.map Prod.fst) ∧
    (s.view.ended.map Prod.fst).Nodup ∧
    (s.view.ended.map Prod.fst ++ s.view.journey.map Ticket.rank).Perm
      (List.range s.asked.length) := by
  rcases Exchange.sound_of_runs hjson hrun with ⟨hframed, hsound⟩
  have hended : ∀ effect ∈ s.client.log, ∀ ending, effect.ending = some ending →
      ending ∈ s.view.ended := fun effect heffect ending hending =>
    List.mem_filterMap.mpr ⟨effect, heffect, hending⟩
  refine ⟨hsound.received_ordered, hframed.received, fun effect heffect req => ⟨?_, ?_⟩,
    hsound.answered_once, hsound.answered, hsound.ended_once, hsound.whole⟩
  · intro hnone
    exact hsound.refused_unreceived (hended effect heffect _ hnone)
  · intro outcome houtcome
    exact hsound.replied req outcome (hended effect heffect _ houtcome)

/-- A call of the verb `go`. -/
def goCall : Call := ⟨1, [103, 111, 47], 2, ⟨[118], by decide⟩, some [49]⟩

/-- After the call, its reception, its answer and the delivery of the reply. -/
def goAnswered : Exchange Unit where
  client := ⟨1, [], [], [.success 0 1 (some ()) none]⟩
  asked := [goCall]
  upstream := []
  pending := []
  downstream := []
  lost := []
  received := [(0, ⟨1, 1, [103, 111], [118], [49]⟩)]
  answers := [(0, .success 1 (some ()) none)]

theorem calls_answered_go :
    (0, .success 1 (some ()) none) ∈ goAnswered.answers ∧
      (goAnswered.view.ended.map Prod.fst ++ goAnswered.view.journey.map Ticket.rank).Perm [0] := by
  let waiting : Client Unit := ⟨1, [⟨1, 0⟩], [], []⟩
  let called : Exchange Unit :=
    ⟨waiting, [goCall], [⟨⟨1, 0⟩, callFields 1 goCall [49]⟩], [], [], [], [], []⟩
  let served : Exchange Unit := { goAnswered with
    client := waiting, pending := [⟨⟨1, 0⟩, ⟨1, 1, [103, 111], [118], [49]⟩⟩], answers := [] }
  let replied : Exchange Unit := { goAnswered with
    client := waiting
    downstream := [⟨some (⟨1, 0⟩, .success 1 (some ()) none), .success 1 1 (some ()) none,
      [84, 1, 0, 0, 0, 1, 0, 0, 0, 1, 0, 0, 0, 0, 3, 0, 0, 0, 123, 125, 0]⟩] }
  have hcall : Exchange.initial.step memberless (.call goCall true fun _ => true) = some called := rfl
  have hserve : called.step memberless (.serve 64 4096 [] true) = some served := rfl
  have hanswer : served.step memberless
      (.answer 0 1 (.success (some ()) none) fun _ => true) = some replied := rfl
  have hdeliver : replied.step memberless (.deliver 64 4096 []) = some goAnswered := rfl
  have hrun : Runs (fun s action s' => Exchange.step memberless s action = some s') .initial
      goAnswered _ := (((Runs.single hcall).snoc hserve).snoc hanswer).snoc hdeliver
  have hall := calls_answered memberless_inverse hrun
  exact ⟨(hall.2.2.1 _ (List.mem_singleton_self _) 0).2 _ rfl, hall.2.2.2.2.2.2⟩

end AfbBinder.ApiWs
