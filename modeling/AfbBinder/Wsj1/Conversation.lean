import AfbBinder.Lib.Exchange
import AfbBinder.Wsj1.RoundTrip
import Mathlib.Data.List.TakeWhile

/-!
# Calls and replies over a JSON websocket

Both ends of a JSON websocket at once: one end calls, the other end gets the calls, replies
to them in any order and sends events, and the texts travel in order in each direction.
The callback of a call is its rank.  The names need no escape and the objects are JSON.
The tickets that travel with the texts are for the statements only.
-/

namespace AfbBinder.Wsj1

open Lib Lib.Exchange Lib.JsonText

/-! ## What is said -/

/-- The arguments of a call. -/
structure Query where
  api : CString
  verb : CString
  object : Option CString
  apiName : Name api
  apiWhole : slash ∉ api.bytes
  verbName : Name verb
  isJson : IsJson object

/-- The arguments of a reply. -/
structure Reply where
  object : Option CString
  token : Option CString
  iserror : Bool
  isJson : IsJson object
  tokenName : ∀ t ∈ token, Name t

/-- The arguments of an event. -/
structure Announcement where
  event : CString
  object : Option CString
  eventName : Name event
  isJson : IsJson object

/-- What a callback gets: the text of the object, and whether it is an error. -/
def Reply.outcome (reply : Reply) : Bytes × Bool := (objectText reply.object, reply.iserror)

/-- The call whose callback is invoked, and what it gets. -/
def Effect.ending : Effect Nat → Option (Nat × Option (Bytes × Bool))
  | .reply callback msg =>
      some (callback, some (afbWsj1MsgObjectS msg, afbWsj1MsgIsReplyError msg))
  | _ => none

/-! ## Both ends and what is between -/

/-- The text of a call on its way. -/
structure Parcel where
  ticket : Ticket Bytes
  text : Bytes

/-- A call received and not replied to. -/
structure Pending where
  ticket : Ticket Bytes
  msg : AfbWsj1Msg

/-- A text on its way back, with the call that it replies to and how. -/
structure Envelope where
  reply : Option (Ticket Bytes × (Bytes × Bool))
  text : Bytes

structure Conversation where
  w : AfbWsj1 Nat
  asked : List Query
  upstream : List Parcel
  pending : List Pending
  downstream : List Envelope
  /-- the calls that will get no reply -/
  lost : List (Ticket Bytes)
  /-- the calls that the other end has got: their names and objects -/
  received : List (Nat × Bytes × Bytes × Bytes)
  /-- the replies of the other end -/
  answers : List (Nat × (Bytes × Bool))
  /-- the calls that were refused, and those whose callback was invoked -/
  ended : List (Nat × Option (Bytes × Bool))
  /-- what the texts received did at both ends -/
  log : List (Effect Nat)

inductive ConversationAction where
  | call (query : Query) (allocated : Bool) (sends : Bytes → Bool)
  | serve
  | reply (index : Nat) (reply : Reply) (sends : Bytes → Bool)
  | abandon (index : Nat)
  | announce (announcement : Announcement) (sends : Bytes → Bool)
  | deliver

/-- A text as the websocket gives it, with its final NUL. -/
def arrived (text : Bytes) : CString := ⟨cstring text, nul_not_mem_cstring text⟩

theorem arrived_eq {text : CString} {bytes : Bytes} (h : text.bytes = bytes) :
    arrived bytes = text := by
  have hwhole : cstring bytes = bytes := by
    rw [cstring, List.takeWhile_eq_self_iff]
    intro c hc
    simpa using fun hzero : c = 0 => text.nulFree (hzero ▸ h ▸ hc)
  cases text
  subst h
  simp only [arrived, hwhole]

namespace Conversation

def initial : Conversation := ⟨afbWsj1Create, [], [], [], [], [], [], [], [], []⟩

/-- `afb_wsj1_call_s`; a call that is not sent is refused. -/
def call (query : Query) (allocated : Bool) (sends : Bytes → Bool) (s : Conversation) :
    Option Conversation := do
  let (w, sent) ← afbWsj1CallS query.api query.verb query.object s.asked.length allocated sends s.w
  let s := { s with w, asked := s.asked ++ [query] }
  match sent, w.calls with
  | some text, call :: _ =>
      some { s with upstream := s.upstream ++ [⟨⟨call.id, call.callback⟩, text⟩] }
  | _, _ => some { s with ended := s.ended ++ [(s.asked.length - 1, none)] }

/-- `wsj1_on_text` at the other end, that makes no call. -/
def serve (itf : AfbWsj1Itf) (s : Conversation) : Option Conversation :=
  match s.upstream with
  | [] => none
  | parcel :: upstream =>
      match wsj1OnText itf true (arrived parcel.text) (afbWsj1Create : AfbWsj1 Nat) with
      | .error _ => none
      | .ok (effects, _) =>
          let s := { s with upstream, log := s.log ++ effects }
          match effects with
          | [.onCall api verb msg] =>
              some { s with
                pending := s.pending ++ [⟨parcel.ticket, msg⟩]
                received := s.received ++
                  [(parcel.ticket.rank, api, verb, afbWsj1MsgObjectS msg)] }
          | _ => some { s with lost := parcel.ticket :: s.lost }

/-- What the other end sends; a text that is not sent is dropped. -/
def emit (reply : Option (Ticket Bytes × (Bytes × Bool))) (text : Bytes) (sends : Bytes → Bool)
    (s : Conversation) : Conversation :=
  if sends text then { s with downstream := s.downstream ++ [⟨reply, text⟩] }
  else { s with lost := (reply.map Prod.fst).toList ++ s.lost }

/-- `afb_wsj1_reply_s` for one of the calls, once. -/
def reply (index : Nat) (reply : Reply) (sends : Bytes → Bool) (s : Conversation) :
    Option Conversation := do
  let entry ← s.pending[index]?
  let text := afbWsj1ReplyS entry.msg reply.object reply.token reply.iserror
  some (emit (some (entry.ticket, reply.outcome)) text sends { s with
    pending := s.pending.eraseIdx index
    answers := s.answers ++ [(entry.ticket.rank, reply.outcome)] })

/-- A message released without a reply. -/
def abandon (index : Nat) (s : Conversation) : Option Conversation := do
  let entry ← s.pending[index]?
  some { s with pending := s.pending.eraseIdx index, lost := entry.ticket :: s.lost }

/-- `wsj1_on_text` at the end that calls. -/
def deliver (itf : AfbWsj1Itf) (s : Conversation) : Option Conversation :=
  match s.downstream with
  | [] => none
  | envelope :: downstream =>
      match wsj1OnText itf true (arrived envelope.text) s.w with
      | .error _ => none
      | .ok (effects, w) =>
          some { s with
            w, downstream
            ended := s.ended ++ effects.filterMap Effect.ending
            log := s.log ++ effects }

/-- One step of an end or of the link, `none` where the reception of a text makes a fault. -/
def step (itf peerItf : AfbWsj1Itf) (s : Conversation) : ConversationAction → Option Conversation
  | .call query allocated sends => s.call query allocated sends
  | .serve => s.serve peerItf
  | .reply index reply sends => s.reply index reply sends
  | .abandon index => s.abandon index
  | .announce announcement sends =>
      some (s.emit none (afbWsj1SendEventS announcement.event announcement.object) sends)
  | .deliver => s.deliver itf

end Conversation

def Wsj1Call.ticket (call : Wsj1Call Nat) : Ticket Bytes := ⟨call.id, call.callback⟩

theorem Wsj1Call.ticket_injective : Function.Injective Wsj1Call.ticket := by
  intro call call' h
  cases call
  cases call'
  cases h
  rfl

/-- The requests and replies of a JSON websocket, without their texts. -/
def Conversation.view (s : Conversation) : State Bytes (Bytes × Bool) where
  issued := s.asked.length
  waiting := s.w.calls.map Wsj1Call.ticket
  upstream := s.upstream.map Parcel.ticket
  pending := s.pending.map Pending.ticket
  downstream := s.downstream.filterMap Envelope.reply
  lost := s.lost
  received := s.received.map Prod.fst
  answers := s.answers
  ended := s.ended

/-! ## The texts -/

/-- What the other end has got of a call is what was asked. -/
def Asked (asked : List Query) (got : Nat × Bytes × Bytes × Bytes) : Prop :=
  ∃ query, asked[got.1]? = some query ∧
    got.2 = (query.api.bytes, query.verb.bytes, objectText query.object)

/-- The text of a parcel is the one of its call, under a number. -/
def Parcel.Carries (asked : List Query) (parcel : Parcel) : Prop :=
  ∃ query n, asked[parcel.ticket.rank]? = some query ∧ parcel.ticket.key = decimal n ∧
    parcel.text = wsj1SendIssot .call parcel.ticket.key
      (query.api.bytes ++ ascii "/" ++ query.verb.bytes) (query.object.map CString.bytes) none

/-- The text of an envelope is an event, or a reply to the call of its ticket. -/
structure Envelope.Sealed (envelope : Envelope) : Prop where
  notice : envelope.reply = none → ∃ announcement : Announcement,
    envelope.text = afbWsj1SendEventS announcement.event announcement.object
  answer : ∀ ticket outcome, envelope.reply = some (ticket, outcome) →
    ∃ (msg : AfbWsj1Msg) (reply : Reply) (n : Nat), msg.idText = some ticket.key ∧
      ticket.key = decimal n ∧ outcome = reply.outcome ∧
      envelope.text = afbWsj1ReplyS msg reply.object reply.token reply.iserror

namespace Conversation

structure Framed (s : Conversation) : Prop where
  genid : s.w.genid ≤ 999999
  carried : ∀ parcel ∈ s.upstream, parcel.Carries s.asked
  received : ∀ got ∈ s.received, Asked s.asked got
  waiting : ∀ entry ∈ s.pending, entry.msg.idText = some entry.ticket.key ∧
    ∃ n, entry.ticket.key = decimal n
  sealed : ∀ envelope ∈ s.downstream, envelope.Sealed
  opened : ∀ code, Effect.close code ∉ s.log

theorem framed_initial : initial.Framed :=
  ⟨Nat.zero_le _, nofun, nofun, nofun, nofun, nofun⟩

variable {s s' : Conversation} {itf peerItf : AfbWsj1Itf}

/-! ### Calls -/

theorem asked_snoc {asked : List Query} {rank : Nat} {query : Query}
    (h : asked[rank]? = some query) (last : Query) : (asked ++ [last])[rank]? = some query := by
  rw [List.getElem?_append_left (List.getElem?_eq_some_iff.mp h).1, h]

/-- The calls made so far are not changed by another one. -/
theorem Framed.snoc (h : s.Framed) (query : Query) {w : AfbWsj1 Nat} (hgenid : w.genid ≤ 999999) :
    { s with w, asked := s.asked ++ [query] }.Framed where
  genid := hgenid
  carried := by
    intro parcel hparcel
    rcases h.carried parcel hparcel with ⟨source, n, hsource, hrest⟩
    exact ⟨source, n, asked_snoc hsource query, hrest⟩
  received := by
    intro got hgot
    rcases h.received got hgot with ⟨source, hsource, hrest⟩
    exact ⟨source, asked_snoc hsource query, hrest⟩
  waiting := h.waiting
  sealed := h.sealed
  opened := h.opened

theorem Framed.call {query : Query} {allocated : Bool} {sends : Bytes → Bool} (h : s.Framed)
    (hstep : s.call query allocated sends = some s') : s'.Framed ∧ Step s.view s'.view := by
  rcases Option.bind_eq_some_iff.mp hstep with ⟨⟨w, sent⟩, hcall, hmade⟩
  rcases callS_cases h.genid hcall with ⟨hgenid, ⟨rfl, hcalls⟩ |
    ⟨id, hfresh, ⟨n, hn⟩, hcalls, rfl⟩⟩
  · cases hmade
    constructor
    · have hsnoc := h.snoc query hgenid
      exact ⟨hgenid, hsnoc.carried, hsnoc.received, h.waiting, h.sealed, h.opened⟩
    · have hrefuse : Step s.view _ := .refuse
      simpa [view, hcalls] using hrefuse
  · have hsnoc := h.snoc query hgenid
    simp only [hcalls, Option.some.injEq] at hmade
    subst hmade
    constructor
    · refine ⟨hgenid, fun parcel hparcel => ?_, hsnoc.received, h.waiting, h.sealed, h.opened⟩
      rcases List.mem_append.mp hparcel with hparcel | hparcel
      · exact hsnoc.carried parcel hparcel
      · rw [List.mem_singleton.mp hparcel]
        exact ⟨query, n, by simp, hn, rfl⟩
    · have hkey : id ∉ s.view.waiting.map Ticket.key := by
        simpa [view, Wsj1Call.ticket, Function.comp_def] using hfresh
      have hissue := Step.issue id hkey
      simpa [view, Wsj1Call.ticket, hcalls] using hissue

theorem Framed.serve (hpeer : peerItf.onCall = true) (h : s.Framed) {parcel : Parcel}
    {upstream : List Parcel} (hup : s.upstream = parcel :: upstream) :
    ∃ s', s.serve peerItf = some s' ∧ s'.Framed ∧ Step s.view s'.view := by
  rcases h.carried parcel (hup ▸ List.mem_cons_self) with ⟨query, n, hquery, hkey, htext⟩
  rcases call_delivered (w := (afbWsj1Create : AfbWsj1 Nat)) hpeer (decimal_quoted n) query.apiName
    query.apiWhole query.verbName query.isJson with ⟨text, hbytes, msg, hon, hreads⟩
  rw [← hkey, ← htext] at hbytes
  have hnext : s.view.upstream = parcel.ticket :: upstream.map Parcel.ticket := by
    simp [view, hup]
  refine ⟨_, by simp only [Conversation.serve, hup, arrived_eq hbytes, hon]; rfl, ?_, ?_⟩
  · refine ⟨h.genid, fun other hother => h.carried other (hup ▸ List.mem_cons_of_mem parcel hother),
      fun got hgot => ?_, fun entry hentry => ?_, h.sealed, fun code hcode => ?_⟩
    · rcases List.mem_append.mp hgot with hgot | hgot
      · exact h.received got hgot
      · rw [List.mem_singleton.mp hgot]
        exact ⟨query, hquery, by rw [hreads.object]⟩
    · rcases List.mem_append.mp hentry with hentry | hentry
      · exact h.waiting entry hentry
      · rw [List.mem_singleton.mp hentry]
        exact ⟨by rw [hreads.id, hkey], n, hkey⟩
    · rcases List.mem_append.mp hcode with hcode | hcode
      · exact h.opened code hcode
      · cases List.mem_singleton.mp hcode
  · have haccept := Step.accept hnext
    simpa [view] using haccept

/-! ### Replies and events -/

theorem Framed.reply {index : Nat} {reply : Reply} {sends : Bytes → Bool} (h : s.Framed)
    (hstep : s.reply index reply sends = some s') : s'.Framed ∧ Step s.view s'.view := by
  rcases Option.bind_eq_some_iff.mp hstep with ⟨entry, hentry, hmade⟩
  cases hmade
  rcases h.waiting entry (List.mem_of_getElem? hentry) with ⟨hid, n, hkey⟩
  have hfound : s.view.pending[index]? = some entry.ticket := by
    simp [view, hentry]
  have hpending : ∀ other ∈ s.pending.eraseIdx index, other.msg.idText = some other.ticket.key ∧
      ∃ n, other.ticket.key = decimal n :=
    fun other hother => h.waiting other (List.mem_of_mem_eraseIdx hother)
  simp only [emit]
  split
  · constructor
    · refine ⟨h.genid, h.carried, h.received, hpending, fun envelope henvelope => ?_, h.opened⟩
      rcases List.mem_append.mp henvelope with henvelope | henvelope
      · exact h.sealed envelope henvelope
      · rw [List.mem_singleton.mp henvelope]
        refine ⟨nofun, fun ticket outcome hreply => ?_⟩
        cases hreply
        exact ⟨entry.msg, reply, n, hid, hkey, rfl, rfl⟩
    · have hanswer := Step.answer hfound reply.outcome
      simpa [view, List.eraseIdx_map] using hanswer
  · constructor
    · exact ⟨h.genid, h.carried, h.received, hpending, h.sealed, h.opened⟩
    · have hmislay := Step.mislay hfound reply.outcome
      simpa [view, List.eraseIdx_map] using hmislay

theorem Framed.abandon {index : Nat} (h : s.Framed) (hstep : s.abandon index = some s') :
    s'.Framed ∧ Step s.view s'.view := by
  rcases Option.bind_eq_some_iff.mp hstep with ⟨entry, hentry, hmade⟩
  cases hmade
  have hfound : s.view.pending[index]? = some entry.ticket := by
    simp [view, hentry]
  constructor
  · refine ⟨h.genid, h.carried, h.received, fun other hother => ?_, h.sealed, h.opened⟩
    exact h.waiting other (List.mem_of_mem_eraseIdx hother)
  · have habandon := Step.abandon hfound
    simpa [view, List.eraseIdx_map] using habandon

theorem Framed.announce (h : s.Framed) (announcement : Announcement) (sends : Bytes → Bool) :
    (s.emit none (afbWsj1SendEventS announcement.event announcement.object) sends).Framed ∧
      (s.emit none (afbWsj1SendEventS announcement.event announcement.object) sends).view =
        s.view := by
  rw [emit]
  split
  · constructor
    · refine ⟨h.genid, h.carried, h.received, h.waiting, fun envelope henvelope => ?_, h.opened⟩
      rcases List.mem_append.mp henvelope with henvelope | henvelope
      · exact h.sealed envelope henvelope
      · rw [List.mem_singleton.mp henvelope]
        exact ⟨fun _ => ⟨announcement, rfl⟩, nofun⟩
    · simp [view]
  · exact ⟨h, rfl⟩

theorem Framed.deliver (hitf : itf.onEvent = true) (h : s.Framed) (hsound : Sound s.view)
    {envelope : Envelope} {downstream : List Envelope}
    (hdown : s.downstream = envelope :: downstream) :
    ∃ s', s.deliver itf = some s' ∧ s'.Framed ∧ (s'.view = s.view ∨ Step s.view s'.view) := by
  have hsealed := h.sealed envelope (hdown ▸ List.mem_cons_self)
  have hrest : ∀ other ∈ downstream, other.Sealed := fun other hother =>
    h.sealed other (hdown ▸ List.mem_cons_of_mem envelope hother)
  cases hreply : envelope.reply with
  | none =>
      rcases hsealed.notice hreply with ⟨announcement, htext⟩
      rcases event_delivered (w := s.w) hitf announcement.eventName announcement.isJson with
        ⟨text, hbytes, msg, hon, -⟩
      rw [← htext] at hbytes
      refine ⟨_, by simp only [Conversation.deliver, hdown, arrived_eq hbytes, hon]; rfl, ?_, .inl ?_⟩
      · refine ⟨h.genid, h.carried, h.received, h.waiting, hrest, fun code hcode => ?_⟩
        rcases List.mem_append.mp hcode with hcode | hcode
        · exact h.opened code hcode
        · cases List.mem_singleton.mp hcode
      · simp [view, hdown, hreply, Effect.ending]
  | some sent =>
      rcases sent with ⟨ticket, outcome⟩
      rcases hsealed.answer ticket outcome hreply with ⟨msg, reply, n, hid, hkey, rfl, htext⟩
      have hnext : s.view.downstream =
          (ticket, reply.outcome) :: downstream.filterMap Envelope.reply := by
        simp [view, hdown, hreply]
      rcases hsound.search_next hnext with ⟨hmem, hsearch⟩
      rcases List.mem_map.mp hmem with ⟨call, hcall, rfl⟩
      have hdistinct : (s.w.calls.map Wsj1Call.id).Nodup := by
        simpa [view, Wsj1Call.ticket, Function.comp_def] using hsound.distinct
      have hquoted : Quoted call.id := by
        rw [show call.id = decimal n from hkey]
        exact decimal_quoted n
      rcases @reply_delivered _ itf _ hdistinct call hcall hquoted _
        hid _ reply.isJson _ reply.tokenName reply.iserror with ⟨text, hbytes, answer, hon, hreads⟩
      rw [← htext] at hbytes
      refine ⟨_, by simp only [Conversation.deliver, hdown, arrived_eq hbytes, hon]; rfl, ?_, .inr ?_⟩
      · refine ⟨h.genid, h.carried, h.received, h.waiting, hrest, fun code hcode => ?_⟩
        rcases List.mem_append.mp hcode with hcode | hcode
        · exact h.opened code hcode
        · cases List.mem_singleton.mp hcode
      · have herror : afbWsj1MsgIsReplyError answer = reply.iserror := by
          rw [afbWsj1MsgIsReplyError, hreads.code]
          cases reply.iserror <;> rfl
        have hleft : s.view.waiting.erase call.ticket =
            (s.w.calls.filter fun other => other.id ≠ call.id).map Wsj1Call.ticket := by
          rw [← Keyed.erase_eq_filter hdistinct hcall]
          exact (List.map_erase Wsj1Call.ticket_injective _).symm
        have hsettle := Step.settle hnext hsearch
        rw [hleft] at hsettle
        have hrank : call.ticket.rank = call.callback := rfl
        simpa [view, Effect.ending, hreads.object, herror, Reply.outcome, hrank] using hsettle

/-! ### Runs -/

/-- A step of an end is a step of requests and replies, or nothing for them. -/
theorem Framed.step (hitf : itf.onEvent = true) (hpeer : peerItf.onCall = true)
    {action : ConversationAction} (h : s.Framed) (hsound : Sound s.view)
    (hstep : s.step itf peerItf action = some s') :
    s'.Framed ∧ (s'.view = s.view ∨ Step s.view s'.view) := by
  cases action with
  | call query allocated sends => exact (h.call hstep).imp_right .inr
  | serve =>
      cases hup : s.upstream with
      | nil =>
          rw [Conversation.step, Conversation.serve, hup] at hstep
          cases hstep
      | cons parcel upstream =>
          rcases h.serve hpeer hup with ⟨served, hserve, hresult⟩
          cases hserve.symm.trans hstep
          exact hresult.imp_right .inr
  | reply index reply sends => exact (h.reply hstep).imp_right .inr
  | abandon index => exact (h.abandon hstep).imp_right .inr
  | announce announcement sends =>
      cases hstep
      exact (h.announce announcement sends).imp_right .inl
  | deliver =>
      cases hdown : s.downstream with
      | nil =>
          rw [Conversation.step, Conversation.deliver, hdown] at hstep
          cases hstep
      | cons envelope downstream =>
          rcases h.deliver hitf hsound hdown with ⟨delivered, hdeliver, hresult⟩
          cases hdeliver.symm.trans hstep
          exact hresult

theorem sound_of_runs (hitf : itf.onEvent = true) (hpeer : peerItf.onCall = true)
    {ts : List (Transition Conversation ConversationAction)}
    (hrun : Runs (fun s action s' => s.step itf peerItf action = some s') initial s ts) :
    s.Framed ∧ Sound s.view := by
  apply hrun.invariant fun s => s.Framed ∧ Sound s.view
  · intro s action s' h hstep
    rcases h.1.step hitf hpeer h.2 hstep with ⟨hframed, hsame | hview⟩
    · exact ⟨hframed, hsame ▸ h.2⟩
    · exact ⟨hframed, h.2.step hview⟩
  · exact ⟨framed_initial, sound_initial⟩

end Conversation

/-- In every run of both ends of a JSON websocket, where a call is replied to once, the
callbacks of both ends are defined and memory is found at reception: no text received makes a
fault or closes the link; the other end gets the calls in the order they were made, none twice,
each with its names and its object; a call that was refused never reaches it; a callback is
invoked once at most, with the object and the kind of the reply that was made to its very call;
and each call made was refused, had its callback invoked, or is between the ends. -/
theorem wsj1_calls_answered {itf peerItf : AfbWsj1Itf} (hitf : itf.onEvent = true)
    (hpeer : peerItf.onCall = true) {s : Conversation}
    {ts : List (Transition Conversation ConversationAction)}
    (hrun : Runs (fun s action s' => s.step itf peerItf action = some s') .initial s ts) :
    (s.upstream ≠ [] → (s.step itf peerItf .serve).isSome = true) ∧
    (s.downstream ≠ [] → (s.step itf peerItf .deliver).isSome = true) ∧
    (∀ code, Effect.close code ∉ s.log) ∧
    (s.received.map Prod.fst).Pairwise (· < ·) ∧
    (∀ got ∈ s.received, Asked s.asked got) ∧
    (∀ rank, (rank, none) ∈ s.ended → rank ∉ s.received.map Prod.fst) ∧
    (∀ rank outcome, (rank, some outcome) ∈ s.ended → (rank, outcome) ∈ s.answers) ∧
    (s.answers.map Prod.fst).Nodup ∧
    (s.ended.map Prod.fst).Nodup ∧
    (s.ended.map Prod.fst ++ s.view.journey.map Ticket.rank).Perm (List.range s.asked.length) := by
  rcases Conversation.sound_of_runs hitf hpeer hrun with ⟨hframed, hsound⟩
  refine ⟨fun hup => ?_, fun hdown => ?_, hframed.opened, hsound.received_ordered,
    hframed.received, fun rank => hsound.refused_unreceived, hsound.replied,
    hsound.answered_once, hsound.ended_once, hsound.whole⟩
  · cases hcons : s.upstream with
    | nil => exact absurd hcons hup
    | cons parcel upstream =>
        rcases hframed.serve hpeer hcons with ⟨served, hserve, -⟩
        rw [Conversation.step, hserve]
        rfl
  · cases hcons : s.downstream with
    | nil => exact absurd hcons hdown
    | cons envelope downstream =>
        rcases hframed.deliver hitf hsound hcons with ⟨delivered, hdeliver, -⟩
        rw [Conversation.step, hdeliver]
        rfl

/-- The call `a/v` without object. -/
def plainQuery : Query where
  api := ⟨ascii "a", by decide⟩
  verb := ⟨ascii "v", by decide⟩
  object := none
  apiName := ⟨by decide, by decide⟩
  apiWhole := by decide
  verbName := ⟨by decide, by decide⟩
  isJson := .null

/-- A failure, with a token. -/
def plainFailure : Reply where
  object := none
  token := some ⟨ascii "t", by decide⟩
  iserror := true
  isJson := .null
  tokenName := by
    intro t ht
    cases ht
    exact ⟨by decide, by decide⟩

/-- The first call of a link, when the other end has got it. -/
def plainServed : Conversation where
  w := ⟨999998, [⟨ascii "999999", 0⟩]⟩
  asked := [plainQuery]
  upstream := []
  pending := [⟨⟨ascii "999999", 0⟩, firstCall⟩]
  downstream := []
  lost := []
  received := [(0, ascii "a", ascii "v", ascii "null")]
  answers := []
  ended := []
  log := [.onCall (ascii "a") (ascii "v") firstCall]

theorem wsj1_calls_answered_first :
    ∃ replied, plainServed.step fullItf fullItf (.reply 0 plainFailure fun _ => true) =
        some replied ∧
      (replied.step fullItf fullItf .deliver).isSome = true := by
  let called : Conversation := { plainServed with
    upstream := [⟨⟨ascii "999999", 0⟩, ascii "[2,\"999999\",\"a/v\",null]"⟩]
    pending := [], received := [], log := [] }
  let replied : Conversation := { plainServed with
    pending := []
    downstream := [⟨some (⟨ascii "999999", 0⟩, (ascii "null", true)),
      ascii "[4,\"999999\",null,\"t\"]"⟩]
    answers := [(0, (ascii "null", true))] }
  have hcall : Conversation.initial.step fullItf fullItf
      (.call plainQuery true fun _ => true) = some called := rfl
  have hserve : called.step fullItf fullItf .serve = some plainServed := rfl
  have hreply : plainServed.step fullItf fullItf (.reply 0 plainFailure fun _ => true) =
      some replied := rfl
  have hrun : Runs (fun s action s' => Conversation.step fullItf fullItf s action = some s')
      .initial replied _ := ((Runs.single hcall).snoc hserve).snoc hreply
  exact ⟨replied, hreply, (wsj1_calls_answered rfl rfl hrun).2.1 (by simp [replied])⟩

end AfbBinder.Wsj1
