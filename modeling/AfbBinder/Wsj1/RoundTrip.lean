import AfbBinder.Wsj1.Replies

/-!
# Texts sent and received

The texts of calls, events and replies are put together from unescaped pieces; they are
listings of their pieces, so the peer finds the same names and objects again.  The token of
a reply is an item of its text, but the peer looks for it in replies of five items, which
it refuses.
-/

namespace AfbBinder.Wsj1

open Lib Lib.JsonText

/-- A name that needs no escape between quotes. -/
def Name (s : CString) : Prop := quote ∉ s.bytes ∧ backslash ∉ s.bytes

/-- An object: `NULL` or the text of a JSON value. -/
def IsJson (object : Option CString) : Prop := ∀ o ∈ object, Derives .value o.bytes

theorem IsJson.null : IsJson none := by
  intro o ho
  cases ho

/-- The text that stands for an object. -/
def objectText (object : Option CString) : Bytes := (object.map CString.bytes).getD (ascii "null")

/-! ## The texts as listings -/

theorem Name.quoted {s : CString} (h : Name s) : Quoted s.bytes := by
  apply Quoted.of_plain
  intro c hc
  refine ⟨fun heq => h.2 (heq ▸ hc), fun heq => s.nulFree (heq ▸ hc), fun heq => h.1 (heq ▸ hc)⟩

theorem IsJson.segment {object : Option CString} (h : IsJson object) : Segment (objectText object) := by
  cases object with
  | none => exact .value .null
  | some o => exact .value (h o rfl)

theorem Code.segment (code : Code) : Segment [code.digit] := by
  have hdigit : 48 ≤ code.digit ∧ code.digit ≤ 57 := by
    cases code with
    | call => decide
    | retok => decide
    | reterr => decide
    | event => decide
  obtain ⟨hplain, hcomma, hspace⟩ := numberByte_plain (.inl hdigit)
  exact ⟨.other hplain (fun _ => hcomma) .nil, by simpa using hspace, by simpa using hspace⟩

theorem segmentCode_digit (code : Code) : segmentCode [code.digit] = some code := by
  cases code with
  | call => rfl
  | retok => rfl
  | reterr => rfl
  | event => rfl

theorem decimal_quoted (n : Nat) : Quoted (decimal n) := by
  apply Quoted.of_plain
  intro c hc
  have hdigit := decimal_digit hc
  simp only [backslash, quote, UInt8.le_iff_toNat_le, ne_eq, ← UInt8.toNat_inj] at hdigit ⊢
  simp at hdigit ⊢
  omega

theorem joined_nulFree {segs : List Bytes} (h : ∀ seg ∈ segs, (0 : UInt8) ∉ seg) :
    (0 : UInt8) ∉ joined segs := by
  induction segs with
  | nil => exact List.not_mem_nil
  | cons seg segs ih =>
      have hseg := h seg (by simp)
      cases segs with
      | nil => exact hseg
      | cons next segs =>
          have hrest := ih fun other hother => h other (List.mem_cons_of_mem seg hother)
          simp [joined, hseg, hrest, comma]

/-- A text of items without blanks. -/
theorem compact_listing {segs : List Bytes} (h : ∀ seg ∈ segs, Segment seg)
    (hne : joined segs ≠ []) :
    ∃ text : CString, text.bytes = openBracket :: (joined segs ++ [closeBracket]) ∧
      Listing text.bytes segs := by
  have hnul : (0 : UInt8) ∉ openBracket :: (joined segs ++ [closeBracket]) := by
    have hjoined := joined_nulFree fun seg hseg => (h seg hseg).balanced.nulFree
    simp [hjoined, openBracket, closeBracket]
  exact ⟨⟨_, hnul⟩, rfl, listing_joined h hne⟩

/-- The item of a token. -/
def tokenItems (token : Option Bytes) : List Bytes :=
  (token.map fun t => quote :: (t ++ [quote])).toList

theorem sendIsot_eq (i1 : Code) (s1 : Bytes) (o1 t1 : Option Bytes) :
    wsj1SendIsot i1 s1 o1 t1 = openBracket :: (joined ([i1.digit] :: (quote :: (s1 ++ [quote])) ::
      o1.getD (ascii "null") :: tokenItems t1) ++ [closeBracket]) := by
  have hopen : ascii "[" = [openBracket] := rfl
  have hquote : ascii ",\"" = [comma, quote] := rfl
  have hnext : ascii "\"," = [quote, comma] := rfl
  have hclose : ascii "]" = [closeBracket] := rfl
  have hend : ascii "\"]" = [quote, closeBracket] := rfl
  cases t1 with
  | none =>
      simp [wsj1SendIsot, afbWsTexts, tokenItems, joined, List.takeWhile, hopen, hquote, hnext,
        hclose]
  | some t =>
      simp [wsj1SendIsot, afbWsTexts, tokenItems, joined, List.takeWhile, hopen, hquote, hnext,
        hend]

theorem sendIssot_eq (i1 : Code) (s1 s2 : Bytes) (o1 : Option Bytes) :
    wsj1SendIssot i1 s1 s2 o1 none = openBracket :: (joined [[i1.digit], quote :: (s1 ++ [quote]),
      quote :: (s2 ++ [quote]), o1.getD (ascii "null")] ++ [closeBracket]) := by
  have hopen : ascii "[" = [openBracket] := rfl
  have hquote : ascii ",\"" = [comma, quote] := rfl
  have hmiddle : ascii "\",\"" = [quote, comma, quote] := rfl
  have hnext : ascii "\"," = [quote, comma] := rfl
  have hclose : ascii "]" = [closeBracket] := rfl
  simp [wsj1SendIssot, afbWsTexts, joined, List.takeWhile, hopen, hquote, hmiddle, hnext, hclose]

/-! ## Delivery -/

section Delivery

variable {κ : Type} {itf : AfbWsj1Itf} {w : AfbWsj1 κ}

/-- The text of an event reaches the callback for events. -/
theorem event_delivered (hitf : itf.onEvent = true) {event : CString} (hevent : Name event)
    {object : Option CString} (hobject : IsJson object) :
    ∃ text : CString, text.bytes = afbWsj1SendEventS event object ∧
      ∃ msg, wsj1OnText itf true text w = .ok ([.onEvent event.bytes msg], w) ∧
        Reads msg .event none none none (some event.bytes) (objectText object) none := by
  obtain ⟨text, hbytes, hlisting⟩ := @compact_listing [[Code.event.digit],
    quote :: (event.bytes ++ [quote]), objectText object] (by
      intro seg hseg
      simp only [List.mem_cons, List.not_mem_nil, or_false] at hseg
      rcases hseg with rfl | rfl | rfl
      · exact Code.event.segment
      · exact .quoted hevent.quoted
      · exact hobject.segment) (by simp [joined])
  obtain ⟨msg, hreads, hhandle⟩ := @handleText_event κ itf text w _ _ _ hlisting
    (segmentCode_digit .event)
  rw [unquote_quoted] at hreads hhandle
  refine ⟨text, ?_, msg, onText_ok ?_, hreads⟩
  · rw [hbytes, afbWsj1SendEventS, sendIsot_eq]
    rfl
  · rw [hhandle, invoke, if_pos hitf]

/-- The text of a call reaches the callback for calls. -/
theorem call_delivered (hitf : itf.onCall = true) {id : Bytes} (hid : Quoted id)
    {api verb : CString} (hapi : Name api) (hslash : slash ∉ api.bytes) (hverb : Name verb)
    {object : Option CString} (hobject : IsJson object) :
    ∃ text : CString, text.bytes = wsj1SendIssot .call id (api.bytes ++ ascii "/" ++ verb.bytes)
        (object.map CString.bytes) none ∧
      ∃ msg, wsj1OnText itf true text w = .ok ([.onCall api.bytes verb.bytes msg], w) ∧
        Reads msg .call (some id) (some api.bytes) (some verb.bytes) none (objectText object)
          none := by
  have htag : Quoted (api.bytes ++ slash :: verb.bytes) := by
    apply Quoted.of_plain
    intro c hc
    rcases List.mem_append.mp hc with hc | hc
    · exact ⟨fun heq => hapi.2 (heq ▸ hc), fun heq => api.nulFree (heq ▸ hc),
        fun heq => hapi.1 (heq ▸ hc)⟩
    · rcases List.mem_cons.mp hc with rfl | hc
      · decide
      · exact ⟨fun heq => hverb.2 (heq ▸ hc), fun heq => verb.nulFree (heq ▸ hc),
          fun heq => hverb.1 (heq ▸ hc)⟩
  obtain ⟨text, hbytes, hlisting⟩ := @compact_listing [[Code.call.digit],
    quote :: (id ++ [quote]), quote :: ((api.bytes ++ slash :: verb.bytes) ++ [quote]),
    objectText object] (by
      intro seg hseg
      simp only [List.mem_cons, List.not_mem_nil, or_false] at hseg
      rcases hseg with rfl | rfl | rfl | rfl
      · exact Code.call.segment
      · exact .quoted hid
      · exact .quoted htag
      · exact hobject.segment) (by simp [joined])
  obtain ⟨msg, hreads, hhandle⟩ := (@handleText_call κ itf text w _ _ _ _ _ hlisting
    (segmentCode_digit .call) (by simp)).2 api.bytes verb.bytes (unquote_quoted _) hslash
  rw [unquote_quoted] at hreads
  refine ⟨text, ?_, msg, onText_ok ?_, hreads⟩
  · have hjoin : api.bytes ++ ascii "/" ++ verb.bytes = api.bytes ++ slash :: verb.bytes := by
      rw [List.append_assoc]
      rfl
    rw [hbytes, hjoin, sendIssot_eq]
    rfl
  · rw [hhandle, invoke, if_pos hitf]

/-- The text of a reply reaches the callback of its call, without its token. -/
theorem reply_delivered (hdistinct : (w.calls.map Wsj1Call.id).Nodup) {call : Wsj1Call κ}
    (hcall : call ∈ w.calls) (hid : Quoted call.id) {msg : AfbWsj1Msg}
    (hmsg : msg.idText = some call.id) {object : Option CString} (hobject : IsJson object)
    {token : Option CString} (htoken : ∀ t ∈ token, Name t) (iserror : Bool) :
    ∃ text : CString, text.bytes = afbWsj1ReplyS msg object token iserror ∧
      ∃ answer, wsj1OnText itf true text w = .ok ([.reply call.callback answer],
          { w with calls := w.calls.filter fun other => other.id ≠ call.id }) ∧
        Reads answer (if iserror then .reterr else .retok) (some call.id) none none none
          (objectText object) none := by
  have hcode : (if iserror then Code.reterr else .retok) = .retok ∨
      (if iserror then Code.reterr else .retok) = .reterr := by
    cases iserror with
    | false => exact .inl rfl
    | true => exact .inr rfl
  generalize hc : (if iserror then Code.reterr else .retok) = code at hcode ⊢
  obtain ⟨text, hbytes, hlisting⟩ := @compact_listing ([code.digit] ::
    (quote :: (call.id ++ [quote])) :: objectText object ::
    tokenItems (token.map CString.bytes)) (by
      intro seg hseg
      simp only [List.mem_cons] at hseg
      rcases hseg with rfl | rfl | rfl | hseg
      · exact code.segment
      · exact .quoted hid
      · exact hobject.segment
      · cases token with
        | none => cases hseg
        | some t =>
            have hseg : seg = quote :: (t.bytes ++ [quote]) := List.mem_singleton.mp hseg
            rw [hseg]
            exact .quoted (htoken t rfl).quoted) (by simp [joined])
  have hone : (tokenItems (token.map CString.bytes)).length ≤ 1 := by
    cases token with
    | none => simp [tokenItems]
    | some t => simp [tokenItems]
  have hgood := (@handleText_reply κ itf text w _ _ _ _ _ hlisting (segmentCode_digit code) hcode
    hone).2
  rw [unquote_quoted] at hgood
  obtain ⟨answer, hreads, hhandle⟩ := hgood call (Keyed.search_mem hdistinct hcall)
  rw [Keyed.eraseP_eq_filter hdistinct] at hhandle
  refine ⟨text, ?_, answer, onText_ok hhandle, hreads⟩
  rw [hbytes, afbWsj1ReplyS, hmsg, hc, sendIsot_eq]
  rfl

end Delivery

/-- A call, an event and a reply without token, sent and received.  The peer is called once
with the names, the object and the identifier of the call; its reply, whenever the call
still waits, invokes the callback of this call with the object and the kind of the reply. -/
theorem wsj1_round_trip {κ : Type} (itf peerItf : AfbWsj1Itf) (peer : AfbWsj1 κ) :
    (peerItf.onCall = true → ∀ s ts, Exchange.RunsOf itf .initial s ts →
      ∀ api verb object allocated sends w text, Name api → slash ∉ api.bytes → Name verb →
      IsJson object →
      afbWsj1CallS api verb object s.issued allocated sends s.w = some (w, some text) →
      ∃ id received, w.calls = ⟨id, s.issued⟩ :: s.w.calls ∧ CString.bytes received = text ∧
        ∃ msg, wsj1OnText peerItf true received peer =
            .ok ([.onCall api.bytes verb.bytes msg], peer) ∧
          msg.idText = some id ∧ afbWsj1MsgObjectS msg = objectText object ∧
          ∀ reply iserror s' ts', IsJson reply →
            Exchange.RunsOf itf ⟨w, s.issued + 1, s.log⟩ s' ts' →
            ⟨id, s.issued⟩ ∈ s'.w.calls →
            ∃ answer, CString.bytes answer = afbWsj1ReplyS msg reply none iserror ∧
              ∃ m, wsj1OnText itf true answer s'.w = .ok ([.reply s.issued m],
                  { s'.w with calls := s'.w.calls.filter fun other => other.id ≠ id }) ∧
                afbWsj1MsgObjectS m = objectText reply ∧ afbWsj1MsgIsReplyOk m = !iserror ∧
                afbWsj1MsgIsReplyError m = iserror) ∧
    (peerItf.onEvent = true → ∀ event object, Name event → IsJson object →
      ∃ received, CString.bytes received = afbWsj1SendEventS event object ∧
        ∃ msg, wsj1OnText peerItf true received peer = .ok ([.onEvent event.bytes msg], peer) ∧
          afbWsj1MsgObjectS msg = objectText object) := by
  refine ⟨fun honcall s ts hrun api verb object allocated sends w text hapi hslash hverb hobject hcall
    => ?_, fun honevent event object hevent hobject => ?_⟩
  · have hmatched := Exchange.matched_of_runs Exchange.matched_initial hrun
    obtain ⟨-, ⟨hsent, -⟩ | ⟨id, hfresh, ⟨n, rfl⟩, hcalls, hsent⟩⟩ :=
      callS_cases hmatched.numbered.genid hcall
    · cases hsent
    · cases hsent
      obtain ⟨received, hbytes, msg, htext, hreads⟩ := @call_delivered κ peerItf peer honcall
        (decimal n) (decimal_quoted n) api verb hapi hslash hverb object hobject
      refine ⟨decimal n, received, hcalls, hbytes, msg, htext, hreads.id, hreads.object,
        fun reply iserror s' ts' hreply hrun' hwaits => ?_⟩
      -- the call still waits, under an identifier of its own
      have hmatched' := Exchange.matched_of_runs (hmatched.call hcall) hrun'
      obtain ⟨answer, hanswer, m, hdone, hreads'⟩ := @reply_delivered Nat itf s'.w
        hmatched'.numbered.distinct _ hwaits (decimal_quoted n) msg hreads.id reply hreply none
        nofun iserror
      refine ⟨answer, hanswer, m, hdone, hreads'.object, ?_, ?_⟩
      · rw [afbWsj1MsgIsReplyOk, hreads'.code]
        cases iserror with
        | false => rfl
        | true => rfl
      · rw [afbWsj1MsgIsReplyError, hreads'.code]
        cases iserror with
        | false => rfl
        | true => rfl
  · obtain ⟨received, hbytes, msg, htext, hreads⟩ :=
      @event_delivered κ peerItf peer honevent event hevent object hobject
    exact ⟨received, hbytes, msg, htext, hreads.object⟩

/-- The interface of a peer with all callbacks. -/
def fullItf : AfbWsj1Itf := ⟨true, true, true⟩

/-- The first call of a link, of the verb `v` of the api `a` without object, and the
failure that replies to it. -/
theorem wsj1_round_trip_first :
    ∃ received msg answer m,
      CString.bytes received = ascii "[2,\"999999\",\"a/v\",null]" ∧
      wsj1OnText fullItf true received (afbWsj1Create : AfbWsj1 Nat) =
        .ok ([.onCall (ascii "a") (ascii "v") msg], afbWsj1Create) ∧
      CString.bytes answer = afbWsj1ReplyS msg none none true ∧
      wsj1OnText fullItf true answer ⟨999998, [⟨ascii "999999", 0⟩]⟩ =
        .ok ([.reply 0 m], ⟨999998, []⟩) ∧ afbWsj1MsgIsReplyError m = true := by
  have hcall : afbWsj1CallS ⟨ascii "a", by decide⟩ ⟨ascii "v", by decide⟩ none 0 true (fun _ => true)
      afbWsj1Create = some (⟨999998, [⟨ascii "999999", 0⟩]⟩,
        some (ascii "[2,\"999999\",\"a/v\",null]")) := by rfl
  obtain ⟨id, received, hcalls, hbytes, msg, htext, -, -, hreply⟩ :=
    (wsj1_round_trip fullItf fullItf (afbWsj1Create : AfbWsj1 Nat)).1 rfl Exchange.initial []
      .refl _ _ _ _ _ _ _ ⟨by decide, by decide⟩ (by decide) ⟨by decide, by decide⟩ .null hcall
  cases hcalls
  obtain ⟨answer, hanswer, m, hdone, -, -, hkind⟩ := hreply none true _ [] .null .refl
    List.mem_cons_self
  exact ⟨received, msg, answer, m, hbytes, htext, hanswer, hdone, hkind⟩

/-! ## Tokens -/

/-- The token of a reply never reaches the callback of its call. -/
theorem reply_token_lost {itf : AfbWsj1Itf} {s : Exchange}
    {ts : List (Transition Exchange ExchangeAction)}
    (hrun : Exchange.RunsOf itf .initial s ts)
    {call : Wsj1Call Nat} (hcall : call ∈ s.w.calls) {msg : AfbWsj1Msg}
    (hmsg : msg.idText = some call.id) {object : Option CString} (hobject : IsJson object)
    {token : CString} (htoken : Name token) (iserror : Bool) :
    ∃ text, CString.bytes text = afbWsj1ReplyS msg object token iserror ∧
      (∃ m w, wsj1OnText itf true text s.w = .ok ([.reply call.callback m], w) ∧
        afbWsj1MsgObjectS m = objectText object ∧ afbWsj1MsgToken m = none) ∧
      ¬ ∃ m w, wsj1OnText itf true text s.w = .ok ([.reply call.callback m], w) ∧
        afbWsj1MsgToken m = some token.bytes := by
  have hnumbered := (Exchange.matched_of_runs Exchange.matched_initial hrun).numbered
  obtain ⟨n, hn⟩ := hnumbered.numbers call hcall
  obtain ⟨text, hbytes, m, hdone, hreads⟩ := @reply_delivered Nat itf s.w hnumbered.distinct call
    hcall (by rw [hn]; exact decimal_quoted n) msg hmsg object hobject (some token)
    (fun t ht => by cases ht; exact htoken) iserror
  refine ⟨text, hbytes, ⟨m, _, hdone, hreads.object, hreads.token⟩, ?_⟩
  intro ⟨m', w', hdone', htoken'⟩
  rw [hdone] at hdone'
  cases hdone'
  rw [hreads.token] at htoken'
  cases htoken'

/-- The message of the first call of a link, as the peer received it. -/
def firstCall : AfbWsj1Msg :=
  ⟨ascii "[2,\"999999" ++ [0] ++ ascii ",\"a" ++ [0] ++ ascii "v" ++ [0] ++ ascii ",null" ++ [0, 0],
    .call, some 4, some 13, some 15, none, 18, 4, none⟩

theorem firstCall_waits : Exchange.RunsOf fullItf .initial
    ⟨⟨999998, [⟨ascii "999999", 0⟩]⟩, 1, []⟩ [⟨.initial, .call ⟨ascii "a", by decide⟩
      ⟨ascii "v", by decide⟩ none true fun _ => true, ⟨⟨999998, [⟨ascii "999999", 0⟩]⟩, 1, []⟩⟩] :=
  .single (by rfl)

theorem reply_token_lost_first :
    ∃ text, CString.bytes text = ascii "[3,\"999999\",null,\"t\"]" ∧
      ∃ m w, wsj1OnText fullItf true text ⟨999998, [⟨ascii "999999", 0⟩]⟩ = .ok ([.reply 0 m], w) ∧
        afbWsj1MsgToken m = none := by
  obtain ⟨text, hbytes, ⟨m, w, hdone, -, htoken⟩, -⟩ := @reply_token_lost fullItf _ _ firstCall_waits
    ⟨ascii "999999", 0⟩ List.mem_cons_self firstCall rfl none .null ⟨ascii "t", by decide⟩
    ⟨by decide, by decide⟩ false
  exact ⟨text, hbytes, m, w, hdone, htoken⟩

/-- The reply `[3,"999999",null,"t"]` to the first call of a link. -/
theorem reply_token_missing :
    ∃ text, CString.bytes text = afbWsj1ReplyS firstCall none (some ⟨ascii "t", by decide⟩) false ∧
      ¬ ∃ m w, wsj1OnText fullItf true text ⟨999998, [⟨ascii "999999", 0⟩]⟩ =
          .ok ([.reply 0 m], w) ∧ afbWsj1MsgToken m = some (ascii "t") := by
  refine ⟨⟨ascii "[3,\"999999\",null,\"t\"]", by decide⟩, by rfl, ?_⟩
  intro ⟨m, w, hdone, htoken⟩
  have hreal : wsj1OnText fullItf true ⟨ascii "[3,\"999999\",null,\"t\"]", by decide⟩
      (⟨999998, [⟨ascii "999999", 0⟩]⟩ : AfbWsj1 Nat) = .ok ([.reply 0
        ⟨ascii "[3,\"999999" ++ [0] ++ ascii ",null" ++ [0] ++ ascii "\"t\"]" ++ [0], .retok, some 4,
          none, none, none, 12, 4, none⟩], ⟨999998, []⟩) := by rfl
  rw [hreal] at hdone
  cases hdone
  cases htoken

end AfbBinder.Wsj1
