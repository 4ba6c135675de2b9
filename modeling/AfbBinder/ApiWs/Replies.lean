import AfbBinder.ApiWs.Client
import AfbBinder.Lib.Run

/-!
# Matching replies with calls

The runs of a client that is called and receives any frames.  Each call is of a new
request.  Every request is either waiting in one memo or completed once, and the memos
have distinct identifiers, also after the counter of identifiers has wrapped.
-/

namespace AfbBinder.ApiWs

open Lib

variable {J : Type} {json : JsonC J} {api api' : Client J}

/-- The request that an effect completes. -/
def Effect.completed : Effect J → Option Nat
  | .success req _ _ _ => some req
  | .fail req _ _ _ => some req
  | .send req _ _ => some req
  | _ => none

def completions (log : List (Effect J)) : List Nat := log.filterMap Effect.completed

/-! ## Identifiers -/

/-- The successors of an identifier are distinct up to the 32 bits. -/
theorem iterate_succ_word (id : UInt32) (n : Nat) :
    (fun id : UInt32 => id + 1)^[n] id = id + UInt32.ofNat n := by
  induction n with
  | zero => simp
  | succ n ih =>
      rw [Function.iterate_succ_apply', ih, UInt32.add_assoc]
      simp

theorem iterate_succ_inj (id : UInt32) {i j : Nat} (hi : i < 2 ^ 32) (hj : j < 2 ^ 32)
    (h : (fun id : UInt32 => id + 1)^[i + 1] id = (fun id : UInt32 => id + 1)^[j + 1] id) :
    i = j := by
  rw [Function.iterate_succ_apply', Function.iterate_succ_apply', iterate_succ_word,
    iterate_succ_word] at h
  have hword : UInt32.ofNat i = UInt32.ofNat j := (UInt32.add_right_inj id).mp ((UInt32.add_left_inj 1).mp h)
  have hnat := congrArg UInt32.toNat hword
  rw [UInt32.toNat_ofNat', UInt32.toNat_ofNat'] at hnat
  omega

theorem freshMsgid_ends (memos : List Memo) (id : UInt32) (h : memos.length < 2 ^ 32) :
    ∃ msgid, freshMsgid memos (memos.length + 1) id = some msgid := by
  have hlength : (memos.map Memo.msgid).length = memos.length := List.length_map _
  rw [← hlength]
  refine @doWhile_ends UInt32 UInt32 _ _ id (fun msgid => msgid) _ ?_ ?_
  · intro msgid hsome
    exact Keyed.search_isSome.mp hsome
  · intro i hi j hj heq
    exact iterate_succ_inj id (by omega) (by omega) heq

theorem freshMsgid_fresh {memos : List Memo} {turns : Nat} {id msgid : UInt32}
    (h : freshMsgid memos turns id = some msgid) : msgid ∉ memos.map Memo.msgid := by
  intro hmem
  have hfree := doWhile_exit h
  rw [apiWsClientMemoSearch, Keyed.search_isSome.mpr hmem] at hfree
  cases hfree

theorem memoMake_some {req : Nat} {memo : Memo} (h : apiWsClientMemoMake req api = some (memo, api')) :
    memo.req = req ∧ memo.msgid ∉ api.memos.map Memo.msgid ∧
      api' = { api with id := memo.msgid, memos := memo :: api.memos } := by
  rw [apiWsClientMemoMake, Option.bind_eq_bind, Option.bind_eq_some_iff] at h
  obtain ⟨msgid, hfresh, hmade⟩ := h
  cases hmade
  exact ⟨rfl, freshMsgid_fresh hfresh, rfl⟩

/-! ## Calls -/

theorem failCall_eq (memo : Memo) (info : String) (id : UInt32) (api : Client J) :
    failCall memo info { api with id := id, memos := memo :: api.memos } =
      { api with
        id := id
        log := api.log ++ [.fail memo.req none (ascii "error") (some (ascii info))] } := by
  simp [failCall, apiWsClientMemoDestroy, Client.effect]

/-- What a call can do: its request waits under a new identifier, or is completed. -/
theorem callCb_cases {req : Nat} {call : Call} {allocated : Bool} {sends : Writebuf → Bool}
    {sent : Option Writebuf} (h : apiWsClientCallCb req call allocated sends api = some (api', sent)) :
    (∃ msgid, msgid ∉ api.memos.map Memo.msgid ∧
      api' = { api with id := msgid, memos := ⟨msgid, req⟩ :: api.memos } ∧
      ∃ wb, sends wb = true) ∨
    ∃ id effect, effect.completed = some req ∧
      api' = { api with id := id, log := api.log ++ [effect] } := by
  rw [apiWsClientCallCb] at h
  split at h
  case isTrue =>
    cases h
    exact .inr ⟨api.id, _, rfl, rfl⟩
  case isFalse =>
    rw [Option.bind_eq_bind, Option.bind_eq_some_iff] at h
    obtain ⟨⟨memo, made⟩, hmake, h⟩ := h
    obtain ⟨rfl, hfresh, rfl⟩ := memoMake_some hmake
    have hfail (info : String) : failCall memo info _ = _ := failCall_eq memo info memo.msgid api
    cases hraw : call.raw with
    | none =>
        simp only [hraw, hfail] at h
        cases h
        exact .inr ⟨memo.msgid, _, rfl, rfl⟩
    | some raw =>
        cases hmessage : callMessage memo.msgid call raw with
        | none =>
            simp only [hraw, hmessage, hfail] at h
            cases h
            exact .inr ⟨memo.msgid, _, rfl, rfl⟩
        | some wb =>
            simp only [hraw, hmessage, hfail] at h
            split at h
            · rename_i hsends
              cases h
              exact .inl ⟨memo.msgid, hfresh, rfl, wb, hsends⟩
            · cases h
              exact .inr ⟨memo.msgid, _, rfl, rfl⟩

/-- With fewer than 2^32 calls waiting, a call returns. -/
theorem callCb_returns {req : Nat} (call : Call) (allocated : Bool) (sends : Writebuf → Bool)
    (h : api.memos.length < 2 ^ 32) :
    (apiWsClientCallCb req call allocated sends api).isSome = true := by
  obtain ⟨msgid, hfresh⟩ := freshMsgid_ends api.memos api.id h
  rw [apiWsClientCallCb, apiWsClientMemoMake, hfresh]
  simp only [Option.bind_eq_bind, Option.bind_some]
  repeat' split
  all_goals rfl

/-! ## Replies -/

/-- The frame is a success, a failure or a raw reply. -/
def IsReply (rb : Readbuf) : Prop :=
  rb.head < rb.stop ∧ (rb.bytesFrom rb.head).headD 0 ∈ [84, 70, 88]

/-- The identifier of a reply, when it can be read. -/
def replyId (rb : Readbuf) : Option UInt32 :=
  (apiWsReadUint32 { rb with head := rb.head + 1 }).map Prod.fst

theorem memoGet_eq (api : Client J) (rb : Readbuf) :
    (apiWsClientMsgMemoGet api { rb with head := rb.head + 1 }).map Prod.fst =
      (replyId rb).bind (apiWsClientMemoSearch api.memos) := by
  rw [apiWsClientMsgMemoGet, replyId]
  cases apiWsReadUint32 { rb with head := rb.head + 1 } with
  | none => rfl
  | some read =>
      obtain ⟨msgid, rb'⟩ := read
      simp only [Option.bind_eq_bind, Option.bind_some, Option.map_some]
      cases apiWsClientMemoSearch api.memos msgid <;> rfl

theorem memoGet_mem {memo : Memo} {rb rb' : Readbuf}
    (h : apiWsClientMsgMemoGet api rb = some (memo, rb')) : memo ∈ api.memos := by
  simp only [apiWsClientMsgMemoGet, Option.bind_eq_bind, Option.bind_eq_some_iff] at h
  obtain ⟨_, _, found, hsearch, h⟩ := h
  cases h
  exact (Keyed.search_some hsearch).1

/-- The effect of a reply that can be read completes the request of its memo. -/
def Answers (answer : Memo → Readbuf → Option (Effect J × Readbuf)) : Prop :=
  ∀ memo rb effect rb', answer memo rb = some (effect, rb') → effect.completed = some memo.req

theorem successAnswer_answers : Answers (successAnswer json) := by
  intro memo rb effect rb' h
  simp only [successAnswer, Option.bind_eq_bind, Option.bind_eq_some_iff] at h
  obtain ⟨_, _, _, _, _, _, h⟩ := h
  cases h
  rfl

theorem failAnswer_answers : Answers (J := J) failAnswer := by
  intro memo rb effect rb' h
  simp only [failAnswer, Option.bind_eq_bind, Option.bind_eq_some_iff] at h
  obtain ⟨_, _, _, _, _, _, h⟩ := h
  cases h
  rfl

theorem sendAnswer_answers : Answers (J := J) sendAnswer := by
  intro memo rb effect rb' h
  simp only [sendAnswer, Option.bind_eq_bind, Option.bind_eq_some_iff] at h
  obtain ⟨_, _, _, _, h⟩ := h
  cases h
  rfl

/-- What a reply does: nothing without its memo, else it completes the request of the memo
and destroys the memo. -/
theorem replyWith_cases {answer : Memo → Readbuf → Option (Effect J × Readbuf)}
    (hanswer : Answers answer) (api : Client J) (rb : Readbuf) :
    ((apiWsClientMsgMemoGet api rb = none) ∧ (replyWith answer api rb).1 = api) ∨
    ∃ memo rb' effect, apiWsClientMsgMemoGet api rb = some (memo, rb') ∧
      effect.completed = some memo.req ∧
      (replyWith answer api rb).1 = apiWsClientMemoDestroy memo (api.effect effect) := by
  rw [replyWith]
  cases hget : apiWsClientMsgMemoGet api rb with
  | none => exact .inl ⟨rfl, rfl⟩
  | some found =>
      obtain ⟨memo, rb'⟩ := found
      refine .inr ⟨memo, rb', ?_⟩
      cases hread : answer memo rb' with
      | none =>
          exact ⟨.fail memo.req none (ascii "error") (some (ascii "ws error")), rfl, rfl,
            by simp only [hread]⟩
      | some read =>
          obtain ⟨effect, rb''⟩ := read
          exact ⟨effect, rfl, hanswer memo rb' effect rb'' hread, by simp only [hread]⟩

theorem onBinary_reply {rb : Readbuf} (h : IsReply rb) (api : Client J) :
    ∃ answer, Answers answer ∧ apiWsClientOnBinary json api rb =
      replyWith answer api { rb with head := rb.head + 1 } := by
  obtain ⟨hsome, horder⟩ := h
  have hgo : rb.stop - rb.head > 0 := by omega
  rw [apiWsClientOnBinary, if_pos hgo]
  simp only [List.mem_cons, List.not_mem_nil, or_false] at horder
  rcases horder with horder | horder | horder
  · exact ⟨successAnswer json, successAnswer_answers, by rw [horder]; rfl⟩
  · exact ⟨failAnswer, failAnswer_answers, by rw [horder]; rfl⟩
  · exact ⟨sendAnswer, sendAnswer_answers, by rw [horder]; rfl⟩

/-! ## Other frames -/

/-- No memo and no request is touched. -/
structure SameCalls (api api' : Client J) : Prop where
  memos : api'.memos = api.memos
  completions : completions api'.log = completions api.log

theorem SameCalls.refl (api : Client J) : SameCalls api api := ⟨rfl, rfl⟩

theorem SameCalls.effect {effect : Effect J} (h : effect.completed = none) (api : Client J) :
    SameCalls api (api.effect effect) :=
  ⟨rfl, by simp [Client.effect, ApiWs.completions, h]⟩

theorem createEvent_sameCalls (eventid : UInt32) (name : Bytes) (api : Client J) :
    SameCalls api (createEvent eventid name api) := by
  rw [createEvent]
  split
  · exact ⟨rfl, rfl⟩
  · exact ⟨rfl, by simp [ApiWs.completions, Effect.completed]⟩

theorem dropEvent_sameCalls (ev : ApiWsEvent) (api : Client J) :
    SameCalls api (dropEvent ev api) := by
  rw [dropEvent]
  split
  · exact ⟨rfl, rfl⟩
  · exact ⟨rfl, by simp [ApiWs.completions, Effect.completed]⟩

theorem eventHandler_sameCalls {order : UInt8} (h : order ∉ [84, 70, 88]) (api : Client J)
    (rb : Readbuf) : SameCalls api (handlerOf json order api rb).1 := by
  simp only [List.mem_cons, List.not_mem_nil, or_false, not_or] at h
  obtain ⟨hsuccess, hfail, hsend⟩ := h
  rw [handlerOf, if_neg hsuccess, if_neg hfail, if_neg hsend]
  split
  · rw [apiWsClientEventBroadcast]
    split
    · exact .refl api
    · exact .effect rfl api
  split
  · rw [apiWsClientEventCreate]
    split
    · exact .refl api
    · exact createEvent_sameCalls _ _ api
  split
  · rw [apiWsClientEventDrop]
    split
    · exact .refl api
    · exact dropEvent_sameCalls _ api
  split
  · rw [apiWsClientEventPush]
    split
    · exact .refl api
    · exact .effect rfl api
  split
  · rw [apiWsClientEventSubscribe]
    split
    · exact .refl api
    · exact .effect rfl api
  split
  · rw [apiWsClientEventUnsubscribe]
    split
    · exact .refl api
    · exact .effect rfl api
  · exact .refl api

theorem onBinary_cases (json : JsonC J) (api : Client J) (rb : Readbuf) :
    SameCalls api (apiWsClientOnBinary json api rb).1 ∨
    ∃ memo ∈ api.memos, ∃ effect, effect.completed = some memo.req ∧
      (apiWsClientOnBinary json api rb).1 = apiWsClientMemoDestroy memo (api.effect effect) := by
  by_cases hreply : IsReply rb
  · obtain ⟨answer, hanswer, hon⟩ := @onBinary_reply J json rb hreply api
    rw [hon]
    rcases replyWith_cases hanswer api { rb with head := rb.head + 1 } with
      ⟨-, hsame⟩ | ⟨memo, rb', effect, hget, hcompleted, hdone⟩
    · left
      rw [hsame]
      exact .refl api
    · exact .inr ⟨memo, memoGet_mem hget, effect, hcompleted, hdone⟩
  · left
    rw [apiWsClientOnBinary]
    split
    · exact eventHandler_sameCalls (fun horder => hreply ⟨by omega, horder⟩) api _
    · exact .refl api

/-! ## Runs -/

/-- A client and the number of the requests made so far. -/
structure Dialogue (J : Type) where
  api : Client J
  issued : Nat

def Dialogue.initial : Dialogue J := ⟨.initial, 0⟩

inductive DialogueAction where
  | call (call : Call) (allocated : Bool) (sends : Writebuf → Bool)
  | receive (rb : Readbuf)

/-- A call of a new request or the reception of a frame; `none` when the call does not
return. -/
def Dialogue.step (json : JsonC J) (s : Dialogue J) : DialogueAction → Option (Dialogue J)
  | .call call allocated sends => do
      let (api, _) ← apiWsClientCallCb s.issued call allocated sends s.api
      some ⟨api, s.issued + 1⟩
  | .receive rb => some { s with api := (apiWsClientOnBinary json s.api rb).1 }

/-- Every request made is waiting or completed, once. -/
structure Dialogue.Matched (s : Dialogue J) : Prop where
  distinct : (s.api.memos.map Memo.msgid).Nodup
  accounted : (completions s.api.log ++ s.api.memos.map Memo.req).Perm (List.range s.issued)

theorem completions_snoc {effect : Effect J} {req : Nat} (h : effect.completed = some req)
    (log : List (Effect J)) : completions (log ++ [effect]) = completions log ++ [req] := by
  simp [completions, h]

theorem Dialogue.matched_initial : (Dialogue.initial : Dialogue J).Matched :=
  ⟨List.nodup_nil, .nil⟩

theorem Dialogue.Matched.step {s s' : Dialogue J} {action : DialogueAction} (h : s.Matched)
    (hstep : s.step json action = some s') : s'.Matched := by
  obtain ⟨hdistinct, haccounted⟩ := h
  cases action with
  | call call allocated sends =>
      simp only [Dialogue.step, Option.bind_eq_bind, Option.bind_eq_some_iff] at hstep
      obtain ⟨⟨api, sent⟩, hcall, hstep⟩ := hstep
      cases hstep
      -- the new request comes in front of the others, waiting or completed
      have hnew : (s.issued :: (completions s.api.log ++ s.api.memos.map Memo.req)).Perm
          (List.range (s.issued + 1)) := by
        rw [List.range_succ]
        exact (haccounted.cons _).trans (List.perm_append_singleton _ _).symm
      rcases callCb_cases hcall with ⟨msgid, hfresh, rfl, -⟩ | ⟨id, effect, hcompleted, rfl⟩
      · exact ⟨List.nodup_cons.mpr ⟨hfresh, hdistinct⟩, List.perm_middle.trans hnew⟩
      · refine ⟨hdistinct, ?_⟩
        simp only [completions_snoc hcompleted, List.append_assoc, List.singleton_append]
        exact List.perm_middle.trans hnew
  | receive rb =>
      cases hstep
      rcases onBinary_cases json s.api rb with hsame | ⟨memo, hmemo, effect, hcompleted, hdone⟩
      · refine ⟨?_, ?_⟩
        · rw [hsame.memos]
          exact hdistinct
        · rw [hsame.memos, hsame.completions]
          exact haccounted
      · refine ⟨?_, ?_⟩
        · rw [hdone]
          exact hdistinct.sublist (List.erase_sublist.map Memo.msgid)
        · rw [hdone]
          simp only [apiWsClientMemoDestroy, Client.effect, completions_snoc hcompleted,
            List.append_assoc, List.singleton_append]
          have hmemos := (List.perm_cons_erase hmemo).map Memo.req
          exact (hmemos.symm.append_left _).trans haccounted

theorem Dialogue.matched_of_runs {s : Dialogue J} {ts : List (Transition (Dialogue J) DialogueAction)}
    (h : Runs (fun s action s' => s.step json action = some s') Dialogue.initial s ts) : s.Matched :=
  h.invariant Dialogue.Matched (fun _ _ _ hmatched hstep => hmatched.step hstep) matched_initial

/-- A reply in a state with distinct identifiers: it is for the memo with its identifier
only. -/
theorem reply_matched (hdistinct : (api.memos.map Memo.msgid).Nodup) {rb : Readbuf}
    (hreply : IsReply rb) :
    (∀ memo ∈ api.memos, replyId rb = some memo.msgid →
      ∃ effect, effect.completed = some memo.req ∧
        (apiWsClientOnBinary json api rb).1 =
          { api with
            memos := api.memos.filter fun other => other.msgid ≠ memo.msgid
            log := api.log ++ [effect] }) ∧
    ((∀ memo ∈ api.memos, replyId rb ≠ some memo.msgid) →
      (apiWsClientOnBinary json api rb).1 = api) := by
  obtain ⟨answer, hanswer, hon⟩ := @onBinary_reply J json rb hreply api
  have hget := memoGet_eq api rb
  rw [hon]
  rcases replyWith_cases hanswer api { rb with head := rb.head + 1 } with
    ⟨hnone, hsame⟩ | ⟨found, rb', effect, hfound, hcompleted, hdone⟩
  · refine ⟨fun memo hmemo hid => ?_, fun _ => hsame⟩
    have hsearch : apiWsClientMemoSearch api.memos memo.msgid = some memo :=
      Keyed.search_mem hdistinct hmemo
    rw [hnone, hid, Option.bind_some, hsearch] at hget
    cases hget
  · rw [hfound] at hget
    obtain ⟨msgid, hid, hsearch⟩ := Option.bind_eq_some_iff.mp hget.symm
    obtain ⟨hmem, hmsgid⟩ := Keyed.search_some hsearch
    refine ⟨fun memo hmemo hid' => ⟨effect, ?_, ?_⟩, fun hno => ?_⟩
    · have hsame : found = memo := by
        have hsearch' : apiWsClientMemoSearch api.memos memo.msgid = some memo :=
          Keyed.search_mem hdistinct hmemo
        cases hid.symm.trans hid'
        exact Option.some.inj (hsearch.symm.trans hsearch')
      exact hsame ▸ hcompleted
    · cases hid.symm.trans hid'
      rw [hdone, ← hmsgid, ← Keyed.erase_eq_filter hdistinct hmem]
      rfl
    · exact absurd (hmsgid ▸ hid) (hno found hmem)

/-- In every run: the memos have distinct identifiers, a call returns as long as fewer
than 2^32 calls are waiting, a reply completes and removes the memo with its identifier
and nothing else, and no request is completed twice. -/
theorem replies_matched {J : Type} {json : JsonC J} {s : Dialogue J}
    {ts : List (Transition (Dialogue J) DialogueAction)}
    (hrun : Runs (fun s action s' => s.step json action = some s') Dialogue.initial s ts) :
    (s.api.memos.map Memo.msgid).Nodup ∧
    (s.api.memos.length < 2 ^ 32 → ∀ call allocated sends,
      (s.step json (.call call allocated sends)).isSome = true) ∧
    (∀ rb, IsReply rb →
      (∀ memo ∈ s.api.memos, replyId rb = some memo.msgid →
        ∃ effect, effect.completed = some memo.req ∧
          s.step json (.receive rb) = some { s with
            api := { s.api with
              memos := s.api.memos.filter fun other => other.msgid ≠ memo.msgid
              log := s.api.log ++ [effect] } }) ∧
      ((∀ memo ∈ s.api.memos, replyId rb ≠ some memo.msgid) →
        s.step json (.receive rb) = some s)) ∧
    ∀ req, (completions s.api.log).count req ≤ 1 := by
  have hmatched := Dialogue.matched_of_runs hrun
  refine ⟨hmatched.distinct, fun hroom call allocated sends => ?_, fun rb hreply => ?_,
    fun req => ?_⟩
  · have hreturns := @callCb_returns J s.api s.issued call allocated sends hroom
    obtain ⟨result, hresult⟩ := Option.isSome_iff_exists.mp hreturns
    simp [Dialogue.step, hresult]
  · obtain ⟨hmemo, hnone⟩ := @reply_matched J json s.api hmatched.distinct rb hreply
    refine ⟨fun memo hmem hid => ?_, fun hno => ?_⟩
    · obtain ⟨effect, hcompleted, hdone⟩ := hmemo memo hmem hid
      exact ⟨effect, hcompleted, by rw [Dialogue.step, hdone]⟩
    · rw [Dialogue.step, hnone hno]
  · have hnodup := hmatched.accounted.nodup_iff.mpr List.nodup_range
    exact List.nodup_iff_count.mp (List.nodup_append.mp hnodup).1 req

/-- json-c for objects that are never there. -/
def objectless : JsonC Empty := ⟨fun _ => nullString, fun _ => none⟩

/-- The first call, then its reply cut after the identifier. -/
theorem replies_matched_first :
    ∃ effect : Effect Empty, effect.completed = some 0 ∧
      Dialogue.step objectless ⟨⟨1, [⟨1, 0⟩], [], []⟩, 1⟩
          (.receive (Readbuf.ofData 64 4096 [84, 1, 0, 0, 0] [])) =
        some ⟨⟨1, [], [], [effect]⟩, 1⟩ := by
  have hcall : Dialogue.step objectless .initial
      (.call ⟨0, [103], 1, ⟨[117], by decide⟩, some []⟩ true fun _ => true) =
        some ⟨⟨1, [⟨1, 0⟩], [], []⟩, 1⟩ := by rfl
  have hrun : Runs (fun s action s' => Dialogue.step objectless s action = some s') .initial
      ⟨⟨1, [⟨1, 0⟩], [], []⟩, 1⟩ _ := .single hcall
  have hreply : IsReply (Readbuf.ofData 64 4096 [84, 1, 0, 0, 0] []) := ⟨by decide, by decide⟩
  exact ((replies_matched hrun).2.2.1 _ hreply).1 ⟨1, 0⟩ (by decide) (by decide)

end AfbBinder.ApiWs
