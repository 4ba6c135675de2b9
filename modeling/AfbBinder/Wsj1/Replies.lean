import AfbBinder.Lib.Run
import AfbBinder.Wsj1.Reception

/-!
# Matching replies with calls

The runs of a link that is called and receives any texts.  The callback of each call is
its rank.  The identifiers of the calls that wait are distinct decimal numbers, also after
the generator has gone from 1 to 999999 again, and no callback is invoked twice.
-/

namespace AfbBinder.Wsj1

open Lib Lib.JsonText

/-! ## Decimal numbers -/

theorem digit_bounds {k : Nat} {c : Char} (h : c ∈ Nat.toDigits 10 k) :
    48 ≤ c.toNat ∧ c.toNat ≤ 57 :=
  Char.isDigit_iff_toNat.mp (Nat.isDigit_of_mem_toDigits (by decide) (by decide) h)

theorem decimal_injective {m n : Nat} (h : decimal m = decimal n) : m = n := by
  -- the digits are the characters of the bytes
  have hinv : ∀ k, (decimal k).map (fun c => Char.ofNat c.toNat) = Nat.toDigits 10 k := by
    intro k
    rw [decimal, List.map_map]
    refine (List.map_congr_left fun c hc => ?_).trans (List.map_id _)
    have hdigit := digit_bounds hc
    rw [Function.comp_apply, UInt8.toNat_ofNat', Nat.mod_eq_of_lt (by omega), Char.ofNat_toNat]
    rfl
  have hdigits : Nat.toDigits 10 m = Nat.toDigits 10 n := by rw [← hinv m, h, hinv n]
  rw [← @Nat.ofDigitChars_ten_toDigits m, hdigits, Nat.ofDigitChars_ten_toDigits]

theorem decimal_digit {n : Nat} {c : UInt8} (h : c ∈ decimal n) : 48 ≤ c ∧ c ≤ 57 := by
  obtain ⟨d, hd, rfl⟩ := List.mem_map.mp h
  have hdigit := digit_bounds hd
  rw [UInt8.le_iff_toNat_le, UInt8.le_iff_toNat_le, UInt8.toNat_ofNat', Nat.mod_eq_of_lt (by omega)]
  exact hdigit

/-! ## The generator -/

/-- After `i` turns the generator has gone down by `i`, from 0 to 999999 again. -/
theorem iterate_nextId {s : Nat × Bytes} (h : s.1 ≤ 999999) (i : Nat) :
    (nextId^[i + 1] s).1 < 999999 ∧ ((nextId^[i + 1] s).1 + (i + 1)) % 999999 = s.1 % 999999 ∧
      (nextId^[i + 1] s).2 = decimal ((nextId^[i + 1] s).1 + 1) := by
  induction i with
  | zero =>
      simp only [Function.iterate_succ, Function.iterate_zero, Function.comp_apply, id_eq, nextId]
      refine ⟨?_, ?_, ?_⟩
      · split <;> omega
      · split <;> omega
      · congr 1
        split <;> omega
  | succ i ih =>
      rw [Function.iterate_succ_apply']
      obtain ⟨hlt, hmod, -⟩ := ih
      generalize nextId^[i + 1] s = t at hlt hmod ⊢
      simp only [nextId]
      refine ⟨?_, ?_, ?_⟩
      · split <;> omega
      · split <;> omega
      · congr 1
        split <;> omega

theorem nextId_ends {κ : Type} (calls : List (Wsj1Call κ)) {genid : Nat} (hgenid : genid ≤ 999999)
    (h : calls.length < 999999) :
    ∃ s, doWhile nextId (fun s => (wsj1CallSearch calls s.2).isSome) (calls.length + 1)
      (genid, []) = some s := by
  have hlength : (calls.map Wsj1Call.id).length = calls.length := List.length_map _
  rw [← hlength]
  refine @doWhile_ends (Nat × Bytes) Bytes _ _ (genid, []) Prod.snd _ ?_ ?_
  · intro s hsome
    exact Keyed.search_isSome.mp hsome
  · intro i hi j hj heq
    have hturn := @iterate_nextId (genid, []) hgenid
    obtain ⟨-, hmodi, hidi⟩ := hturn i
    obtain ⟨-, hmodj, hidj⟩ := hturn j
    rw [hidi, hidj] at heq
    have hsame := decimal_injective heq
    omega

section Calls

variable {κ : Type} {w w' : AfbWsj1 κ}

/-- The identifiers are decimal numbers, none twice, and the generator is in its range. -/
structure WellNumbered (w : AfbWsj1 κ) : Prop where
  genid : w.genid ≤ 999999
  distinct : (w.calls.map Wsj1Call.id).Nodup
  numbers : ∀ call ∈ w.calls, ∃ n, call.id = decimal n

/-- A new call: its identifier is a number that no other call has. -/
theorem callCreate_some {callback : κ} {call : Wsj1Call κ} (hgenid : w.genid ≤ 999999)
    (h : wsj1CallCreate callback w = some (call, w')) :
    call.callback = callback ∧ call.id ∉ w.calls.map Wsj1Call.id ∧ (∃ n, call.id = decimal n) ∧
      w'.genid ≤ 999999 ∧ w'.calls = call :: w.calls := by
  rw [wsj1CallCreate, Option.bind_eq_bind, Option.bind_eq_some_iff] at h
  obtain ⟨⟨genid, id⟩, hloop, hmade⟩ := h
  cases hmade
  have hturn : ∃ i, (genid, id) = nextId^[i + 1] (w.genid, []) := by
    apply doWhile_iterate hloop
  obtain ⟨i, hi⟩ := hturn
  have hnumber := @iterate_nextId (w.genid, []) hgenid i
  rw [← hi] at hnumber
  refine ⟨rfl, fun hmem => ?_, ⟨genid + 1, hnumber.2.2⟩, Nat.le_of_lt hnumber.1, rfl⟩
  have hfree := doWhile_exit hloop
  rw [wsj1CallSearch, Keyed.search_isSome.mpr hmem] at hfree
  cases hfree

theorem callS_cases {api verb : CString} {object : Option CString} {callback : κ}
    {allocated : Bool} {sends : Bytes → Bool} {sent : Option Bytes} (hgenid : w.genid ≤ 999999)
    (h : afbWsj1CallS api verb object callback allocated sends w = some (w', sent)) :
    w'.genid ≤ 999999 ∧
    ((sent = none ∧ w'.calls = w.calls) ∨
      ∃ id, id ∉ w.calls.map Wsj1Call.id ∧ (∃ n, id = decimal n) ∧
        w'.calls = ⟨id, callback⟩ :: w.calls ∧
        sent = some (wsj1SendIssot .call id (api.bytes ++ ascii "/" ++ verb.bytes)
          (object.map CString.bytes) none)) := by
  rw [afbWsj1CallS] at h
  split at h
  case isTrue =>
    cases h
    exact ⟨hgenid, .inl ⟨rfl, rfl⟩⟩
  case isFalse =>
    rw [Option.bind_eq_bind, Option.bind_eq_some_iff] at h
    obtain ⟨⟨call, made⟩, hcreate, h⟩ := h
    obtain ⟨rfl, hfresh, hnumber, hrange, hcalls⟩ := callCreate_some hgenid hcreate
    dsimp only at h
    split at h
    · cases h
      exact ⟨hrange, .inr ⟨call.id, hfresh, hnumber, hcalls, rfl⟩⟩
    · cases h
      refine ⟨hrange, .inl ⟨rfl, ?_⟩⟩
      simp [wsj1CallRemove, hcalls]

theorem callS_returns (api verb : CString) (object : Option CString) (callback : κ)
    (allocated : Bool) (sends : Bytes → Bool) (hgenid : w.genid ≤ 999999)
    (h : w.calls.length < 999999) :
    (afbWsj1CallS api verb object callback allocated sends w).isSome = true := by
  obtain ⟨s, hloop⟩ := nextId_ends w.calls hgenid h
  rw [afbWsj1CallS, wsj1CallCreate, hloop]
  simp only [Option.bind_eq_bind, Option.bind_some]
  repeat' split
  all_goals rfl

/-! ## Texts -/

theorem fillReply_ok {c : Code} {calls calls' : List (Wsj1Call κ)} {items : List Item} {text : Bytes}
    {msg : AfbWsj1Msg} {call : Wsj1Call κ}
    (h : fillReply c calls items text = .ok (msg, call, calls')) :
    call ∈ calls ∧ calls' = calls.eraseP fun other => other.id = call.id := by
  rw [fillReply] at h
  split at h
  case isTrue => cases h
  case isFalse =>
    obtain ⟨⟨id, cut⟩, -, h⟩ := bind_ok.mp h
    dsimp only [wsj1CallRemove] at h
    cases hsearch : wsj1CallSearch calls (stringAt cut id) with
    | none =>
        rw [hsearch] at h
        cases h
    | some found =>
        rw [hsearch] at h
        obtain ⟨⟨object, length, cut⟩, -, h⟩ := bind_ok.mp h
        obtain ⟨⟨token, cut⟩, -, h⟩ := bind_ok.mp h
        cases h
        obtain ⟨hmem, hid⟩ := Keyed.search_some hsearch
        exact ⟨hmem, by rw [hid]⟩

/-- What an effect replies to. -/
def Effect.replied : Effect κ → Option κ
  | .reply callback _ => some callback
  | _ => none

/-- What a text can do to the calls: nothing, or the reply of one that is removed. -/
theorem onText_cases {itf : AfbWsj1Itf} {allocated : Bool} {text : CString}
    {effects : List (Effect κ)} (h : wsj1OnText itf allocated text w = .ok (effects, w')) :
    (effects.filterMap Effect.replied = [] ∧ w' = w) ∨
    ∃ call ∈ w.calls, ∃ msg, effects = [.reply call.callback msg] ∧
      w' = { w with calls := w.calls.eraseP fun other => other.id = call.id } := by
  have hinvoke : ∀ {defined : Bool} {effect : Effect κ}, effect.replied = none →
      invoke defined effect w = .ok (effects, w') →
      effects.filterMap Effect.replied = [] ∧ w' = w := by
    intro defined effect hnone hcall
    rw [invoke] at hcall
    split at hcall
    · cases hcall
      exact ⟨by simp [hnone], rfl⟩
    · cases hcall
  rw [wsj1OnText] at h
  split at h
  case isTrue =>
    cases h
    exact .inl ⟨rfl, rfl⟩
  case isFalse =>
    split at h
    case h_2 =>
      cases h
      exact .inl ⟨rfl, rfl⟩
    case h_3 => cases h
    case h_1 result hhandle =>
      cases h
      rw [handleText] at hhandle
      obtain ⟨items, -, hhandle⟩ := bind_ok.mp hhandle
      obtain ⟨code, -, hhandle⟩ := bind_ok.mp hhandle
      -- a call or an event is given to the interface; the two kinds of replies are one case
      cases code with
      | call =>
          obtain ⟨msg, -, hhandle⟩ := bind_ok.mp hhandle
          exact .inl (hinvoke rfl hhandle)
      | event =>
          obtain ⟨msg, -, hhandle⟩ := bind_ok.mp hhandle
          exact .inl (hinvoke rfl hhandle)
      | retok =>
          obtain ⟨⟨msg, call, calls⟩, hfill, hhandle⟩ := bind_ok.mp hhandle
          obtain ⟨hmem, hcalls⟩ := fillReply_ok hfill
          cases hhandle
          exact .inr ⟨call, hmem, msg, rfl, by rw [hcalls]⟩
      | reterr =>
          obtain ⟨⟨msg, call, calls⟩, hfill, hhandle⟩ := bind_ok.mp hhandle
          obtain ⟨hmem, hcalls⟩ := fillReply_ok hfill
          cases hhandle
          exact .inr ⟨call, hmem, msg, rfl, by rw [hcalls]⟩

end Calls

/-! ## Runs -/

/-- A link, the number of its calls so far and what the texts received did. -/
structure Exchange where
  w : AfbWsj1 Nat
  issued : Nat
  log : List (Effect Nat)

def Exchange.initial : Exchange := ⟨afbWsj1Create, 0, []⟩

inductive ExchangeAction where
  | call (api verb : CString) (object : Option CString) (allocated : Bool) (sends : Bytes → Bool)
  | receive (allocated : Bool) (text : CString)

/-- A call or the reception of a text; `none` when the call does not return or the text
makes a fault. -/
def Exchange.step (itf : AfbWsj1Itf) (s : Exchange) : ExchangeAction → Option Exchange
  | .call api verb object allocated sends => do
      let (w, _) ← afbWsj1CallS api verb object s.issued allocated sends s.w
      some ⟨w, s.issued + 1, s.log⟩
  | .receive allocated text =>
      match wsj1OnText itf allocated text s.w with
      | .ok (effects, w) => some ⟨w, s.issued, s.log ++ effects⟩
      | .error _ => none

/-- The transitions lead from one exchange to another. -/
abbrev Exchange.RunsOf (itf : AfbWsj1Itf) : Exchange → Exchange →
    List (Transition Exchange ExchangeAction) → Prop :=
  Runs fun s action s' => s.step itf action = some s'

/-- The calls whose callback was invoked. -/
def replied (log : List (Effect Nat)) : List Nat := log.filterMap Effect.replied

/-- The calls that wait or had their reply are distinct. -/
structure Exchange.Matched (s : Exchange) : Prop where
  numbered : WellNumbered s.w
  once : (replied s.log ++ s.w.calls.map Wsj1Call.callback).Nodup
  issued : ∀ n ∈ replied s.log ++ s.w.calls.map Wsj1Call.callback, n < s.issued

theorem Exchange.matched_initial : Exchange.initial.Matched :=
  ⟨⟨Nat.zero_le _, List.nodup_nil, by simp [Exchange.initial, afbWsj1Create]⟩, List.nodup_nil,
    by simp [Exchange.initial, afbWsj1Create, replied]⟩

theorem Exchange.Matched.call {s : Exchange} {w : AfbWsj1 Nat} {api verb : CString}
    {object : Option CString} {allocated : Bool} {sends : Bytes → Bool} {sent : Option Bytes}
    (h : s.Matched) (hcall : afbWsj1CallS api verb object s.issued allocated sends s.w = some (w, sent)) :
    Exchange.Matched ⟨w, s.issued + 1, s.log⟩ := by
  obtain ⟨hrange, ⟨-, hcalls⟩ | ⟨id, hfresh, hnumber, hcalls, -⟩⟩ := callS_cases h.numbered.genid hcall
  · refine ⟨⟨hrange, ?_, ?_⟩, ?_, fun n hn => ?_⟩
    · rw [hcalls]
      exact h.numbered.distinct
    · rw [hcalls]
      exact h.numbered.numbers
    · rw [hcalls]
      exact h.once
    · rw [hcalls] at hn
      exact Nat.lt_succ_of_lt (h.issued n hn)
  · have hnew : s.issued ∉ replied s.log ++ s.w.calls.map Wsj1Call.callback :=
      fun hmem => Nat.lt_irrefl _ (h.issued _ hmem)
    refine ⟨⟨hrange, ?_, ?_⟩, ?_, fun n hn => ?_⟩
    · rw [hcalls, List.map_cons]
      exact List.nodup_cons.mpr ⟨hfresh, h.numbered.distinct⟩
    · intro call hmem
      rw [hcalls] at hmem
      rcases List.mem_cons.mp hmem with rfl | hmem
      · exact hnumber
      · exact h.numbered.numbers call hmem
    · rw [hcalls, List.map_cons]
      exact List.perm_middle.nodup_iff.mpr (List.nodup_cons.mpr ⟨hnew, h.once⟩)
    · rw [hcalls, List.map_cons] at hn
      rcases List.mem_cons.mp (List.perm_middle.mem_iff.mp hn) with rfl | hn
      · exact Nat.lt_succ_self _
      · exact Nat.lt_succ_of_lt (h.issued n hn)

theorem Exchange.Matched.receive {itf : AfbWsj1Itf} {s : Exchange} {w : AfbWsj1 Nat}
    {allocated : Bool} {text : CString} {effects : List (Effect Nat)} (h : s.Matched)
    (htext : wsj1OnText itf allocated text s.w = .ok (effects, w)) :
    Exchange.Matched ⟨w, s.issued, s.log ++ effects⟩ := by
  rcases onText_cases htext with ⟨hnone, rfl⟩ | ⟨call, hmem, msg, rfl, rfl⟩
  · have hlog : replied (s.log ++ effects) = replied s.log := by
      rw [replied, List.filterMap_append, hnone, List.append_nil]
      rfl
    exact ⟨h.numbered, by rw [hlog]; exact h.once, by rw [hlog]; exact h.issued⟩
  · have hlog : replied (s.log ++ [.reply call.callback msg]) = replied s.log ++ [call.callback] := by
      simp [replied, Effect.replied]
    -- the reply moves the callback from the calls that wait to those replied
    have hperm : (replied s.log ++ [call.callback] ++
        (s.w.calls.eraseP fun other => other.id = call.id).map Wsj1Call.callback).Perm
        (replied s.log ++ s.w.calls.map Wsj1Call.callback) := by
      rw [List.append_assoc]
      apply List.Perm.append_left
      have hcalls : (call :: s.w.calls.eraseP fun other => other.id = call.id).Perm s.w.calls := by
        rw [Keyed.eraseP_eq_filter h.numbered.distinct,
          ← Keyed.erase_eq_filter h.numbered.distinct hmem]
        exact (List.perm_cons_erase hmem).symm
      exact hcalls.map Wsj1Call.callback
    refine ⟨⟨h.numbered.genid, ?_, ?_⟩, ?_, fun n hn => ?_⟩
    · exact h.numbered.distinct.sublist (List.eraseP_sublist.map _)
    · exact fun other hother => h.numbered.numbers other (List.mem_of_mem_eraseP hother)
    · rw [hlog]
      exact hperm.nodup_iff.mpr h.once
    · rw [hlog] at hn
      exact h.issued n (hperm.mem_iff.mp hn)

theorem Exchange.Matched.step {itf : AfbWsj1Itf} {s s' : Exchange} {action : ExchangeAction}
    (h : s.Matched) (hstep : s.step itf action = some s') : s'.Matched := by
  cases action with
  | call api verb object allocated sends =>
      simp only [Exchange.step, Option.bind_eq_bind, Option.bind_eq_some_iff] at hstep
      obtain ⟨⟨w, sent⟩, hcall, hstep⟩ := hstep
      cases hstep
      exact h.call hcall
  | receive allocated text =>
      rw [Exchange.step] at hstep
      split at hstep
      case h_1 effects w htext =>
        cases hstep
        exact h.receive htext
      case h_2 => cases hstep

theorem Exchange.matched_of_runs {itf : AfbWsj1Itf} {s s' : Exchange}
    {ts : List (Transition Exchange ExchangeAction)} (h : s.Matched)
    (hrun : Exchange.RunsOf itf s s' ts) : s'.Matched :=
  hrun.invariant Exchange.Matched (fun _ _ _ hmatched hstep => hmatched.step hstep) h

/-! ## Replies -/

/-- A well-formed reply with the identifier: a code, the identifier in quotes, an object
and perhaps a token. -/
def IsReply (text : CString) (id : Bytes) : Prop :=
  ∃ code object rest, (code = [51] ∨ code = [52]) ∧ rest.length ≤ 1 ∧
    Listing text.bytes (code :: (quote :: (id ++ [quote])) :: object :: rest)

/-- A reply on a link with distinct identifiers: it is for the call with its identifier
only. -/
theorem reply_matched {κ : Type} {itf : AfbWsj1Itf} {w : AfbWsj1 κ} {text : CString} {id : Bytes}
    (hdistinct : (w.calls.map Wsj1Call.id).Nodup) (h : IsReply text id) :
    (∀ call ∈ w.calls, call.id = id → ∃ msg, wsj1OnText itf true text w =
      .ok ([.reply call.callback msg], { w with calls := w.calls.filter fun other => other.id ≠ id })) ∧
    ((∀ call ∈ w.calls, call.id ≠ id) →
      wsj1OnText itf true text w = .ok ([.freeText, .close 1008], w)) := by
  obtain ⟨code, object, rest, hcode, hrest, hlisting⟩ := h
  obtain ⟨c, hc, hkind⟩ : ∃ c, (c = .retok ∨ c = .reterr) ∧ segmentCode code = some c := by
    rcases hcode with rfl | rfl
    · exact ⟨.retok, .inl rfl, rfl⟩
    · exact ⟨.reterr, .inr rfl, rfl⟩
  obtain ⟨hbad, hgood⟩ := @handleText_reply κ itf text w _ _ _ _ _ hlisting hkind hc hrest
  rw [unquote_quoted] at hbad hgood
  refine ⟨fun call hmem hid => ?_, fun hnone => ?_⟩
  · subst hid
    obtain ⟨msg, -, hhandle⟩ := hgood call (Keyed.search_mem hdistinct hmem)
    rw [Keyed.eraseP_eq_filter hdistinct] at hhandle
    exact ⟨msg, onText_ok hhandle⟩
  · apply onText_bad
    apply hbad
    apply Keyed.search_none.mpr
    intro hmem
    obtain ⟨call, hcall, hid⟩ := List.mem_map.mp hmem
    exact hnone call hcall hid

/-- In every run: the identifiers of the calls that wait are distinct; with fewer than
999999 of them a call returns; a call that is not sent leaves them, and one that is sent
waits under a new identifier; a reply invokes the callback of the call with its identifier
and removes it, and does nothing but close the link when there is none; no callback is
invoked twice. -/
theorem wsj1_replies_matched {itf : AfbWsj1Itf} {s : Exchange}
    {ts : List (Transition Exchange ExchangeAction)}
    (hrun : Exchange.RunsOf itf .initial s ts) :
    (s.w.calls.map Wsj1Call.id).Nodup ∧
    (s.w.calls.length < 999999 → ∀ api verb object allocated sends,
      (s.step itf (.call api verb object allocated sends)).isSome = true) ∧
    (∀ api verb object allocated sends w sent,
      afbWsj1CallS api verb object s.issued allocated sends s.w = some (w, sent) →
        (sent = none → w.calls = s.w.calls) ∧
        (sent ≠ none → ∃ id, id ∉ s.w.calls.map Wsj1Call.id ∧
          w.calls = ⟨id, s.issued⟩ :: s.w.calls)) ∧
    (∀ text id, IsReply text id →
      (∀ call ∈ s.w.calls, call.id = id →
        ∃ msg, s.step itf (.receive true text) = some { s with
          w := { s.w with calls := s.w.calls.filter fun other => other.id ≠ id }
          log := s.log ++ [.reply call.callback msg] }) ∧
      ((∀ call ∈ s.w.calls, call.id ≠ id) →
        s.step itf (.receive true text) = some { s with log := s.log ++ [.freeText, .close 1008] })) ∧
    ∀ n, (replied s.log).count n ≤ 1 := by
  have hmatched := Exchange.matched_of_runs Exchange.matched_initial hrun
  have hnumbered := hmatched.numbered
  refine ⟨hnumbered.distinct, fun hroom api verb object allocated sends => ?_,
    fun api verb object allocated sends w sent hcall => ?_, fun text id hreply => ?_, fun n => ?_⟩
  · have hreturns := callS_returns api verb object s.issued allocated sends hnumbered.genid hroom
    obtain ⟨result, hresult⟩ := Option.isSome_iff_exists.mp hreturns
    simp [Exchange.step, hresult]
  · obtain ⟨-, ⟨hsent, hcalls⟩ | ⟨id, hfresh, -, hcalls, hsent⟩⟩ := callS_cases hnumbered.genid hcall
    · exact ⟨fun _ => hcalls, fun hne => absurd hsent hne⟩
    · refine ⟨fun hnone => ?_, fun _ => ⟨id, hfresh, hcalls⟩⟩
      rw [hnone] at hsent
      cases hsent
  · obtain ⟨hone, hnone⟩ := @reply_matched Nat itf s.w text id hnumbered.distinct hreply
    refine ⟨fun call hmem hid => ?_, fun hno => ?_⟩
    · obtain ⟨msg, htext⟩ := hone call hmem hid
      exact ⟨msg, by rw [Exchange.step, htext]⟩
    · rw [Exchange.step, hnone hno]
  · have honce := (List.nodup_append.mp hmatched.once).1
    exact List.nodup_iff_count.mp honce n

/-- The text `[3,"999999",null]`. -/
def firstReply : CString :=
  ⟨[91, 51, 44, 34, 57, 57, 57, 57, 57, 57, 34, 44, 110, 117, 108, 108, 93], by decide⟩

theorem firstReply_isReply : IsReply firstReply [57, 57, 57, 57, 57, 57] := by
  have hsegments : ∀ seg ∈ [[51], quote :: ([57, 57, 57, 57, 57, 57] ++ [quote]),
      [110, 117, 108, 108]], Segment seg := by
    intro seg hseg
    simp only [List.mem_cons, List.not_mem_nil, or_false] at hseg
    rcases hseg with rfl | rfl | rfl
    · have hdigits : Digits [51] := ⟨by simp, by simp⟩
      exact .value (.number ⟨[], [51], [], [], .inl rfl, ⟨hdigits, by simp⟩, .inl rfl, .inl rfl, rfl⟩)
    · exact .quoted (.of_plain (by simp [backslash, quote]))
    · exact .value .null
  exact ⟨[51], [110, 117, 108, 108], [], .inl rfl, by simp, listing_joined hsegments (by decide)⟩

/-- The first call of a link, then its reply. -/
theorem wsj1_replies_matched_first :
    ∃ msg, Exchange.step wsJson1Itf ⟨⟨999998, [⟨[57, 57, 57, 57, 57, 57], 0⟩]⟩, 1, []⟩
      (.receive true firstReply) = some ⟨⟨999998, []⟩, 1, [.reply 0 msg]⟩ := by
  have hcall : Exchange.step wsJson1Itf .initial (.call ⟨[97], by decide⟩ ⟨[118], by decide⟩ none true
      fun _ => true) = some ⟨⟨999998, [⟨[57, 57, 57, 57, 57, 57], 0⟩]⟩, 1, []⟩ := by rfl
  have hrun : Exchange.RunsOf wsJson1Itf .initial
      ⟨⟨999998, [⟨[57, 57, 57, 57, 57, 57], 0⟩]⟩, 1, []⟩ _ := .single hcall
  exact ((wsj1_replies_matched hrun).2.2.2.1 firstReply _ firstReply_isReply).1
    ⟨[57, 57, 57, 57, 57, 57], 0⟩ (by simp) rfl

end AfbBinder.Wsj1
