import AfbBinder.Wsj1.Message

/-!
# Receiving a text

What `wsj1_on_text` does with each kind of listing, and when it does something with the
interface of the daemon: a listing without any item makes it read an item that was not
filled, and one of three items with the code of an event makes it call the callback for
events, that `afb-ws-json1.c` does not define.
-/

namespace AfbBinder.Wsj1

open Lib Lib.JsonText

variable {κ : Type} {itf : AfbWsj1Itf} {text : CString} {w : AfbWsj1 κ}

theorem Body.segments {segs : List Bytes} {body : Bytes} (h : Body segs body) :
    ∀ seg ∈ segs, Segment seg := by
  induction h with
  | last hseg _ =>
      intro seg hmem
      rw [List.mem_singleton] at hmem
      exact hmem ▸ hseg
  | more hseg _ _ ih =>
      intro seg hmem
      rcases List.mem_cons.mp hmem with rfl | hmem
      · exact hseg
      · exact ih seg hmem

/-- The scanner on a listing: the items are in their places, and have no NUL. -/
theorem scan_listing {segs : List Bytes} (h : Listing text.bytes segs) (hten : segs.length ≤ 10) :
    ∃ items, wsj1MsgScan (text.bytes ++ [0]) = .ok items ∧
      Placed (text.bytes ++ [0]) 0 items segs ∧ ∀ seg ∈ segs, (0 : UInt8) ∉ seg := by
  obtain ⟨items, hscan, hplaced⟩ := wsj1MsgScan_listing h hten
  refine ⟨items, hscan, hplaced, fun seg hseg => ?_⟩
  obtain ⟨_, _, _, body, -, ⟨rfl, -⟩ | ⟨-, hbody⟩⟩ := h
  · cases hseg
  · exact (hbody.segments seg hseg).balanced.nulFree

/-! ## The kinds of messages -/

theorem handleText_call {code i a o : Bytes} {rest : List Bytes}
    (h : Listing text.bytes (code :: i :: a :: o :: rest)) (hcode : segmentCode code = some .call)
    (hrest : rest.length ≤ 1) :
    (slash ∉ unquote a → handleText itf (text.bytes ++ [0]) w = .error .bad) ∧
    ∀ api verb, unquote a = api ++ slash :: verb → slash ∉ api →
      ∃ msg, Reads msg .call (some (unquote i)) (some api) (some verb) none o
          (rest.head?.map unquote) ∧
        handleText itf (text.bytes ++ [0]) w = invoke itf.onCall (.onCall api verb msg) w := by
  obtain ⟨items, hscan, hplaced, hnul⟩ := scan_listing h (by simp only [List.length_cons]; omega)
  obtain ⟨hbad, hgood⟩ := fillCall_placed hplaced hrest hnul
  have hkind := scanCode_placed hplaced
  rw [hcode] at hkind
  rw [handleText, hscan, ok_bind_except, hkind, ok_bind_except]
  refine ⟨fun hslash => ?_, fun api verb hsplit hslash => ?_⟩
  · simp only [hbad hslash, error_bind_except]
  · obtain ⟨msg, hfill, hreads⟩ := hgood api verb hsplit hslash
    refine ⟨msg, hreads, ?_⟩
    simp only [hfill, ok_bind_except, hreads.api, hreads.verb, Option.getD_some]

theorem handleText_reply {code i o : Bytes} {rest : List Bytes} {c : Code}
    (h : Listing text.bytes (code :: i :: o :: rest)) (hcode : segmentCode code = some c)
    (hc : c = .retok ∨ c = .reterr) (hrest : rest.length ≤ 1) :
    (wsj1CallSearch w.calls (unquote i) = none →
      handleText itf (text.bytes ++ [0]) w = .error .bad) ∧
    ∀ call, wsj1CallSearch w.calls (unquote i) = some call →
      ∃ msg, Reads msg c (some (unquote i)) none none none o none ∧
        handleText itf (text.bytes ++ [0]) w = .ok ([.reply call.callback msg],
          { w with calls := w.calls.eraseP fun call => call.id = unquote i }) := by
  obtain ⟨items, hscan, hplaced, hnul⟩ := scan_listing h (by simp only [List.length_cons]; omega)
  obtain ⟨hbad, hgood⟩ := fillReply_placed c w.calls hplaced hrest hnul
  have hkind := scanCode_placed hplaced
  rw [hcode] at hkind
  have hhandle : handleText itf (text.bytes ++ [0]) w =
      fillReply c w.calls items (text.bytes ++ [0]) >>= fun filled =>
        .ok ([.reply filled.2.1.callback filled.1], { w with calls := filled.2.2 }) := by
    rw [handleText, hscan, ok_bind_except, hkind, ok_bind_except]
    rcases hc with rfl | rfl
    · rfl
    · rfl
  rw [hhandle]
  refine ⟨fun hnone => ?_, fun call hcall => ?_⟩
  · rw [hbad hnone, error_bind_except]
  · obtain ⟨msg, hfill, hreads⟩ := hgood call hcall
    refine ⟨msg, hreads, ?_⟩
    rw [hfill, ok_bind_except]

theorem handleText_event {code i o : Bytes} (h : Listing text.bytes [code, i, o])
    (hcode : segmentCode code = some .event) :
    ∃ msg, Reads msg .event none none none (some (unquote i)) o none ∧
      handleText itf (text.bytes ++ [0]) w = invoke itf.onEvent (.onEvent (unquote i) msg) w := by
  obtain ⟨items, hscan, hplaced, hnul⟩ := scan_listing h (by simp)
  obtain ⟨msg, hfill, hreads⟩ := fillEvent_placed hplaced hnul
  have hkind := scanCode_placed hplaced
  rw [hcode] at hkind
  refine ⟨msg, hreads, ?_⟩
  rw [handleText, hscan, ok_bind_except, hkind, ok_bind_except]
  simp only [hfill, ok_bind_except, hreads.event, Option.getD_some]

/-- A listing with another code, or with another number of items than its code asks. -/
theorem handleText_refused {code : Bytes} {segs : List Bytes}
    (h : Listing text.bytes (code :: segs)) (hten : (code :: segs).length ≤ 10)
    (hrefused :
      match segmentCode code with
      | none => True
      | some .call => segs.length ≠ 3 ∧ segs.length ≠ 4
      | some .event => segs.length ≠ 2
      | some _ => segs.length ≠ 2 ∧ segs.length ≠ 3) :
    handleText itf (text.bytes ++ [0]) w = .error .bad := by
  obtain ⟨items, hscan, hplaced, -⟩ := scan_listing h hten
  have hlength := hplaced.length_eq
  rw [List.length_cons] at hlength
  have hkind := scanCode_placed hplaced
  rw [handleText, hscan, ok_bind_except, hkind]
  cases hcode : segmentCode code with
  | none => rfl
  | some c =>
      rw [hcode] at hrefused
      rw [ok_bind_except]
      cases c with
      | call =>
          simp only [fillCall, if_pos (show items.length ≠ 4 ∧ items.length ≠ 5 by omega),
            error_bind_except]
      | event =>
          simp only [fillEvent, if_pos (show items.length ≠ 3 by omega), error_bind_except]
      | retok =>
          simp only [fillReply, if_pos (show items.length ≠ 3 ∧ items.length ≠ 4 by omega),
            error_bind_except]
      | reterr =>
          simp only [fillReply, if_pos (show items.length ≠ 3 ∧ items.length ≠ 4 by omega),
            error_bind_except]

/-- A listing without any item. -/
theorem handleText_empty (h : Listing text.bytes []) :
    handleText itf (text.bytes ++ [0]) w = .error (.fault .unfilledItem) := by
  obtain ⟨items, hscan, hplaced, -⟩ := scan_listing h (by simp)
  have hnone : items = [] := List.eq_nil_of_length_eq_zero hplaced.length_eq
  rw [handleText, hscan, hnone]
  rfl

theorem segmentCode_event {seg : Bytes} (h : segmentCode seg = some .event) : seg = [53] := by
  match seg with
  | [] => cases h
  | [c] =>
      rw [segmentCode, codeOf] at h
      split at h
      · cases h
      split at h
      · cases h
      split at h
      · cases h
      split at h
      case isTrue hc => rw [hc]
      case isFalse => cases h
  | _ :: _ :: _ => cases h

/-! ## The daemon -/

/-- `wsj1_itf` of `afb-ws-json1.c` -/
def wsJson1Itf : AfbWsj1Itf := ⟨true, true, false⟩

/-- What the reception of a text may do: one call, one reply of a call that waits and is
removed, or the release of the text and the close with the code 1008. -/
def Settles (w : AfbWsj1 κ) (effects : List (Effect κ)) (w' : AfbWsj1 κ) : Prop :=
  (∃ api verb msg, effects = [.onCall api verb msg] ∧ w' = w) ∨
  (∃ call ∈ w.calls, ∃ msg, effects = [.reply call.callback msg] ∧
    w' = { w with calls := w.calls.eraseP fun other => other.id = call.id }) ∨
  (effects = [.freeText, .close 1008] ∧ w' = w)

theorem onText_bad (h : handleText itf (text.bytes ++ [0]) w = .error .bad) :
    wsj1OnText itf true text w = .ok ([.freeText, .close 1008], w) := by
  rw [wsj1OnText, if_neg (by decide), h]

theorem onText_ok {result : List (Effect κ) × AfbWsj1 κ}
    (h : handleText itf (text.bytes ++ [0]) w = .ok result) :
    wsj1OnText itf true text w = .ok result := by
  rw [wsj1OnText, if_neg (by decide), h]

theorem onText_fault {f : Fault} (h : handleText itf (text.bytes ++ [0]) w = .error (.fault f)) :
    wsj1OnText itf true text w = .error f := by
  rw [wsj1OnText, if_neg (by decide), h]

/-- The listings that go wrong. -/
def Crashing (text : CString) : Prop :=
  Listing text.bytes [] ∨ ∃ event object, Listing text.bytes [[53], event, object]

theorem crashing_faults (h : Crashing text) :
    ∃ f, wsj1OnText wsJson1Itf true text w = .error f := by
  rcases h with hempty | ⟨event, object, hevent⟩
  · exact ⟨.unfilledItem, onText_fault (handleText_empty hempty)⟩
  · obtain ⟨msg, -, hhandle⟩ := @handleText_event κ wsJson1Itf text w _ _ _ hevent rfl
    exact ⟨.nullCallback, onText_fault hhandle⟩

/-- A text of the code of a call. -/
theorem settles_call {code : Bytes} {segs : List Bytes} (h : Listing text.bytes (code :: segs))
    (hten : (code :: segs).length ≤ 10) (hcode : segmentCode code = some .call) :
    ∃ effects w', wsj1OnText wsJson1Itf true text w = .ok (effects, w') ∧
      Settles w effects w' := by
  match segs, h, hten with
  | i :: a :: o :: rest, h, hten =>
      by_cases hrest : rest.length ≤ 1
      · obtain ⟨hbad, hgood⟩ := @handleText_call κ wsJson1Itf text w _ _ _ _ _ h hcode hrest
        by_cases hslash : slash ∈ unquote a
        · obtain ⟨api, verb, hsplit, hfirst⟩ := List.eq_append_cons_of_mem hslash
          obtain ⟨msg, -, hhandle⟩ := hgood api verb hsplit hfirst
          exact ⟨_, _, onText_ok hhandle, .inl ⟨api, verb, msg, rfl, rfl⟩⟩
        · exact ⟨_, _, onText_bad (hbad hslash), .inr (.inr ⟨rfl, rfl⟩)⟩
      · refine ⟨_, _, onText_bad (handleText_refused h hten ?_), .inr (.inr ⟨rfl, rfl⟩)⟩
        rw [hcode]
        simp only [List.length_cons]
        omega
  | [], h, hten =>
      refine ⟨_, _, onText_bad (handleText_refused h hten ?_), .inr (.inr ⟨rfl, rfl⟩)⟩
      simp [hcode]
  | [_], h, hten =>
      refine ⟨_, _, onText_bad (handleText_refused h hten ?_), .inr (.inr ⟨rfl, rfl⟩)⟩
      simp [hcode]
  | [_, _], h, hten =>
      refine ⟨_, _, onText_bad (handleText_refused h hten ?_), .inr (.inr ⟨rfl, rfl⟩)⟩
      simp [hcode]

/-- A text of the code of a reply. -/
theorem settles_reply {code : Bytes} {segs : List Bytes} {c : Code}
    (h : Listing text.bytes (code :: segs)) (hten : (code :: segs).length ≤ 10)
    (hcode : segmentCode code = some c) (hc : c = .retok ∨ c = .reterr) :
    ∃ effects w', wsj1OnText wsJson1Itf true text w = .ok (effects, w') ∧
      Settles w effects w' := by
  by_cases hcount : segs.length = 2 ∨ segs.length = 3
  · match segs, h, hten, hcount with
    | i :: o :: rest, h, hten, hcount =>
        have hrest : rest.length ≤ 1 := by
          simp only [List.length_cons] at hcount
          omega
        obtain ⟨hbad, hgood⟩ := @handleText_reply κ wsJson1Itf text w _ _ _ _ _ h hcode hc hrest
        cases hsearch : wsj1CallSearch w.calls (unquote i) with
        | none => exact ⟨_, _, onText_bad (hbad hsearch), .inr (.inr ⟨rfl, rfl⟩)⟩
        | some call =>
            obtain ⟨msg, -, hhandle⟩ := hgood call hsearch
            obtain ⟨hmem, hid⟩ := Keyed.search_some hsearch
            refine ⟨_, _, onText_ok hhandle, .inr (.inl ⟨call, hmem, msg, rfl, ?_⟩)⟩
            rw [hid]
    | [], _, _, hcount => simp at hcount
    | [_], _, _, hcount => simp at hcount
  · refine ⟨_, _, onText_bad (handleText_refused h hten ?_), .inr (.inr ⟨rfl, rfl⟩)⟩
    rw [hcode]
    rw [not_or] at hcount
    rcases hc with rfl | rfl
    · exact hcount
    · exact hcount

/-- Every text that the scanner accepts is settled, the crashing ones excepted. -/
theorem settles_listing {segs : List Bytes} (h : Listing text.bytes segs)
    (hten : segs.length ≤ 10) (hcrash : ¬ Crashing text) :
    ∃ effects w', wsj1OnText wsJson1Itf true text w = .ok (effects, w') ∧
      Settles w effects w' := by
  cases segs with
  | nil => exact absurd (.inl h) hcrash
  | cons code segs =>
      cases hcode : segmentCode code with
      | none =>
          refine ⟨_, _, onText_bad (handleText_refused h hten ?_), .inr (.inr ⟨rfl, rfl⟩)⟩
          rw [hcode]
          trivial
      | some c =>
          cases c with
          | call => exact settles_call h hten hcode
          | retok => exact settles_reply h hten hcode (.inl rfl)
          | reterr => exact settles_reply h hten hcode (.inr rfl)
          | event =>
              by_cases htwo : segs.length = 2
              · obtain ⟨event, object, rfl⟩ : ∃ event object, segs = [event, object] := by
                  match segs, htwo with
                  | [event, object], _ => exact ⟨event, object, rfl⟩
                rw [segmentCode_event hcode] at h
                exact absurd (.inr ⟨event, object, h⟩) hcrash
              · refine ⟨_, _, onText_bad (handleText_refused h hten ?_), .inr (.inr ⟨rfl, rfl⟩)⟩
                rw [hcode]
                exact htwo

/-- On every text followed by its NUL, the reception ends in one of the ways of `Settles`
without reading after the NUL, an item that was not filled or a callback that is not
defined, exactly when there is no memory for the message or the text is neither a listing
without items nor a listing of three items the first of which is `5`. -/
theorem on_text_settles_iff {κ : Type} (allocated : Bool) (text : CString) (w : AfbWsj1 κ) :
    (∃ effects w', wsj1OnText wsJson1Itf allocated text w = .ok (effects, w') ∧
      Settles w effects w') ↔
    allocated = false ∨ ¬ (Listing text.bytes [] ∨
      ∃ event object, Listing text.bytes [[53], event, object]) := by
  cases allocated with
  | false =>
      refine ⟨fun _ => .inl rfl, fun _ => ⟨[.freeText, .close 1008], w, rfl, .inr (.inr ⟨rfl, rfl⟩)⟩⟩
  | true =>
      refine ⟨fun ⟨effects, w', hok, _⟩ => .inr fun hcrash => ?_, fun hnot => ?_⟩
      · obtain ⟨f, hfault⟩ := @crashing_faults κ text w hcrash
        rw [hfault] at hok
        cases hok
      · have hcrash := hnot.resolve_left (by decide)
        cases hscan : wsj1MsgScan (text.bytes ++ [0]) with
        | ok items =>
            obtain ⟨segs, hlisting, hten⟩ := listing_of_scan text.nulFree hscan
            exact settles_listing hlisting hten hcrash
        | error stop =>
            cases stop with
            | fault f => exact absurd hscan (wsj1MsgScan_safe text.bytes f)
            | bad =>
                refine ⟨_, _, onText_bad ?_, .inr (.inr ⟨rfl, rfl⟩)⟩
                rw [handleText, hscan]
                rfl

/-- The text `[]`. -/
def emptyListing : CString := ⟨[91, 93], by decide⟩

/-- The text `[5,"",0]`. -/
def strayEvent : CString := ⟨[91, 53, 44, 34, 34, 44, 48, 93], by decide⟩

/-- The two kinds of texts that go wrong, on a new link. -/
theorem on_text_crashes :
    (∀ effects w', ¬ (wsj1OnText wsJson1Itf true emptyListing (afbWsj1Create : AfbWsj1 Nat) =
      .ok (effects, w') ∧ Settles afbWsj1Create effects w')) ∧
    wsj1OnText wsJson1Itf true emptyListing (afbWsj1Create : AfbWsj1 Nat) = .error .unfilledItem ∧
    wsj1OnText wsJson1Itf true strayEvent (afbWsj1Create : AfbWsj1 Nat) = .error .nullCallback := by
  have hempty : wsj1OnText wsJson1Itf true emptyListing (afbWsj1Create : AfbWsj1 Nat) =
      .error .unfilledItem := by rfl
  refine ⟨fun effects w' hboth => ?_, hempty, by rfl⟩
  rw [hempty] at hboth
  cases hboth.1

end AfbBinder.Wsj1
