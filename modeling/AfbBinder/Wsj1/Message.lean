import AfbBinder.Wsj1.Link
import AfbBinder.Wsj1.Listing

/-!
# Filling a message

The strings of a message are cut in the buffer of its text, from the first item to the
last.  A cut at the end of an item leaves the items that follow in their places and the
strings already cut as they are.
-/

namespace AfbBinder.Wsj1

open Lib Lib.JsonText

/-! ## The buffer -/

section Buffer

variable {text s : Bytes} {offset i : Nat}

theorem covers_set_left (h : Covers text offset s) (hi : i < offset) :
    Covers (text.set i 0) offset s := by
  rw [Covers, List.drop_set_of_lt hi]
  exact h

theorem covers_set_right (h : Covers text offset s) (hi : offset + s.length ≤ i) :
    Covers (text.set i 0) offset s := by
  obtain ⟨rest, hrest⟩ := h
  rw [Covers, List.drop_set, if_neg (by omega), ← hrest, List.set_append_right _ _ (by omega)]
  exact List.prefix_append s _

theorem covers_cut (h : Covers text offset s) (hin : offset + s.length < text.length) :
    Covers (text.set (offset + s.length) 0) offset (s ++ [0]) := by
  obtain ⟨rest, hrest⟩ := h
  have hlength := congrArg List.length hrest
  rw [List.length_append, List.length_drop] at hlength
  cases rest with
  | nil =>
      rw [List.length_nil] at hlength
      omega
  | cons c rest =>
      rw [Covers, List.drop_set, if_neg (by omega), ← hrest, List.set_append_right _ _ (by omega)]
      simp

theorem covers_left {t : Bytes} (h : Covers text offset (s ++ t)) : Covers text offset s :=
  (List.prefix_append s t).trans h

theorem covers_right {t : Bytes} (h : Covers text offset (s ++ t)) :
    Covers text (offset + s.length) t := by
  obtain ⟨rest, hrest⟩ := h
  refine ⟨rest, ?_⟩
  rw [← List.drop_drop, ← hrest, List.append_assoc, List.drop_left]

theorem stringAt_covers (h : Covers text offset (s ++ [0])) (hnul : (0 : UInt8) ∉ s) :
    stringAt text offset = s := by
  obtain ⟨rest, hrest⟩ := h
  rw [stringAt, ← hrest, List.append_assoc]
  exact cstring_append ⟨s, hnul⟩ rest

theorem charAt_covers {c : UInt8} (h : Covers text offset (c :: s)) : charAt text offset = .ok c := by
  obtain ⟨rest, hrest⟩ := h
  rw [charAt, ← hrest]
  rfl

theorem writeNul_ok (h : i < text.length) : writeNul text i = .ok (text.set i 0) := by
  rw [writeNul, if_pos h]

end Buffer

/-- What stands before the place is the same in both buffers. -/
def SameBefore (place : Nat) (text text' : Bytes) : Prop :=
  ∀ offset s, offset + s.length ≤ place → Covers text offset s → Covers text' offset s

theorem sameBefore_set (text : Bytes) {place i : Nat} (h : place ≤ i) :
    SameBefore place text (text.set i 0) :=
  fun _ _ hle hcovers => covers_set_right hcovers (Nat.le_trans hle h)

theorem SameBefore.trans {place place' : Nat} {text text' text'' : Bytes}
    (h : SameBefore place text text') (h' : SameBefore place' text' text'')
    (hle : place ≤ place') : SameBefore place text text'' :=
  fun offset s hs hcovers => h' offset s (Nat.le_trans hs hle) (h offset s hs hcovers)

theorem SameBefore.mono {place place' : Nat} {text text' : Bytes} (h : SameBefore place' text text')
    (hle : place ≤ place') : SameBefore place text text' :=
  fun offset s hs hcovers => h offset s (Nat.le_trans hs hle) hcovers

theorem Placed.cut {text : Bytes} {start i : Nat} {items : List Item} {segs : List Bytes}
    (h : Placed text start items segs) (hi : i < start) :
    Placed (text.set i 0) start items segs := by
  induction items generalizing start segs with
  | nil =>
      cases segs with
      | nil => trivial
      | cons seg segs => exact h
  | cons item items ih =>
      cases segs with
      | nil => exact h
      | cons seg segs =>
          obtain ⟨hle, hlength, hcovers, hin, hrest⟩ := h
          refine ⟨hle, hlength, covers_set_left hcovers (by omega), ?_, ih hrest (by omega)⟩
          rw [List.length_set]
          exact hin

theorem Placed.length_eq {text : Bytes} {start : Nat} {items : List Item} {segs : List Bytes}
    (h : Placed text start items segs) : items.length = segs.length := by
  induction items generalizing start segs with
  | nil =>
      cases segs with
      | nil => rfl
      | cons seg segs => exact h.elim
  | cons item items ih =>
      cases segs with
      | nil => exact h.elim
      | cons seg segs => rw [List.length_cons, List.length_cons, ih h.2.2.2.2]

/-- The first of the items left. -/
theorem Placed.slot {text : Bytes} {start k : Nat} {items : List Item} {seg : Bytes}
    {segs : List Bytes} (h : Placed text start (items.drop k) (seg :: segs)) :
    ∃ item, Wsj1.slot items k = .ok item ∧ start ≤ item.offset ∧ item.length = seg.length ∧
      Covers text item.offset seg ∧ item.offset + item.length < text.length ∧
      Placed text (item.offset + item.length + 1) (items.drop (k + 1)) segs := by
  cases hdrop : items.drop k with
  | nil =>
      rw [hdrop] at h
      exact h.elim
  | cons item rest =>
      rw [hdrop] at h
      have hitem : items[k]? = some item := by
        rw [← List.head?_drop, hdrop, List.head?_cons]
      have hrest : items.drop (k + 1) = rest := by
        rw [← List.drop_drop, hdrop, List.drop_succ_cons, List.drop_zero]
      refine ⟨item, by rw [Wsj1.slot, hitem], h.1, h.2.1, h.2.2.1, h.2.2.2.1, ?_⟩
      rw [hrest]
      exact h.2.2.2.2

/-! ## Strings and objects -/

/-- The string that an item stands for. -/
def unquote (seg : Bytes) : Bytes :=
  if 1 < seg.length ∧ seg.head? = some quote then (seg.drop 1).take (seg.length - 2) else seg

theorem unquote_quoted (s : Bytes) : unquote (quote :: (s ++ [quote])) = s := by
  rw [unquote, if_pos (by simp)]
  simp

theorem unquote_subset {seg : Bytes} {c : UInt8} (h : c ∈ unquote seg) : c ∈ seg := by
  rw [unquote] at h
  split at h
  · exact List.mem_of_mem_drop (List.mem_of_mem_take h)
  · exact h

theorem parseString_covers {text seg : Bytes} {offset : Nat} (h : Covers text offset seg)
    (hin : offset + seg.length < text.length) :
    ∃ o, wsj1MsgParseString text offset seg.length =
        .ok (o, text.set (o + (unquote seg).length) 0) ∧ offset ≤ o ∧
      o + (unquote seg).length ≤ offset + seg.length ∧ Covers text o (unquote seg) := by
  have hplain : wsj1MsgParseExtract text offset seg.length =
      .ok (offset, text.set (offset + seg.length) 0) := by
    rw [wsj1MsgParseExtract, writeNul_ok hin]
    rfl
  by_cases hlong : 1 < seg.length
  · cases seg with
    | nil => simp at hlong
    | cons c rest =>
        by_cases hc : c = quote
        · -- the quotes are left out: the first byte, and the last one
          have hsize : ((rest.take (rest.length - 1)).length) = (c :: rest).length - 2 := by
            rw [List.length_take, List.length_cons]
            omega
          have hunquote : unquote (c :: rest) = rest.take (rest.length - 1) := by
            rw [unquote, if_pos ⟨hlong, by rw [hc]; rfl⟩]
            rfl
          rw [hunquote]
          refine ⟨offset + 1, ?_, by omega, ?_, ?_⟩
          · rw [wsj1MsgParseString, if_pos hlong, charAt_covers h, ok_bind_except, if_pos hc,
              wsj1MsgParseExtract, hsize, writeNul_ok]
            · rfl
            · rw [List.length_cons] at hlong hin ⊢
              omega
          · rw [hsize]
            rw [List.length_cons] at hlong ⊢
            omega
          · have htail : Covers text (offset + [c].length) rest := covers_right (s := [c]) h
            exact (List.take_prefix _ rest).trans htail
        · have hunquote : unquote (c :: rest) = c :: rest := by
            rw [unquote, if_neg]
            intro hboth
            exact hc (by simpa using hboth.2)
          rw [hunquote]
          refine ⟨offset, ?_, Nat.le_refl _, Nat.le_refl _, h⟩
          rw [wsj1MsgParseString, if_pos hlong, charAt_covers h, ok_bind_except, if_neg hc]
          exact hplain
  · have hunquote : unquote seg = seg := by
      rw [unquote, if_neg fun hboth => hlong hboth.1]
    rw [hunquote]
    refine ⟨offset, ?_, Nat.le_refl _, Nat.le_refl _, h⟩
    rw [wsj1MsgParseString, if_neg hlong]
    exact hplain

/-- A string of the message is in place in the buffer, before the given place. -/
structure InPlace (text : Bytes) (offset : Nat) (s : Bytes) (place : Nat) : Prop where
  covers : Covers text offset (s ++ [0])
  before : offset + s.length < place

theorem InPlace.kept {text text' s : Bytes} {offset place : Nat} (h : InPlace text offset s place)
    (hsame : SameBefore place text text') : InPlace text' offset s place :=
  ⟨hsame offset (s ++ [0]) (by rw [List.length_append]; exact h.before) h.covers, h.before⟩

theorem InPlace.mono {text s : Bytes} {offset place place' : Nat} (h : InPlace text offset s place)
    (hle : place ≤ place') : InPlace text offset s place' :=
  ⟨h.covers, Nat.lt_of_lt_of_le h.before hle⟩

theorem InPlace.read {text s : Bytes} {offset place : Nat} (h : InPlace text offset s place)
    (hnul : (0 : UInt8) ∉ s) : stringAt text offset = s :=
  stringAt_covers h.covers hnul

/-- The cut of the first of the items left as a string. -/
theorem itemString_placed {text : Bytes} {start k : Nat} {items : List Item} {seg : Bytes}
    {segs : List Bytes} (h : Placed text start (items.drop k) (seg :: segs)) :
    ∃ o text' place, itemString items k text = .ok (o, text') ∧ start ≤ o ∧
      InPlace text' o (unquote seg) place ∧ SameBefore start text text' ∧ start ≤ place ∧
      Placed text' place (items.drop (k + 1)) segs := by
  obtain ⟨item, hslot, hle, hlength, hcovers, hin, hrest⟩ := h.slot
  rw [hlength] at hin
  obtain ⟨o, hparse, ho, hend, hstring⟩ := parseString_covers hcovers hin
  refine ⟨o, _, item.offset + item.length + 1, ?_, by omega, ⟨covers_cut hstring (by omega), by omega⟩,
    sameBefore_set text (by omega), by omega, hrest.cut (by omega)⟩
  rw [itemString, hslot, ok_bind_except, hlength, hparse]

/-- The cut of the first of the items left as an object. -/
theorem itemObject_placed {text : Bytes} {start k : Nat} {items : List Item} {seg : Bytes}
    {segs : List Bytes} (h : Placed text start (items.drop k) (seg :: segs)) :
    ∃ o text' place, itemObject items k text = .ok (o, seg.length, text') ∧ start ≤ o ∧
      InPlace text' o seg place ∧ SameBefore start text text' ∧ start ≤ place ∧
      Placed text' place (items.drop (k + 1)) segs := by
  obtain ⟨item, hslot, hle, hlength, hcovers, hin, hrest⟩ := h.slot
  rw [hlength] at hin
  refine ⟨item.offset, _, item.offset + item.length + 1, ?_, hle, ⟨covers_cut hcovers hin, by omega⟩,
    sameBefore_set text (by omega), by omega, hrest.cut (by omega)⟩
  rw [itemObject, hslot, ok_bind_except, wsj1MsgParseExtract, hlength, writeNul_ok hin]
  rfl

/-! ## The verb -/

theorem strchr_append {front rest : Bytes} {c d : UInt8} (hnul : (0 : UInt8) ∉ front)
    (hc : c ∉ front) (hd : d = c ∨ d = 0) :
    strchr c (front ++ d :: rest) = .ok (if d = c then some front.length else none) := by
  induction front with
  | nil =>
      by_cases hdc : d = c
      · rw [List.nil_append, strchr, if_pos hdc, if_pos hdc]
        rfl
      · rw [List.nil_append, strchr, if_neg hdc, if_neg hdc, if_pos (hd.resolve_left hdc)]
  | cons b front ih =>
      rw [List.mem_cons, not_or] at hnul hc
      rw [List.cons_append, strchr, if_neg (Ne.symm hc.1), if_neg (Ne.symm hnul.1),
        ih hnul.2 hc.2]
      split
      · rfl
      · rfl

/-- Without a slash the message is refused. -/
theorem cutVerb_none {text s : Bytes} {api place : Nat} (h : InPlace text api s place)
    (hnul : (0 : UInt8) ∉ s) (hslash : slash ∉ s) : cutVerb api text = .error .bad := by
  obtain ⟨rest, hrest⟩ := h.covers
  rw [List.append_assoc, List.singleton_append] at hrest
  rw [cutVerb, ← hrest, strchr_append hnul hslash (.inr rfl)]
  rfl

/-- The slash is cut: the api and the verb are strings of their own. -/
theorem cutVerb_some {text s verb : Bytes} {api start place : Nat} {items : List Item}
    {segs : List Bytes} (h : InPlace text api (s ++ slash :: verb) place)
    (hnul : (0 : UInt8) ∉ s) (hslash : slash ∉ s) (hplaced : Placed text place items segs)
    (hstart : start ≤ api) :
    ∃ v text', cutVerb api text = .ok (v, text') ∧ InPlace text' api s place ∧
      InPlace text' v verb place ∧ SameBefore start text text' ∧ Placed text' place items segs := by
  have hbefore := h.before
  rw [List.length_append, List.length_cons] at hbefore
  have hcovers := h.covers
  rw [List.append_assoc] at hcovers
  obtain ⟨rest, hrest⟩ := hcovers
  have hlength := congrArg List.length hrest
  simp only [List.length_append, List.length_cons, List.length_drop] at hlength
  have hverb : Covers text (api + s.length + 1) (verb ++ [0]) := by
    have hafter : Covers text (api + s.length) ([slash] ++ (verb ++ [0])) :=
      covers_right (by simpa using h.covers)
    exact covers_right hafter
  refine ⟨api + s.length + 1, text.set (api + s.length) 0, ?_,
    ⟨covers_cut (covers_left (t := slash :: verb ++ [0]) ⟨rest, by simpa using hrest⟩) (by omega),
      by omega⟩,
    ⟨covers_set_left hverb (by omega), by omega⟩, sameBefore_set text (by omega),
    hplaced.cut (by omega)⟩
  rw [List.cons_append, List.append_assoc, List.cons_append] at hrest
  rw [cutVerb, ← hrest, strchr_append hnul hslash (.inl rfl), if_pos rfl]
  simp only [ok_bind_except]
  rw [writeNul_ok (by omega)]
  rfl

/-! ## Messages -/

/-- What the accessors read in a message. -/
structure Reads (msg : AfbWsj1Msg) (code : Code) (id api verb event : Option Bytes) (object : Bytes)
    (token : Option Bytes) : Prop where
  code : msg.code = code
  id : msg.idText = id
  api : afbWsj1MsgApi msg = api
  verb : afbWsj1MsgVerb msg = verb
  event : afbWsj1MsgEvent msg = event
  length : msg.objectSLength = object.length
  object : afbWsj1MsgObjectS msg = object
  token : afbWsj1MsgToken msg = token

theorem unquote_nulFree {seg : Bytes} (h : (0 : UInt8) ∉ seg) : (0 : UInt8) ∉ unquote seg :=
  fun hmem => h (unquote_subset hmem)

/-- The item after the object, as the token. -/
theorem itemToken_placed {text : Bytes} {start k : Nat} {items : List Item} {segs : List Bytes}
    (h : Placed text start (items.drop k) segs) (hfive : items.length = 5 ↔ segs ≠ []) :
    ∃ token text', itemToken items k text = .ok (token, text') ∧ SameBefore start text text' ∧
      ((∀ seg ∈ segs, (0 : UInt8) ∉ seg) →
        token.map (stringAt text') = segs.head?.map unquote) := by
  cases segs with
  | nil =>
      refine ⟨none, text, ?_, fun _ _ _ hcovers => hcovers, fun _ => rfl⟩
      rw [itemToken, if_neg fun hlength => hfive.mp hlength rfl]
  | cons seg segs =>
      obtain ⟨o, text', place, hstring, -, hinplace, hsame, -, -⟩ := itemString_placed h
      refine ⟨some o, text', ?_, hsame, fun hnul => ?_⟩
      · rw [itemToken, if_pos (hfive.mpr (by simp)), hstring]
        rfl
      · rw [Option.map_some, hinplace.read (unquote_nulFree (hnul seg (by simp)))]
        rfl

/-- The message of a call of four or five items. -/
theorem fillCall_placed {text : Bytes} {items : List Item} {code i a o : Bytes}
    {rest : List Bytes} (h : Placed text 0 items (code :: i :: a :: o :: rest))
    (hrest : rest.length ≤ 1) (hnul : ∀ seg ∈ code :: i :: a :: o :: rest, (0 : UInt8) ∉ seg) :
    (slash ∉ unquote a → fillCall items text = .error .bad) ∧
    ∀ api verb, unquote a = api ++ slash :: verb → slash ∉ api →
      ∃ msg, fillCall items text = .ok msg ∧
        Reads msg .call (some (unquote i)) (some api) (some verb) none o
          (rest.head?.map unquote) := by
  have hlength := h.length_eq
  simp only [List.length_cons] at hlength
  have hcount : ¬ (items.length ≠ 4 ∧ items.length ≠ 5) := by omega
  have hfirst : Placed text 0 (items.drop 0) (code :: i :: a :: o :: rest) := h
  obtain ⟨_, -, -, -, -, -, hone⟩ := hfirst.slot
  obtain ⟨oi, text1, place1, hid, hoi, hinid, -, hle1, htwo⟩ := itemString_placed hone
  obtain ⟨oa, text2, place2, hapi, hoa, hinapi, hsame2, hle2, hthree⟩ := itemString_placed htwo
  have hnulA : (0 : UInt8) ∉ unquote a := unquote_nulFree (hnul a (by simp))
  rw [fillCall, if_neg hcount, hid, ok_bind_except]
  simp only [hapi, ok_bind_except]
  refine ⟨fun hslash => ?_, fun api verb hsplit hslash => ?_⟩
  · rw [cutVerb_none hinapi hnulA hslash]
    rfl
  · rw [hsplit] at hinapi hnulA
    rw [List.mem_append, not_or, List.mem_cons, not_or] at hnulA
    obtain ⟨ov, text3, hverb, hinapi3, hinverb, hsame3, hplaced3⟩ :=
      cutVerb_some hinapi hnulA.1 hslash hthree hoa
    obtain ⟨oo, text4, place4, hobject, hoo, hinobject, hsame4, hle4, hfive⟩ :=
      itemObject_placed hplaced3
    obtain ⟨token, text5, htoken, hsame5, hread⟩ := itemToken_placed hfive (by
      cases rest with
      | nil => simp [hlength]
      | cons t rest =>
          have hnil : rest.length = 0 := by simpa using hrest
          simp [hlength, hnil])
    have hsame := hsame4.trans hsame5 hle4
    -- the cuts that follow leave each string
    have hid5 := ((hinid.kept hsame2).kept hsame3).kept (hsame.mono hle2)
    refine ⟨⟨text5, .call, oi, oa, ov, none, oo, o.length, token⟩, ?_, ?_⟩
    · simp only [hverb, ok_bind_except, hobject, htoken]
    · refine ⟨rfl, ?_, ?_, ?_, rfl, rfl, ?_, hread fun seg hseg => hnul seg (by simp [hseg])⟩
      · exact congrArg some (hid5.read (unquote_nulFree (hnul i (by simp))))
      · exact congrArg some ((hinapi3.kept hsame).read hnulA.1)
      · exact congrArg some ((hinverb.kept hsame).read hnulA.2.2)
      · exact (hinobject.kept hsame5).read (hnul o (by simp))

/-- The message of a reply of three or four items: its token is not read. -/
theorem fillReply_placed {κ : Type} {text : Bytes} {items : List Item} {code i o : Bytes}
    {rest : List Bytes} (c : Code) (calls : List (Wsj1Call κ))
    (h : Placed text 0 items (code :: i :: o :: rest)) (hrest : rest.length ≤ 1)
    (hnul : ∀ seg ∈ code :: i :: o :: rest, (0 : UInt8) ∉ seg) :
    (wsj1CallSearch calls (unquote i) = none → fillReply c calls items text = .error .bad) ∧
    ∀ call, wsj1CallSearch calls (unquote i) = some call →
      ∃ msg, fillReply c calls items text =
          .ok (msg, call, calls.eraseP fun call => call.id = unquote i) ∧
        Reads msg c (some (unquote i)) none none none o none := by
  have hlength := h.length_eq
  simp only [List.length_cons] at hlength
  have hcount : ¬ (items.length ≠ 3 ∧ items.length ≠ 4) := by omega
  have hfirst : Placed text 0 (items.drop 0) (code :: i :: o :: rest) := h
  obtain ⟨_, -, -, -, -, -, hone⟩ := hfirst.slot
  obtain ⟨oi, text1, place1, hid, -, hinid, -, -, htwo⟩ := itemString_placed hone
  obtain ⟨oo, text2, place2, hobject, -, hinobject, hsame2, -, -⟩ := itemObject_placed htwo
  have hnulI : (0 : UInt8) ∉ unquote i := unquote_nulFree (hnul i (by simp))
  have hnotoken : itemToken items 3 text2 = .ok (none, text2) := by
    rw [itemToken, if_neg (by omega)]
  rw [fillReply, if_neg hcount, hid, ok_bind_except]
  simp only [hinid.read hnulI, wsj1CallRemove]
  refine ⟨fun hnone => by rw [hnone], fun call hcall => ?_⟩
  refine ⟨⟨text2, c, oi, none, none, none, oo, o.length, none⟩, ?_, ?_⟩
  · simp only [hcall, hobject, ok_bind_except, hnotoken]
  · refine ⟨rfl, ?_, rfl, rfl, rfl, rfl, ?_, rfl⟩
    · exact congrArg some ((hinid.kept hsame2).read hnulI)
    · exact hinobject.read (hnul o (by simp))

/-- The message of an event. -/
theorem fillEvent_placed {text : Bytes} {items : List Item} {code i o : Bytes}
    (h : Placed text 0 items [code, i, o]) (hnul : ∀ seg ∈ [code, i, o], (0 : UInt8) ∉ seg) :
    ∃ msg, fillEvent items text = .ok msg ∧
      Reads msg .event none none none (some (unquote i)) o none := by
  have hcount : ¬ items.length ≠ 3 := by
    rw [h.length_eq]
    simp
  have hfirst : Placed text 0 (items.drop 0) [code, i, o] := h
  obtain ⟨_, -, -, -, -, -, hone⟩ := hfirst.slot
  obtain ⟨oi, text1, place1, hid, -, hinid, -, -, htwo⟩ := itemString_placed hone
  obtain ⟨oo, text2, place2, hobject, -, hinobject, hsame2, -, -⟩ := itemObject_placed htwo
  refine ⟨⟨text2, .event, none, none, none, oi, oo, o.length, none⟩, ?_, ?_⟩
  · rw [fillEvent, if_neg hcount, hid, ok_bind_except]
    simp only [hobject, ok_bind_except]
  · refine ⟨rfl, rfl, rfl, rfl, ?_, rfl, ?_, rfl⟩
    · exact congrArg some ((hinid.kept hsame2).read (unquote_nulFree (hnul i (by simp))))
    · exact hinobject.read (hnul o (by simp))

/-- The code that the first item stands for. -/
def segmentCode (seg : Bytes) : Option Code :=
  match seg with
  | [c] => codeOf c
  | _ => none

theorem scanCode_placed {text : Bytes} {items : List Item} {seg : Bytes} {segs : List Bytes}
    (h : Placed text 0 items (seg :: segs)) :
    scanCode items text =
      match segmentCode seg with
      | some code => .ok code
      | none => .error .bad := by
  have hfirst : Placed text 0 (items.drop 0) (seg :: segs) := h
  obtain ⟨item, hslot, -, hlength, hcovers, -, -⟩ := hfirst.slot
  rw [scanCode, hslot, ok_bind_except, hlength]
  match seg, hcovers with
  | [], _ => rfl
  | [c], hcovers =>
      rw [if_neg (by simp), charAt_covers hcovers, ok_bind_except, segmentCode]
      cases codeOf c with
      | none => rfl
      | some code => rfl
  | c :: d :: rest, _ =>
      rw [if_pos (by simp)]
      rfl

end AfbBinder.Wsj1
