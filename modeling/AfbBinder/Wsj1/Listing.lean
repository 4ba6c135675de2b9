import AfbBinder.Wsj1.Scan
import Mathlib.Data.List.Induction

/-!
# The texts that the scanner accepts

A listing is a text `[...]` of items separated by commas, with blanks around the items and
around the brackets.  `wsj1_msg_scan` accepts the listings of ten items at most and gives
the place of each item.  On a text ended by a NUL it never reads further.
-/

namespace AfbBinder.Wsj1

open Lib Lib.JsonText

/-! ## The format -/

def blanks (n : Nat) : Bytes := List.replicate n space

/-- An item without the blanks around it. -/
structure Segment (seg : Bytes) : Prop where
  balanced : Passes 0 seg 0
  trimmed : Trimmed seg

/-- The items between the blanks that follow the opening bracket and the closing bracket. -/
inductive Body : List Bytes → Bytes → Prop
  | last {seg : Bytes} {k : Nat} : Segment seg → (seg = [] → k = 0) → Body [seg] (seg ++ blanks k)
  | more {seg body : Bytes} {segs : List Bytes} {k j : Nat} :
      Segment seg → (seg = [] → k = 0) → Body segs body →
        Body (seg :: segs) (seg ++ (blanks k ++ comma :: (blanks j ++ body)))

def Listing (text : Bytes) (segs : List Bytes) : Prop :=
  ∃ lead gap trail body,
    text = blanks lead ++ openBracket :: (blanks gap ++ (body ++ closeBracket :: blanks trail)) ∧
      ((segs = [] ∧ body = []) ∨ (body ≠ [] ∧ Body segs body))

/-- The bytes stand in the text at the offset. -/
def Covers (text : Bytes) (offset : Nat) (s : Bytes) : Prop := s <+: text.drop offset

/-- The rows of `items` give the places of the segments, one after the other. -/
def Placed (text : Bytes) : Nat → List Item → List Bytes → Prop
  | _, [], [] => True
  | start, item :: items, seg :: segs =>
      start ≤ item.offset ∧ item.length = seg.length ∧ Covers text item.offset seg ∧
        item.offset + item.length < text.length ∧ Placed text (item.offset + item.length + 1) items segs
  | _, _, _ => False

/-! ## Blanks -/

theorem skipBlanks_blanks (n : Nat) {c : UInt8} (hc : c ≠ space) (rest : Bytes) :
    skipBlanks (blanks n ++ c :: rest) = .ok (c :: rest) := by
  induction n with
  | zero => simp [blanks, skipBlanks, hc]
  | succ n ih =>
      rw [blanks, List.replicate_succ, List.cons_append, skipBlanks, if_pos rfl]
      exact ih

theorem skipBlanks_ok {s t : Bytes} (h : skipBlanks s = .ok t) :
    ∃ n c rest, s = blanks n ++ c :: rest ∧ t = c :: rest ∧ c ≠ space := by
  induction s with
  | nil => cases h
  | cons c rest ih =>
      rw [skipBlanks] at h
      split at h
      case isTrue hc =>
        obtain ⟨n, d, tail, hs, ht, hd⟩ := ih h
        refine ⟨n + 1, d, tail, ?_, ht, hd⟩
        rw [hs, hc, blanks, blanks, List.replicate_succ, List.cons_append]
      case isFalse hc =>
        cases h
        exact ⟨0, c, rest, rfl, rfl, hc⟩

theorem blanks_passes (k n : Nat) : Passes n (blanks k) n :=
  White.passes (fun _ hc => .inl (List.eq_of_mem_replicate hc)) n

/-! ## Items -/

theorem scanItem_quoted {inside : Bytes} (h : Quoted inside) (n : Nat) (rest : Bytes) :
    scanItem .string n (inside ++ quote :: rest) = scanItem .item n rest := by
  induction h with
  | nil =>
      rw [List.nil_append, scanItem, if_neg (by decide), if_neg (by decide)]
      rfl
  | char hback hnul hquote _ ih =>
      rw [List.cons_append, scanItem, if_neg hback, if_neg hnul, if_neg hquote]
      exact ih
  | escape hnul _ ih =>
      rw [List.cons_append, List.cons_append, scanItem, if_pos rfl, scanItem, if_neg hnul]
      exact ih

/-- The scanner passes over balanced bytes. -/
theorem scanItem_passes {n m : Nat} {s : Bytes} (h : Passes n s m) (rest : Bytes) :
    scanItem .item n (s ++ rest) = scanItem .item m rest := by
  induction h with
  | nil => rfl
  | @opening n m c _ hc _ ih =>
      have hstop : ¬ (c = comma ∨ c = closeBracket) := by
        rcases hc with rfl | rfl
        · decide
        · decide
      rw [List.cons_append, scanItem, if_neg fun hboth => hstop hboth.2, if_pos hc]
      exact ih
  | @closing n m c _ hc _ ih =>
      have hopen : ¬ (c = openBrace ∨ c = openBracket) := by
        rcases hc with rfl | rfl
        · decide
        · decide
      rw [List.cons_append, scanItem, if_neg (by simp), if_neg hopen, if_pos hc, if_neg (by simp)]
      exact ih
  | @string n m inside _ hin _ ih =>
      have hstop : ¬ (n = 0 ∧ (quote = comma ∨ quote = closeBracket)) :=
        fun hboth => absurd hboth.2 (by decide)
      rw [List.cons_append, List.append_assoc, List.cons_append, scanItem, if_neg hstop,
        if_neg (by decide), if_neg (by decide), if_neg (by decide), if_pos rfl, scanItem_quoted hin]
      exact ih
  | @other n m c _ hc hcomma _ ih =>
      obtain ⟨h1, h2, h3, h4, h5, h6⟩ := hc
      have hstop : ¬ (n = 0 ∧ (c = comma ∨ c = closeBracket)) :=
        fun hboth => hboth.2.elim (hcomma hboth.1) h4
      rw [List.cons_append, scanItem, if_neg hstop, if_neg (by simp [h1, h2]),
        if_neg (by simp [h3, h4]), if_neg h5, if_neg h6]
      exact ih

theorem scanItem_segment {seg : Bytes} (h : Segment seg) (k : Nat) {c : UInt8}
    (hc : c = comma ∨ c = closeBracket) (rest : Bytes) :
    scanItem .item 0 (seg ++ (blanks k ++ c :: rest)) = .ok (c :: rest) := by
  rw [scanItem_passes h.balanced, scanItem_passes (blanks_passes k 0), scanItem, if_pos ⟨rfl, hc⟩]

/-- The bytes from a place in an item up to where the scanner stops, at the depth `n`. -/
def Remainder (n : Nat) : Reading → Bytes → Prop
  | .item, s => Passes n s 0
  | .string, s => ∃ inside front, s = inside ++ quote :: front ∧ Quoted inside ∧ Passes n front 0
  | .escaped, s => ∃ d inside front, s = d :: (inside ++ quote :: front) ∧ d ≠ 0 ∧
      Quoted inside ∧ Passes n front 0

/-- What the scanner has passed over when it stops. -/
theorem scanItem_ok {reading : Reading} {n : Nat} {s t : Bytes}
    (h : scanItem reading n s = .ok t) :
    (∃ c rest, t = c :: rest ∧ (c = comma ∨ c = closeBracket)) ∧
      ∃ front, s = front ++ t ∧ Remainder n reading front := by
  fun_induction scanItem reading n s with
  | case1 => cases h
  | case2 => cases h
  | case3 aux d rest hnul ih =>
      obtain ⟨hstop, front, rfl, inside, after, rfl, hin, hafter⟩ := ih h
      exact ⟨hstop, d :: _, rfl, d, inside, after, rfl, hnul, hin, hafter⟩
  | case4 aux rest ih =>
      obtain ⟨hstop, front, rfl, d, inside, after, rfl, hnul, hin, hafter⟩ := ih h
      exact ⟨hstop, backslash :: _, rfl, backslash :: d :: inside, after, rfl, .escape hnul hin,
        hafter⟩
  | case5 => cases h
  | case6 aux c rest hback hnul ih =>
      obtain ⟨hstop, front, rfl, hfront⟩ := ih h
      refine ⟨hstop, c :: front, rfl, ?_⟩
      by_cases hquote : c = quote
      · rw [if_pos hquote] at hfront
        exact ⟨[], front, by rw [hquote]; rfl, .nil, hfront⟩
      · rw [if_neg hquote] at hfront
        obtain ⟨inside, after, rfl, hin, hafter⟩ := hfront
        exact ⟨c :: inside, after, rfl, .char hback hnul hquote hin, hafter⟩
  | case7 aux c rest hend =>
      cases h
      refine ⟨⟨c, rest, rfl, hend.2⟩, [], rfl, ?_⟩
      rw [hend.1]
      exact Passes.nil
  | case8 aux c rest hend hopen ih =>
      obtain ⟨hstop, front, rfl, hfront⟩ := ih h
      exact ⟨hstop, c :: front, rfl, Passes.opening hopen hfront⟩
  | case9 => cases h
  | case10 aux c rest hend hopen hclose haux ih =>
      obtain ⟨hstop, front, rfl, hfront⟩ := ih h
      refine ⟨hstop, c :: front, rfl, ?_⟩
      obtain ⟨n, rfl⟩ := Nat.exists_eq_succ_of_ne_zero haux
      exact Passes.closing hclose hfront
  | case11 => cases h
  | case12 aux c rest hend hopen hclose hnul ih =>
      obtain ⟨hstop, front, rfl, hfront⟩ := ih h
      refine ⟨hstop, c :: front, rfl, ?_⟩
      rw [not_or] at hopen hclose
      by_cases hquote : c = quote
      · rw [if_pos hquote] at hfront
        obtain ⟨inside, after, rfl, hin, hafter⟩ := hfront
        rw [hquote]
        exact Passes.string hin hafter
      · rw [if_neg hquote] at hfront
        refine Passes.other ⟨hopen.1, hopen.2, hclose.1, hclose.2, hnul, hquote⟩ ?_ hfront
        intro haux hcomma
        exact hend ⟨haux, .inl hcomma⟩

/-! ## Blanks at the end of an item -/

theorem trimEnd_blanks {seg : Bytes} (h : seg.getLast? ≠ some space) (k : Nat) (rest : Bytes)
    {j : Nat} (hj : j ≤ k) :
    trimEnd (seg ++ (blanks k ++ rest)) (seg.length + j) = .ok seg.length := by
  induction j with
  | zero =>
      rcases List.eq_nil_or_concat seg with rfl | ⟨front, c, rfl⟩
      · rfl
      · rw [List.concat_eq_append] at h ⊢
        have hc : c ≠ space := by simpa using h
        have hat : (front ++ [c] ++ (blanks k ++ rest))[front.length]? = some c := by simp
        simp only [List.length_append, List.length_singleton, Nat.add_zero, trimEnd, hat,
          if_neg hc]
  | succ j ih =>
      have hat : (seg ++ (blanks k ++ rest))[seg.length + j]? = some space := by
        rw [List.getElem?_append_right (by omega), Nat.add_sub_cancel_left,
          List.getElem?_append_left (by simp only [blanks, List.length_replicate]; omega), blanks,
          List.getElem?_replicate, if_pos (by omega)]
      show trimEnd _ (seg.length + j + 1) = _
      simp only [trimEnd, hat, if_true]
      exact ih (by omega)

theorem passes_of_blank {n m : Nat} {s : Bytes} (h : Passes n (s ++ [space]) m) : Passes n s m := by
  generalize ht : s ++ [space] = t at h
  induction h generalizing s with
  | nil => simp at ht
  | @opening n m c rest hc hrest ih =>
      cases s with
      | nil =>
          cases ht
          exact absurd hc (by decide)
      | cons d s =>
          obtain ⟨rfl, rfl⟩ := List.cons_eq_cons.mp ht
          exact .opening hc (ih rfl)
  | @closing n m c rest hc hrest ih =>
      cases s with
      | nil =>
          cases ht
          exact absurd hc (by decide)
      | cons d s =>
          obtain ⟨rfl, rfl⟩ := List.cons_eq_cons.mp ht
          exact .closing hc (ih rfl)
  | @string n m inside rest hin hrest ih =>
      rcases List.eq_nil_or_concat rest with rfl | ⟨front, c, rfl⟩
      · rw [← List.cons_append] at ht
        have hlast := (List.append_inj' ht rfl).2
        exact absurd hlast (by decide)
      · rw [List.concat_eq_append, ← List.cons_append, ← List.cons_append, ← List.append_assoc] at ht
        obtain ⟨rfl, hc⟩ := List.append_inj' ht rfl
        cases hc
        exact .string hin (ih List.concat_eq_append.symm)
  | @other n m c rest hc hcomma hrest ih =>
      cases s with
      | nil =>
          cases ht
          cases hrest
          exact .nil
      | cons d s =>
          obtain ⟨rfl, rfl⟩ := List.cons_eq_cons.mp ht
          exact .other hc hcomma (ih rfl)

theorem split_blanks (s : Bytes) :
    ∃ seg k, s = seg ++ blanks k ∧ seg.getLast? ≠ some space ∧
      ∀ n m, Passes n s m → Passes n seg m := by
  induction s using List.reverseRecOn with
  | nil => exact ⟨[], 0, rfl, by simp, fun _ _ h => h⟩
  | append_singleton s c ih =>
      by_cases hc : c = space
      · obtain ⟨seg, k, rfl, hlast, hpasses⟩ := ih
        refine ⟨seg, k + 1, ?_, hlast, fun n m h => ?_⟩
        · rw [hc, blanks, blanks, List.replicate_succ', List.append_assoc]
        · rw [hc] at h
          exact hpasses n m (passes_of_blank h)
      · exact ⟨s ++ [c], 0, by simp [blanks], by simpa using hc, fun _ _ h => h⟩

/-! ## The list -/

theorem Placed.mono {text : Bytes} {start start' : Nat} {items : List Item} {segs : List Bytes}
    (hle : start' ≤ start) (h : Placed text start items segs) : Placed text start' items segs := by
  cases items with
  | nil =>
      cases segs with
      | nil => trivial
      | cons seg segs => exact h
  | cons item items =>
      cases segs with
      | nil => exact h
      | cons seg segs => exact ⟨Nat.le_trans hle h.1, h.2⟩

theorem covers_append (front s rest : Bytes) : Covers (front ++ (s ++ rest)) front.length s := by
  rw [Covers, List.drop_left]
  exact List.prefix_append s rest

/-- One item of the list: where it is, and where the scanner goes on. -/
theorem scanItem_length {seg : Bytes} (h : Segment seg) (k : Nat) {c : UInt8}
    (hc : c = comma ∨ c = closeBracket) (rest : Bytes) :
    scanItem .item 0 (seg ++ (blanks k ++ c :: rest)) = .ok (c :: rest) ∧
      trimEnd (seg ++ (blanks k ++ c :: rest))
        ((seg ++ (blanks k ++ c :: rest)).length - (c :: rest).length) = .ok seg.length := by
  have hlength : (seg ++ (blanks k ++ c :: rest)).length - (c :: rest).length = seg.length + k := by
    simp only [List.length_append, blanks, List.length_replicate]
    omega
  rw [hlength]
  exact ⟨scanItem_segment h k hc rest, trimEnd_blanks h.trimmed.2 k _ (Nat.le_refl k)⟩

theorem Segment.head {seg : Bytes} (h : Segment seg) (hne : seg ≠ []) (rest : Bytes) :
    ∃ c tail, seg ++ rest = c :: tail ∧ c ≠ space ∧ c ≠ closeBracket := by
  cases seg with
  | nil => exact absurd rfl hne
  | cons c tail =>
      refine ⟨c, tail ++ rest, rfl, by simpa using h.trimmed.1, fun hc => ?_⟩
      cases h.balanced with
      | opening hopen =>
          rw [hc] at hopen
          exact absurd hopen (by decide)
      | string => exact absurd hc (by decide)
      | other hplain => exact hplain.2.2.2.1 hc

/-- The body of a list does not start with a blank, nor with a closing bracket unless it is
empty. -/
theorem Body.head {segs : List Bytes} {body : Bytes} (h : Body segs body) (rest : Bytes) :
    ∃ c tail, body ++ closeBracket :: rest = c :: tail ∧ c ≠ space ∧
      (body ≠ [] → c ≠ closeBracket) := by
  cases h with
  | @last seg k hseg hk =>
      rw [List.append_assoc]
      by_cases hne : seg = []
      · rw [hne, hk hne]
        exact ⟨closeBracket, rest, rfl, by decide, fun h => absurd rfl h⟩
      · obtain ⟨c, tail, hhead, hc, hclose⟩ := hseg.head hne (blanks k ++ closeBracket :: rest)
        exact ⟨c, tail, hhead, hc, fun _ => hclose⟩
  | @more seg body segs k j hseg hk hbody =>
      rw [List.append_assoc]
      by_cases hne : seg = []
      · rw [hne, hk hne]
        exact ⟨comma, _, rfl, by decide, fun _ => by decide⟩
      · obtain ⟨c, tail, hhead, hc, hclose⟩ := hseg.head hne _
        exact ⟨c, tail, hhead, hc, fun _ => hclose⟩

/-- The scanner accepts a body that has room, and gives the places of its items. -/
theorem scanItems_body {segs : List Bytes} {body : Bytes} (h : Body segs body) {room : Nat}
    (hroom : segs.length ≤ room) {text front rest : Bytes} (items : List Item)
    (htext : text = front ++ (body ++ closeBracket :: rest)) :
    ∃ found, scanItems text room (body ++ closeBracket :: rest) items =
        .ok (items ++ found, closeBracket :: rest) ∧ Placed text front.length found segs := by
  induction h generalizing room front items with
  | @last seg k hseg hk =>
      rw [List.append_assoc] at htext ⊢
      obtain ⟨room, rfl⟩ := Nat.exists_eq_succ_of_ne_zero (Nat.ne_of_gt hroom)
      have hoffset : text.length - (seg ++ (blanks k ++ closeBracket :: rest)).length =
          front.length := by
        rw [htext, List.length_append]
        omega
      obtain ⟨hscan, htrim⟩ := scanItem_length hseg k (.inr rfl) rest
      refine ⟨[⟨front.length, seg.length⟩], ?_, Nat.le_refl _, rfl, ?_, ?_, trivial⟩
      · simp only [scanItems, hscan, htrim, hoffset, deref, if_true, bind, Except.bind]
      · rw [htext]
        exact covers_append front seg _
      · rw [htext]
        simp only [List.length_append, List.length_cons]
        omega
  | @more seg body segs k j hseg hk hbody ih =>
      rw [List.append_assoc, List.append_assoc, List.cons_append, List.append_assoc] at htext ⊢
      obtain ⟨room, rfl⟩ := Nat.exists_eq_succ_of_ne_zero (Nat.ne_of_gt (Nat.lt_of_lt_of_le
        (Nat.succ_pos _) hroom))
      have hoffset : text.length -
          (seg ++ (blanks k ++ comma :: (blanks j ++ (body ++ closeBracket :: rest)))).length =
          front.length := by
        rw [htext, List.length_append]
        omega
      obtain ⟨hscan, htrim⟩ :=
        scanItem_length hseg k (.inl rfl) (blanks j ++ (body ++ closeBracket :: rest))
      obtain ⟨c, tail, hhead, hc, -⟩ := hbody.head rest
      have hskip : skipBlanks (blanks j ++ (body ++ closeBracket :: rest)) =
          .ok (body ++ closeBracket :: rest) := by
        rw [hhead]
        exact skipBlanks_blanks j hc tail
      have hnext : text = (front ++ (seg ++ (blanks k ++ comma :: blanks j))) ++
          (body ++ closeBracket :: rest) := by
        rw [htext]
        simp
      obtain ⟨found, hrest, hplaced⟩ := ih (Nat.le_of_succ_le_succ hroom)
        (items ++ [⟨front.length, seg.length⟩]) hnext
      refine ⟨⟨front.length, seg.length⟩ :: found, ?_, Nat.le_refl _, rfl, ?_, ?_, ?_⟩
      · simp only [scanItems, hscan, htrim, hoffset, deref, bind, Except.bind,
          if_neg (show comma ≠ closeBracket by decide), List.tail_cons, hskip]
        rw [hrest, List.append_assoc]
        rfl
      · rw [htext]
        exact covers_append front seg _
      · rw [htext]
        simp only [List.length_append, List.length_cons]
        omega
      · apply hplaced.mono
        simp only [List.length_append, List.length_cons]
        omega

/-! ## The text -/

/-- The scanner accepts a listing of ten items at most, and gives their places. -/
theorem wsj1MsgScan_listing {text : Bytes} {segs : List Bytes} (h : Listing text segs)
    (hten : segs.length ≤ 10) :
    ∃ items, wsj1MsgScan (text ++ [0]) = .ok items ∧ Placed (text ++ [0]) 0 items segs := by
  obtain ⟨lead, gap, trail, body, rfl, hsegs⟩ := h
  have hend : skipBlanks (blanks trail ++ [0]) = .ok [0] := skipBlanks_blanks trail (by decide) []
  have hsplit : blanks lead ++ openBracket :: (blanks gap ++ (body ++ closeBracket :: blanks trail)) ++
      [0] = blanks lead ++ openBracket ::
        (blanks gap ++ (body ++ closeBracket :: (blanks trail ++ [0]))) := by simp
  generalize htext : blanks lead ++ openBracket ::
    (blanks gap ++ (body ++ closeBracket :: blanks trail)) ++ [0] = text at hsplit ⊢
  have hstart : skipBlanks text = .ok (openBracket ::
      (blanks gap ++ (body ++ closeBracket :: (blanks trail ++ [0])))) := by
    rw [hsplit]
    exact skipBlanks_blanks lead (by decide) _
  have hlist : ∃ items, scanList text (blanks gap ++ (body ++ closeBracket :: (blanks trail ++ [0]))) =
      .ok (items, closeBracket :: (blanks trail ++ [0])) ∧ Placed text 0 items segs := by
    rcases hsegs with ⟨rfl, rfl⟩ | ⟨hne, hbody⟩
    · refine ⟨[], ?_, trivial⟩
      have hskip := skipBlanks_blanks gap (show closeBracket ≠ space by decide) (blanks trail ++ [0])
      simp only [scanList, List.nil_append, hskip, deref, if_true, bind, Except.bind]
    · obtain ⟨c, tail, hhead, hc, hclose⟩ := hbody.head (blanks trail ++ [0])
      have hfront : text = (blanks lead ++ openBracket :: blanks gap) ++
          (body ++ closeBracket :: (blanks trail ++ [0])) := by
        rw [hsplit]
        simp
      obtain ⟨items, hscan, hplaced⟩ := scanItems_body hbody hten [] hfront
      refine ⟨items, ?_, hplaced.mono (Nat.zero_le _)⟩
      rw [hhead] at hscan ⊢
      simp only [scanList, skipBlanks_blanks gap hc tail, deref, if_neg (hclose hne), bind,
        Except.bind]
      exact hscan
  obtain ⟨items, hscan, hplaced⟩ := hlist
  refine ⟨items, ?_, hplaced⟩
  simp only [wsj1MsgScan, hstart, deref, List.tail_cons, hscan, hend, bind, Except.bind, ne_eq,
    not_true_eq_false, if_false]

/-! ## Texts without blanks -/

/-- The items with their commas. -/
def joined : List Bytes → Bytes
  | [] => []
  | [seg] => seg
  | seg :: next :: segs => seg ++ comma :: joined (next :: segs)

theorem body_joined {segs : List Bytes} (h : ∀ seg ∈ segs, Segment seg) (hne : segs ≠ []) :
    Body segs (joined segs) := by
  induction segs with
  | nil => exact absurd rfl hne
  | cons seg segs ih =>
      have hseg : Segment seg := h seg (by simp)
      cases segs with
      | nil =>
          have hbody : Body [seg] (seg ++ blanks 0) := .last hseg fun _ => rfl
          simpa [blanks, joined] using hbody
      | cons next segs =>
          have hrest : Body (next :: segs) (joined (next :: segs)) :=
            ih (fun other hother => h other (List.mem_cons_of_mem seg hother)) (by simp)
          have hbody : Body (seg :: next :: segs)
              (seg ++ (blanks 0 ++ comma :: (blanks 0 ++ joined (next :: segs)))) :=
            .more hseg (fun _ => rfl) hrest
          simpa [blanks, joined] using hbody

theorem listing_joined {segs : List Bytes} (h : ∀ seg ∈ segs, Segment seg)
    (hne : joined segs ≠ []) : Listing (openBracket :: (joined segs ++ [closeBracket])) segs := by
  refine ⟨0, 0, 0, joined segs, rfl, .inr ⟨hne, body_joined h fun hnil => ?_⟩⟩
  rw [hnil] at hne
  exact hne rfl

theorem Segment.quoted {s : Bytes} (h : Quoted s) : Segment (quote :: (s ++ [quote])) :=
  ⟨.string h .nil, .enclosed s (by decide) (by decide)⟩

theorem Segment.value {s : Bytes} (h : Derives .value s) : Segment s :=
  ⟨h.passes 0 nofun, h.trimmed⟩

/-! ## What an accepted text is -/

/-- The item before the place where the scanner stops. -/
theorem segment_of_passes {front : Bytes} (h : Passes 0 front 0) (hhead : front.head? ≠ some space) :
    ∃ seg k, front = seg ++ blanks k ∧ Segment seg ∧ (seg = [] → k = 0) := by
  obtain ⟨seg, k, rfl, hlast, hpasses⟩ := split_blanks front
  refine ⟨seg, k, rfl, ⟨hpasses 0 0 h, fun hseg => ?_, hlast⟩, fun hnil => ?_⟩
  · exact hhead (by rw [List.head?_append, hseg, Option.some_or])
  · cases k with
    | zero => rfl
    | succ k =>
        rw [hnil] at hhead
        exact absurd rfl hhead

theorem scanItems_ok {text : Bytes} {room : Nat} {beg pos : Bytes} {items found : List Item}
    (h : scanItems text room beg items = .ok (found, pos)) (hbeg : beg.head? ≠ some space) :
    ∃ segs body rest, beg = body ++ closeBracket :: rest ∧ pos = closeBracket :: rest ∧
      Body segs body ∧ segs.length ≤ room := by
  induction room generalizing beg items with
  | zero => cases h
  | succ room ih =>
      rw [scanItems] at h
      obtain ⟨stop, hscan, h⟩ := bind_ok.mp h
      obtain ⟨length, -, h⟩ := bind_ok.mp h
      obtain ⟨c, hderef, h⟩ := bind_ok.mp h
      obtain ⟨⟨d, rest, rfl, hd⟩, front, rfl, hfront⟩ := scanItem_ok hscan
      cases hderef
      have hhead : front.head? ≠ some space :=
        fun hspace => hbeg (by rw [List.head?_append, hspace, Option.some_or])
      obtain ⟨seg, k, rfl, hseg, hk⟩ := segment_of_passes hfront hhead
      split at h
      case isTrue hclose =>
        cases h
        rw [hclose]
        exact ⟨[seg], seg ++ blanks k, rest, rfl, rfl, .last hseg hk, by simp⟩
      case isFalse hclose =>
        have hcomma : c = comma := hd.resolve_right hclose
        obtain ⟨next, hskip, h⟩ := bind_ok.mp h
        obtain ⟨j, e, tail, hrest, rfl, he⟩ := skipBlanks_ok hskip
        rw [List.tail_cons] at hrest
        obtain ⟨segs, body, rest', hnext, hpos, hbody, hroom⟩ := ih h (by simpa using he)
        refine ⟨seg :: segs, seg ++ (blanks k ++ comma :: (blanks j ++ body)), rest', ?_, hpos,
          .more hseg hk hbody, by simpa using hroom⟩
        rw [hcomma, hrest, hnext]
        simp

theorem scanList_ok {text pos close : Bytes} {items : List Item}
    (h : scanList text pos = .ok (items, close)) :
    ∃ gap body rest segs, pos = blanks gap ++ (body ++ closeBracket :: rest) ∧
      close = closeBracket :: rest ∧ segs.length ≤ 10 ∧
      ((segs = [] ∧ body = []) ∨ (body ≠ [] ∧ Body segs body)) := by
  rw [scanList] at h
  obtain ⟨beg, hbeg, h⟩ := bind_ok.mp h
  obtain ⟨gap, c, tail, rfl, rfl, hc⟩ := skipBlanks_ok hbeg
  simp only [deref, ok_bind_except] at h
  split at h
  case isTrue hclose =>
    cases h
    rw [hclose]
    exact ⟨gap, [], tail, [], rfl, rfl, by simp, .inl ⟨rfl, rfl⟩⟩
  case isFalse hitem =>
    obtain ⟨segs, body, rest, hbody, rfl, hsegs, hten⟩ := scanItems_ok h (by simpa using hc)
    refine ⟨gap, body, rest, segs, by rw [hbody], rfl, hten, .inr ⟨fun hnil => ?_, hsegs⟩⟩
    rw [hnil] at hbody
    exact hitem (List.cons_eq_cons.mp hbody).1

/-- Every text that the scanner accepts is a listing of ten items at most. -/
theorem listing_of_scan {text : Bytes} {items : List Item} (hnul : (0 : UInt8) ∉ text)
    (h : wsj1MsgScan (text ++ [0]) = .ok items) :
    ∃ segs, Listing text segs ∧ segs.length ≤ 10 := by
  rw [wsj1MsgScan] at h
  obtain ⟨start, hstart, h⟩ := bind_ok.mp h
  obtain ⟨lead, c, tail, htext, rfl, -⟩ := skipBlanks_ok hstart
  simp only [deref, ok_bind_except, List.tail_cons] at h
  split at h
  case isTrue => cases h
  case isFalse hopen =>
    rw [ne_eq, not_not] at hopen
    obtain ⟨⟨filled, close⟩, hlist, h⟩ := bind_ok.mp h
    obtain ⟨gap, body, rest, segs, rfl, rfl, hten, hsegs⟩ := scanList_ok hlist
    obtain ⟨last, hlast, h⟩ := bind_ok.mp h
    obtain ⟨trail, e, after, hrest, rfl, -⟩ := skipBlanks_ok hlast
    simp only [ok_bind_except] at h
    split at h
    case isTrue => cases h
    case isFalse hend =>
      rw [ne_eq, not_not] at hend
      rw [List.tail_cons] at hrest
      -- after the closing bracket there are blanks and the NUL of the text
      have hbytes : text ++ [0] = (blanks lead ++ openBracket ::
          (blanks gap ++ (body ++ closeBracket :: blanks trail))) ++ 0 :: after := by
        rw [htext, hopen, hrest, hend]
        simp
      exact ⟨segs, ⟨lead, gap, trail, body, (nul_split hnul hbytes).1, hsegs⟩, hten⟩

/-! ## No fault -/

def Safe {α : Type} (x : Except Stop α) : Prop := ∀ f, x ≠ .error (.fault f)

theorem Safe.ok {α : Type} (a : α) : Safe (.ok a : Except Stop α) := fun _ h => nomatch h

theorem Safe.bad {α : Type} : Safe (.error .bad : Except Stop α) := fun _ h => nomatch h

theorem Safe.bind {α β : Type} {x : Except Stop α} {f : α → Except Stop β} (hx : Safe x)
    (hf : ∀ a, x = .ok a → Safe (f a)) : Safe (x >>= f) := by
  cases x with
  | error stop =>
      cases stop with
      | bad => exact .bad
      | fault f => exact absurd rfl (hx f)
  | ok a => exact hf a rfl

/-- A pointer that is not after the NUL. -/
def Terminated (pos : Bytes) : Prop := pos.getLast? = some 0

theorem Terminated.tail {c : UInt8} {rest : Bytes} (h : Terminated (c :: rest)) (hc : c ≠ 0) :
    Terminated rest := by
  cases rest with
  | nil => exact absurd (by simpa [Terminated] using h) hc
  | cons d rest => simpa [Terminated] using h

theorem Terminated.suffix {front rest : Bytes} {c : UInt8} (h : Terminated (front ++ c :: rest)) :
    Terminated (c :: rest) := by
  rw [Terminated, List.getLast?_append] at h
  rw [Terminated]
  rw [List.getLast?_cons] at h ⊢
  simpa using h

theorem skipBlanks_safe {s : Bytes} (h : Terminated s) : Safe (skipBlanks s) := by
  induction s with
  | nil => cases h
  | cons c rest ih =>
      rw [skipBlanks]
      split
      case isTrue hc => exact ih (h.tail (by rw [hc]; decide))
      case isFalse => exact .ok _

theorem scanItem_safe {reading : Reading} {n : Nat} {s : Bytes} (h : Terminated s) :
    Safe (scanItem reading n s) := by
  fun_induction scanItem reading n s with
  | case1 => cases h
  | case2 => exact .bad
  | case3 aux c rest hnul ih => exact ih (h.tail hnul)
  | case4 aux rest ih => exact ih (h.tail (by decide))
  | case5 => exact .bad
  | case6 aux c rest hback hnul ih => exact ih (h.tail hnul)
  | case7 => exact .ok _
  | case8 aux c rest hend hopen ih =>
      apply ih (h.tail _)
      rcases hopen with rfl | rfl
      · decide
      · decide
  | case9 => exact .bad
  | case10 aux c rest hend hopen hclose haux ih =>
      apply ih (h.tail _)
      rcases hclose with rfl | rfl
      · decide
      · decide
  | case11 => exact .bad
  | case12 aux c rest hend hopen hclose hnul ih => exact ih (h.tail hnul)

theorem trimEnd_safe {beg : Bytes} {n : Nat} (h : n ≤ beg.length) : Safe (trimEnd beg n) := by
  induction n with
  | zero => exact .ok _
  | succ n ih =>
      rw [trimEnd, List.getElem?_eq_getElem h]
      simp only
      split
      · exact ih (by omega)
      · exact .ok _

theorem scanItems_safe (text : Bytes) {room : Nat} {beg : Bytes} (items : List Item)
    (h : Terminated beg) : Safe (scanItems text room beg items) := by
  induction room generalizing beg items with
  | zero => exact .bad
  | succ room ih =>
      rw [scanItems]
      apply (scanItem_safe h).bind
      intro pos hscan
      obtain ⟨⟨c, rest, rfl, hc⟩, front, rfl, -⟩ := scanItem_ok hscan
      apply (trimEnd_safe (Nat.sub_le _ _)).bind
      intro length _
      simp only [deref, ok_bind_except, List.tail_cons]
      have hnul : c ≠ 0 := by
        rcases hc with rfl | rfl
        · decide
        · decide
      split
      · exact .ok _
      · apply (skipBlanks_safe (h.suffix.tail hnul)).bind
        intro next hskip
        obtain ⟨j, d, tail, rfl, rfl, -⟩ := skipBlanks_ok hskip
        exact ih _ (h.suffix.tail hnul).suffix

/-- The scanner does not read after the NUL. -/
theorem wsj1MsgScan_safe (text : Bytes) : Safe (wsj1MsgScan (text ++ [0])) := by
  have hterminated : Terminated (text ++ [0]) := by simp [Terminated]
  rw [wsj1MsgScan]
  apply (skipBlanks_safe hterminated).bind
  intro start hstart
  obtain ⟨lead, c, tail, htext, rfl, -⟩ := skipBlanks_ok hstart
  rw [htext] at hterminated
  simp only [deref, ok_bind_except, List.tail_cons]
  split
  case isTrue => exact .bad
  case isFalse hopen =>
    rw [ne_eq, not_not] at hopen
    have htail : Terminated tail := hterminated.suffix.tail (by rw [hopen]; decide)
    have hlist : Safe (scanList (text ++ [0]) tail) := by
      rw [scanList]
      apply (skipBlanks_safe htail).bind
      intro beg hbeg
      obtain ⟨gap, d, rest, rfl, rfl, -⟩ := skipBlanks_ok hbeg
      simp only [deref, ok_bind_except]
      split
      · exact .ok _
      · exact scanItems_safe _ _ htail.suffix
    apply hlist.bind
    rintro ⟨items, close⟩ hscan
    obtain ⟨gap, body, rest, segs, rfl, rfl, -, -⟩ := scanList_ok hscan
    rw [← List.append_assoc] at htail
    have hrest : Terminated (closeBracket :: rest) := htail.suffix
    apply (skipBlanks_safe (hrest.tail (by decide))).bind
    intro last hlast
    obtain ⟨trail, e, tail', -, rfl, -⟩ := skipBlanks_ok hlast
    simp only [ok_bind_except]
    split
    · exact .bad
    · exact .ok _

end AfbBinder.Wsj1
