import Mathlib.Data.List.DropRight
import AfbBinder.Wsj1.Listing

/-!
# The grammar of the messages

What `wsj1_msg_scan` accepts, and the rows it fills: the items of the list as they stand
between the commas, whatever is in them, without the blanks at their end.
-/

namespace AfbBinder.Wsj1

open Lib Lib.JsonText

/-! ## The grammar -/

/-- An item of the list, with the blanks that follow it. -/
structure Element (item : Bytes) : Prop where
  head : item.head? ≠ some space
  balanced : Passes 0 item 0

/-- The item without the blanks that follow it. -/
def trimmed (item : Bytes) : Bytes := item.rdropWhile (· = space)

/-- The items of a list that starts at an offset, and their rows. -/
inductive Rows : Nat → Bytes → List Item → Prop
  | last {start : Nat} {item : Bytes} :
      Element item → Rows start item [⟨start, (trimmed item).length⟩]
  | more {start k : Nat} {item body : Bytes} {rows : List Item} :
      Element item → Rows (start + item.length + 1 + k) body rows →
        Rows start (item ++ comma :: (blanks k ++ body)) (⟨start, (trimmed item).length⟩ :: rows)

/-- The text of a list, and its rows.  An item that is alone is not empty. -/
def Accepted (text : Bytes) (rows : List Item) : Prop :=
  ∃ lead gap trail body,
    text = blanks lead ++ openBracket :: (blanks gap ++ (body ++ closeBracket :: blanks trail)) ∧
      ((rows = [] ∧ body = []) ∨
        (body ≠ [] ∧ rows.length ≤ 10 ∧ Rows (lead + 1 + gap) body rows))

/-! ## An item -/

/-- The loop over an item stops at the end of the item. -/
theorem scanItem_element {item : Bytes} (h : Element item) {c : UInt8}
    (hc : c = comma ∨ c = closeBracket) (rest : Bytes) :
    scanItem .item 0 (item ++ c :: rest) = .ok (c :: rest) := by
  rw [scanItem_passes h.balanced, scanItem, if_pos ⟨rfl, hc⟩]

theorem trimEnd_trimmed (item rest : Bytes) :
    trimEnd (item ++ rest) item.length = .ok (trimmed item).length := by
  induction item using List.reverseRecOn generalizing rest with
  | nil => rfl
  | append_singleton item c ih =>
      have hlast : (item ++ [c] ++ rest)[item.length]? = some c := by simp
      rw [List.length_append, List.length_singleton, trimEnd, hlast, trimmed,
        List.rdropWhile_concat]
      by_cases hc : c = space
      · simp only [hc, decide_true, if_true]
        rw [List.append_assoc]
        exact ih _
      · simp [hc]

/-- The length of an item, from the places where it starts and where the loop stopped. -/
theorem trimEnd_element (item rest : Bytes) :
    trimEnd (item ++ rest) ((item ++ rest).length - rest.length) = .ok (trimmed item).length := by
  rw [List.length_append, Nat.add_sub_cancel]
  exact trimEnd_trimmed item rest

/-! ## The items -/

theorem Element.head_ne {c : UInt8} {tail : Bytes} (h : Element (c :: tail)) :
    c ≠ space ∧ c ≠ closeBracket := by
  refine ⟨by simpa using h.head, fun hc => ?_⟩
  subst hc
  cases h.balanced with
  | opening hopen => exact absurd hopen (by decide)
  | other hplain => exact hplain.2.2.2.1 rfl

/-- The items do not start with a blank, nor with the closing bracket unless they are one
empty item. -/
theorem Rows.head {start : Nat} {body : Bytes} {rows : List Item} (h : Rows start body rows)
    (rest : Bytes) : ∃ c tail, body ++ closeBracket :: rest = c :: tail ∧ c ≠ space ∧
      (body ≠ [] → c ≠ closeBracket) := by
  cases h with
  | last hitem =>
      cases body with
      | nil => exact ⟨closeBracket, rest, rfl, by decide, fun hne => absurd rfl hne⟩
      | cons c tail => exact ⟨c, _, rfl, hitem.head_ne.1, fun _ => hitem.head_ne.2⟩
  | @more _ k item body _ hitem =>
      cases item with
      | nil => exact ⟨comma, _, rfl, by decide, fun _ => by decide⟩
      | cons c tail => exact ⟨c, _, rfl, hitem.head_ne.1, fun _ => hitem.head_ne.2⟩

theorem scanItems_rows {start : Nat} {body : Bytes} {rows : List Item} (h : Rows start body rows)
    {room : Nat} (hroom : rows.length ≤ room) {text rest : Bytes} (items : List Item)
    (hstart : start + (body ++ closeBracket :: rest).length = text.length) :
    scanItems text room (body ++ closeBracket :: rest) items =
      .ok (items ++ rows, closeBracket :: rest) := by
  induction h generalizing room items with
  | @last start item hitem =>
      cases room with
      | zero => cases hroom
      | succ room =>
          have hoffset : text.length - (item ++ closeBracket :: rest).length = start := by omega
          rw [scanItems, scanItem_element hitem (.inr rfl), ok_bind_except, trimEnd_element,
            ok_bind_except, hoffset]
          rfl
  | @more start k item body rows hitem hmore ih =>
      cases room with
      | zero => cases hroom
      | succ room =>
          have hsplit : item ++ comma :: (blanks k ++ body) ++ closeBracket :: rest =
              item ++ comma :: (blanks k ++ (body ++ closeBracket :: rest)) := by simp
          rw [hsplit] at hstart ⊢
          have hoffset : text.length -
              (item ++ comma :: (blanks k ++ (body ++ closeBracket :: rest))).length = start := by
            omega
          have hskip : skipBlanks (blanks k ++ (body ++ closeBracket :: rest)) =
              .ok (body ++ closeBracket :: rest) := by
            rcases hmore.head rest with ⟨d, tail, htail, hd, -⟩
            rw [htail]
            exact skipBlanks_blanks k hd tail
          have hnext : start + item.length + 1 + k + (body ++ closeBracket :: rest).length =
              text.length := by
            rw [← hstart]
            simp only [List.length_append, List.length_cons, blanks, List.length_replicate]
            omega
          rw [scanItems, scanItem_element hitem (.inl rfl), ok_bind_except, trimEnd_element,
            ok_bind_except, hoffset, deref, ok_bind_except, if_neg (by decide), List.tail_cons,
            hskip, ok_bind_except, ih (Nat.le_of_succ_le_succ hroom) _ hnext, List.append_assoc]
          rfl

/-- What the loop over the list has read when it ends. -/
theorem rows_of_scanItems {start room : Nat} {text beg pos : Bytes} {items found : List Item}
    (h : scanItems text room beg items = .ok (found, pos)) (hbeg : beg.head? ≠ some space)
    (hstart : start + beg.length = text.length) :
    ∃ body rest rows, beg = body ++ closeBracket :: rest ∧ pos = closeBracket :: rest ∧
      found = items ++ rows ∧ rows.length ≤ room ∧ Rows start body rows := by
  induction room generalizing start beg items with
  | zero => cases h
  | succ room ih =>
      rw [scanItems] at h
      rcases bind_ok.mp h with ⟨stop, hscan, h⟩
      rcases bind_ok.mp h with ⟨length, htrim, h⟩
      rcases bind_ok.mp h with ⟨c, hderef, h⟩
      rcases scanItem_ok hscan with ⟨⟨d, rest, rfl, hd⟩, item, rfl, hitem⟩
      cases hderef
      have helement : Element item :=
        ⟨fun hspace => hbeg (by rw [List.head?_append, hspace, Option.some_or]), hitem⟩
      rw [trimEnd_element] at htrim
      cases htrim
      have hoffset : text.length - (item ++ c :: rest).length = start := by omega
      rw [hoffset] at h
      split at h
      case isTrue hclose =>
        cases h
        rw [hclose]
        exact ⟨item, rest, [_], rfl, rfl, rfl, Nat.le_add_left 1 room, .last helement⟩
      case isFalse hclose =>
        have hcomma : c = comma := hd.resolve_right hclose
        rcases bind_ok.mp h with ⟨next, hskip, h⟩
        rcases skipBlanks_ok hskip with ⟨k, e, tail, hrest, rfl, he⟩
        rw [List.tail_cons] at hrest
        have hnext : start + item.length + 1 + k + (e :: tail).length = text.length := by
          rw [← hstart, hrest]
          simp only [List.length_append, List.length_cons, blanks, List.length_replicate]
          omega
        rcases ih h (by simpa using he) hnext with ⟨body, rest', rows, hbody, hpos, hfound,
          hroom, hrows⟩
        refine ⟨item ++ comma :: (blanks k ++ body), rest', _ :: rows, ?_, hpos, ?_,
          Nat.succ_le_succ hroom, .more helement hrows⟩
        · rw [hcomma, hrest, hbody]
          simp
        · rw [hfound, List.append_assoc]
          rfl

/-! ## The text -/

theorem scanList_accepted {gap start : Nat} {text body rest : Bytes} {rows : List Item}
    (hrows : (rows = [] ∧ body = []) ∨ (body ≠ [] ∧ rows.length ≤ 10 ∧ Rows start body rows))
    (hstart : start + (body ++ closeBracket :: rest).length = text.length) :
    scanList text (blanks gap ++ (body ++ closeBracket :: rest)) =
      .ok (rows, closeBracket :: rest) := by
  rcases hrows with ⟨rfl, rfl⟩ | ⟨hne, hten, hrows⟩
  · rw [List.nil_append, scanList, skipBlanks_blanks gap (by decide), ok_bind_except, deref,
      ok_bind_except, if_pos rfl]
  · have hscan := scanItems_rows hrows hten [] hstart
    rcases hrows.head rest with ⟨c, tail, hhead, hc, hclose⟩
    rw [hhead] at hscan ⊢
    rw [scanList, skipBlanks_blanks gap hc, ok_bind_except, deref, ok_bind_except,
      if_neg (hclose hne)]
    exact hscan

theorem scan_of_accepted {text : Bytes} {rows : List Item} (h : Accepted text rows) :
    wsj1MsgScan (text ++ [0]) = .ok rows := by
  rcases h with ⟨lead, gap, trail, body, rfl, hrows⟩
  have hend : skipBlanks (blanks trail ++ [0]) = .ok [0] := skipBlanks_blanks trail (by decide) []
  have hsplit : blanks lead ++ openBracket :: (blanks gap ++ (body ++ closeBracket :: blanks trail)) ++
      [0] = blanks lead ++ openBracket ::
        (blanks gap ++ (body ++ closeBracket :: (blanks trail ++ [0]))) := by simp
  rw [hsplit]
  have hlength : lead + 1 + gap + (body ++ closeBracket :: (blanks trail ++ [0])).length =
      (blanks lead ++ openBracket ::
        (blanks gap ++ (body ++ closeBracket :: (blanks trail ++ [0])))).length := by
    simp only [List.length_append, List.length_cons, blanks, List.length_replicate]
    omega
  rw [wsj1MsgScan, skipBlanks_blanks lead (by decide), ok_bind_except, deref, ok_bind_except,
    if_neg (fun hne => hne rfl), List.tail_cons, scanList_accepted hrows hlength, ok_bind_except]
  dsimp only
  rw [List.tail_cons, hend, ok_bind_except, deref, ok_bind_except, if_neg (fun hne => hne rfl)]

theorem accepted_of_scanList {start : Nat} {text pos close : Bytes} {rows : List Item}
    (h : scanList text pos = .ok (rows, close)) (hstart : start + pos.length = text.length) :
    ∃ gap body rest, pos = blanks gap ++ (body ++ closeBracket :: rest) ∧
      close = closeBracket :: rest ∧
      ((rows = [] ∧ body = []) ∨ (body ≠ [] ∧ rows.length ≤ 10 ∧ Rows (start + gap) body rows)) := by
  rw [scanList] at h
  rcases bind_ok.mp h with ⟨beg, hbeg, h⟩
  rcases skipBlanks_ok hbeg with ⟨gap, c, tail, rfl, rfl, hc⟩
  rw [deref, ok_bind_except] at h
  split at h
  case isTrue hclose =>
    cases h
    rw [hclose]
    exact ⟨gap, [], tail, rfl, rfl, .inl ⟨rfl, rfl⟩⟩
  case isFalse hitem =>
    have hgap : start + gap + (c :: tail).length = text.length := by
      rw [← hstart]
      simp only [List.length_append, blanks, List.length_replicate]
      omega
    rcases rows_of_scanItems h (by simpa using hc) hgap with ⟨body, rest, found, hbody, rfl, rfl,
      hten, hrows⟩
    refine ⟨gap, body, rest, by rw [hbody], rfl, .inr ⟨fun hnil => ?_, hten, hrows⟩⟩
    rw [hnil] at hbody
    exact hitem (List.cons_eq_cons.mp hbody).1

theorem accepted_of_scan {text : Bytes} {rows : List Item} (hnul : (0 : UInt8) ∉ text)
    (h : wsj1MsgScan (text ++ [0]) = .ok rows) : Accepted text rows := by
  rw [wsj1MsgScan] at h
  rcases bind_ok.mp h with ⟨start, hstart, h⟩
  rcases skipBlanks_ok hstart with ⟨lead, c, tail, htext, rfl, -⟩
  rw [deref, ok_bind_except] at h
  split at h
  case isTrue => cases h
  case isFalse hopen =>
    rw [ne_eq, not_not] at hopen
    rcases bind_ok.mp h with ⟨⟨filled, close⟩, hlist, h⟩
    have hlength : lead + 1 + tail.length = (text ++ [0]).length := by
      rw [htext]
      simp only [List.length_append, List.length_cons, blanks, List.length_replicate]
      omega
    rcases accepted_of_scanList hlist hlength with ⟨gap, body, rest, htail, rfl, hrows⟩
    rcases bind_ok.mp h with ⟨last, hlast, h⟩
    rcases skipBlanks_ok hlast with ⟨trail, e, after, hrest, rfl, -⟩
    rw [deref, ok_bind_except] at h
    split at h
    case isTrue => cases h
    case isFalse hend =>
      cases h
      rw [ne_eq, not_not] at hend
      rw [List.tail_cons] at hrest
      -- after the closing bracket there are blanks and the NUL of the text
      have hbytes : text ++ [0] = (blanks lead ++ openBracket ::
          (blanks gap ++ (body ++ closeBracket :: blanks trail))) ++ 0 :: after := by
        rw [List.tail_cons] at htail
        rw [htext, hopen, htail, hrest, hend]
        simp
      exact ⟨lead, gap, trail, body, (nul_split hnul hbytes).1, hrows⟩

/-! ## JSON values -/

/-- The texts of the values separated by commas, with blanks around the commas. -/
inductive Separated : List Bytes → Bytes → Prop
  | last {value : Bytes} {k : Nat} : Separated [value] (value ++ blanks k)
  | more {value body : Bytes} {values : List Bytes} {k j : Nat} :
      Separated values body →
        Separated (value :: values) (value ++ (blanks k ++ comma :: (blanks j ++ body)))

/-- The text of a list of values. -/
def Lists (text : Bytes) (values : List Bytes) : Prop :=
  ∃ lead gap trail body,
    text = blanks lead ++ openBracket :: (blanks gap ++ (body ++ closeBracket :: blanks trail)) ∧
      ((values = [] ∧ body = []) ∨ Separated values body)

/-- The bytes of a row. -/
def slice (text : Bytes) (row : Item) : Bytes := (text.drop row.offset).take row.length

/-- The rows give the segments that they cover. -/
theorem Placed.slices {text : Bytes} {start : Nat} {rows : List Item} {segs : List Bytes}
    (h : Placed (text ++ [0]) start rows segs) : rows.map (slice text) = segs := by
  induction rows generalizing start segs with
  | nil =>
      cases segs with
      | nil => rfl
      | cons seg segs => exact absurd h id
  | cons row rows ih =>
      cases segs with
      | nil => exact absurd h id
      | cons seg segs =>
          rcases h with ⟨-, hlength, hcovers, hinside, hrest⟩
          rw [List.length_append, List.length_singleton] at hinside
          have hdrop : (text ++ [0]).drop row.offset = text.drop row.offset ++ [0] :=
            List.drop_append_of_le_length (by omega)
          have hslice : slice text row = seg := by
            have htake := List.prefix_iff_eq_take.mp hcovers
            rw [hdrop, List.take_append_of_le_length (by rw [List.length_drop]; omega)] at htake
            rw [slice, hlength]
            exact htake.symm
          rw [List.map_cons, ih hrest, hslice]

theorem Derives.ne_nil {s : Bytes} (h : Derives .value s) : s ≠ [] := by
  cases h with
  | number hs => exact hs.numberByte.1
  | _ => simp

theorem Separated.body {values : List Bytes} {body : Bytes} (h : Separated values body)
    (hjson : ∀ value ∈ values, Derives .value value) : body ≠ [] ∧ Body values body := by
  induction h with
  | last =>
      have hvalue := hjson _ List.mem_cons_self
      have hne := Derives.ne_nil hvalue
      exact ⟨by simp [hne], .last (.value hvalue) fun hnil => absurd hnil hne⟩
  | more _ ih =>
      have hvalue := hjson _ List.mem_cons_self
      have hne := Derives.ne_nil hvalue
      have hrest := ih fun value hmem => hjson value (List.mem_cons_of_mem _ hmem)
      exact ⟨by simp [hne], .more (.value hvalue) (fun hnil => absurd hnil hne) hrest.2⟩

theorem Lists.listing {text : Bytes} {values : List Bytes} (h : Lists text values)
    (hjson : ∀ value ∈ values, Derives .value value) : Listing text values := by
  rcases h with ⟨lead, gap, trail, body, htext, hempty | hvalues⟩
  · exact ⟨lead, gap, trail, body, htext, .inl hempty⟩
  · exact ⟨lead, gap, trail, body, htext, .inr (hvalues.body hjson)⟩

/-- `wsj1_msg_scan` returns, without reading after the NUL.  It accepts the texts of the
grammar, with their rows, and nothing else; the rows of the list of at most ten JSON values
are the texts of these values. -/
theorem wsj1_msg_scan_accepts (text : CString) :
    (∀ fault, wsj1MsgScan (text.bytes ++ [0]) ≠ .error (.fault fault)) ∧
      (∀ rows, wsj1MsgScan (text.bytes ++ [0]) = .ok rows ↔ Accepted text.bytes rows) ∧
      ∀ values, values.length ≤ 10 → (∀ value ∈ values, Derives .value value) →
        Lists text.bytes values →
          ∃ rows, wsj1MsgScan (text.bytes ++ [0]) = .ok rows ∧
            rows.map (slice text.bytes) = values := by
  refine ⟨wsj1MsgScan_safe text.bytes, fun rows => ?_, ?_⟩
  · constructor
    · exact accepted_of_scan text.nulFree
    · exact scan_of_accepted
  · intro values hten hjson hlists
    rcases wsj1MsgScan_listing (hlists.listing hjson) hten with ⟨rows, hscan, hplaced⟩
    exact ⟨rows, hscan, hplaced.slices⟩

end AfbBinder.Wsj1
