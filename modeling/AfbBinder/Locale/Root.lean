import AfbBinder.Lib.Run
import AfbBinder.Lib.Slots
import AfbBinder.Locale.Search
import Mathlib.Algebra.Group.Int.Defs
import Mathlib.Data.List.Perm.Basic

/-!
# A locale root and its searches

A root counts its references twice: `refcount` for the callers, `intcount` for the callers
together and each search.  It keeps its last three searches and a default one, whose counts
these references are part of.

A search is known by the order of its creation; its place is emptied when it is freed.
`destroyed` counts the times the root is cleared, closed and freed.
-/

namespace AfbBinder.Locale

open Lib

/-- `struct locale_search`, for one root.  The nodes are the positions of their folders. -/
structure SearchCell where
  head : List Nat
  refcount : Int
  definition : Bytes
deriving DecidableEq, Repr

/-- `struct locale_root`, with the memory of its searches. -/
structure RootHeap where
  container : LocaleContainer
  refcount : Int
  intcount : Int
  lru : List (Option Nat)
  defaultSearch : Option Nat
  searches : List (Option SearchCell)
  destroyed : Nat

def lruCount : Nat := 3

namespace RootHeap

/-- The search of that identifier, unless it is freed. -/
def search (s : RootHeap) (id : Nat) : Option SearchCell := s.searches[id]?.join

def write (s : RootHeap) (id : Nat) (cell : Option SearchCell) : RootHeap :=
  { s with searches := s.searches.set id cell }

/-- A search is allocated and takes its share of the root. -/
def push (s : RootHeap) (cell : SearchCell) : RootHeap :=
  { s with intcount := s.intcount + 1, searches := s.searches ++ [some cell] }

end RootHeap

/-! ## The operations -/

/-- `locale_root_create`, the folders being read. -/
def localeRootCreate (container : LocaleContainer) : RootHeap :=
  { container := container, refcount := 1, intcount := 1, lru := List.replicate lruCount none,
    defaultSearch := none, searches := [], destroyed := 0 }

def localeRootAddref (s : RootHeap) : RootHeap := { s with refcount := s.refcount + 1 }

/-- `internal_unref` -/
def internalUnref (s : RootHeap) : RootHeap :=
  let s := { s with intcount := s.intcount - 1 }
  if s.intcount = 0 then { s with destroyed := s.destroyed + 1 } else s

/-- `locale_search_addref` -/
def localeSearchAddref (id : Nat) (s : RootHeap) : RootHeap :=
  match s.search id with
  | none => s
  | some cell => s.write id (some { cell with refcount := cell.refcount + 1 })

/-- `locale_search_unref` -/
def localeSearchUnref (search : Option Nat) (s : RootHeap) : RootHeap :=
  match search with
  | none => s
  | some id =>
      match s.search id with
      | none => s
      | some cell =>
          if cell.refcount - 1 = 0 then internalUnref (s.write id none)
          else s.write id (some { cell with refcount := cell.refcount - 1 })

/-- `locale_root_unref` -/
def localeRootUnref (s : RootHeap) : RootHeap :=
  let s := { s with refcount := s.refcount - 1 }
  if s.refcount = 0 then
    internalUnref (s.lru.foldl (fun s search => localeSearchUnref search s) s)
  else s

/-- The search that `create_search` makes. -/
def newSearch (container : LocaleContainer) (definition : Bytes) (length : Nat)
    (immediate : Bool) : SearchCell :=
  { head := searchedFolders container definition length immediate
    refcount := 1
    definition := definition.take length }

/-- `create_search`; `allocated` tells whether all its calls of `malloc` succeed.  When one
fails the search is freed with its nodes and the root is as before. -/
def createSearch (allocated : Bool) (definition : Bytes) (length : Nat) (immediate : Bool)
    (s : RootHeap) : Option (Nat × RootHeap) :=
  if allocated then
    some (s.searches.length, s.push (newSearch s.container definition length immediate))
  else none

/-- `search_matches` -/
def searchMatches (s : RootHeap) (definition : Bytes) (length : Nat) (search : Option Nat) :
    Bool :=
  match search.bind s.search with
  | none => false
  | some cell => strncaseeq length cell.definition definition && charAt cell.definition length = 0

/-- `while (i > 0) { root->lru[i] = root->lru[i - 1]; i = i - 1; }` -/
def shiftLru : Nat → List (Option Nat) → List (Option Nat)
  | 0, lru => lru
  | i + 1, lru => shiftLru i (lru.set (i + 1) (lru.getD i none))

/-- Makes the search the most recent one, the entries before `i` moving by one. -/
def manageLru (id i : Nat) (s : RootHeap) : RootHeap :=
  { s with lru := (shiftLru i s.lru).set 0 (some id) }

/-- `locale_root_search` -/
def localeRootSearch (allocated : Bool) (definition : Option CString) (immediate : Bool)
    (s : RootHeap) : Option Nat × RootHeap :=
  let normal := normalize definition
  let i := s.lru.findIdx (searchMatches s normal.1 normal.2)
  if i < lruCount then
    match s.lru.getD i none with
    | none => (none, s)
    | some id => (some id, localeSearchAddref id (manageLru id i s))
  else
    match createSearch allocated normal.1 normal.2 immediate s with
    | none => (none, s)
    | some (id, made) =>
        let i := i - 1
        let dropped := localeSearchUnref (made.lru.getD i none) made
        (some id, localeSearchAddref id (manageLru id i dropped))

/-- `locale_root_set_default_search` -/
def localeRootSetDefaultSearch (search : Option Nat) (s : RootHeap) : RootHeap :=
  let older := s.defaultSearch
  let s := match search with
    | none => { s with defaultSearch := none }
    | some id => { localeSearchAddref id s with defaultSearch := some id }
  localeSearchUnref older s

/-! ## The memory of the searches -/

namespace RootHeap

variable {s : RootHeap} {id : Nat} {cell : SearchCell}

theorem getElem?_of_search (h : s.search id = some cell) : s.searches[id]? = some (some cell) := by
  unfold search at h
  cases hget : s.searches[id]? with
  | none =>
      rw [hget] at h
      cases h
  | some place =>
      rw [hget] at h
      exact congrArg some h

theorem lt_of_search (h : s.search id = some cell) : id < s.searches.length :=
  (List.getElem?_eq_some_iff.mp (getElem?_of_search h)).1

theorem search_write (h : s.search id = some cell) (cell' : Option SearchCell) :
    (s.write id cell').search = Function.update s.search id cell' := by
  have hlt := lt_of_search h
  funext other
  show (s.searches.set id cell')[other]?.join = _
  rw [List.getElem?_set, Function.update_apply]
  by_cases heq : id = other
  · rw [if_pos heq, if_pos heq.symm, if_pos (heq ▸ hlt)]
    rfl
  · rw [if_neg heq, if_neg (Ne.symm heq)]
    rfl

theorem occupied_write (h : s.search id = some cell) (cell' : Option SearchCell) :
    Slots.occupied (s.write id cell').searches + 1 =
      Slots.occupied s.searches + if cell'.isSome then 1 else 0 :=
  Slots.countP_set_add Option.isSome cell' (getElem?_of_search h)

theorem search_push (s : RootHeap) (cell : SearchCell) (other : Nat) :
    (s.push cell).search other =
      if other = s.searches.length then some cell else s.search other := by
  show (s.searches ++ [some cell])[other]?.join = _
  rcases Nat.lt_trichotomy other s.searches.length with hlt | heq | hgt
  · rw [List.getElem?_append_left hlt, if_neg (Nat.ne_of_lt hlt)]
    rfl
  · rw [if_pos heq, heq, List.getElem?_concat_length]
    rfl
  · rw [if_neg (Nat.ne_of_gt hgt), search,
      List.getElem?_eq_none (by rw [List.length_append, List.length_singleton]; omega),
      List.getElem?_eq_none (by omega)]

end RootHeap

/-! ## The references -/

/-- Each search counts the references that are owned on it, the root counts its searches and
the share of its callers, and it is destroyed when nothing is left to count. -/
structure Balanced (s : RootHeap) (owned : Nat → Nat) (share : Nat) : Prop where
  counted : ∀ id cell, s.search id = some cell → cell.refcount = owned id ∧ 0 < owned id
  freed : ∀ id, s.search id = none → owned id = 0
  intcount : s.intcount = share + Slots.occupied s.searches
  destroyed : s.destroyed = if s.intcount = 0 then 1 else 0

section Balanced

variable {s : RootHeap} {owned : Nat → Nat} {share : Nat} {id : Nat}

theorem Balanced.exists_cell (h : Balanced s owned share) (hid : 0 < owned id) :
    ∃ cell, s.search id = some cell := by
  cases hcell : s.search id with
  | some cell => exact ⟨cell, rfl⟩
  | none =>
      have := h.freed id hcell
      omega

theorem Balanced.intcount_pos (h : Balanced s owned share) {cell : SearchCell}
    (hcell : s.search id = some cell) : 0 < s.intcount ∧ s.destroyed = 0 := by
  have hpos : 0 < Slots.occupied s.searches :=
    List.countP_pos_iff.mpr ⟨_, List.mem_of_getElem? (RootHeap.getElem?_of_search hcell), rfl⟩
  have hint := h.intcount
  have hne : ¬ s.intcount = 0 := by omega
  refine ⟨by omega, ?_⟩
  rw [h.destroyed, if_neg hne]

theorem Balanced.write (h : Balanced s owned share) {cell cell' : SearchCell}
    (hcell : s.search id = some cell) {n : Nat} (hcount : cell'.refcount = n) (hn : 0 < n) :
    Balanced (s.write id (some cell')) (Function.update owned id n) share where
  counted := by
    intro other c hc
    rw [RootHeap.search_write hcell, Function.update_apply] at hc
    rw [Function.update_apply]
    split at hc
    case isTrue heq =>
      cases hc
      rw [if_pos heq]
      exact ⟨hcount, hn⟩
    case isFalse hne =>
      rw [if_neg hne]
      exact h.counted other c hc
  freed := by
    intro other hc
    rw [RootHeap.search_write hcell, Function.update_apply] at hc
    rw [Function.update_apply]
    split at hc
    case isTrue => cases hc
    case isFalse hne =>
      rw [if_neg hne]
      exact h.freed other hc
  intcount := by
    have hoccupied := RootHeap.occupied_write hcell (some cell')
    have hint := h.intcount
    simp only [Option.isSome_some, if_true, Nat.add_right_cancel_iff] at hoccupied
    rw [hoccupied]
    exact hint
  destroyed := h.destroyed

/-- Releasing one share of a root that is not destroyed. -/
theorem balanced_internalUnref
    (hcounted : ∀ id cell, s.search id = some cell → cell.refcount = owned id ∧ 0 < owned id)
    (hfreed : ∀ id, s.search id = none → owned id = 0)
    (hintcount : s.intcount = share + Slots.occupied s.searches + 1) (hlive : s.destroyed = 0) :
    Balanced (internalUnref s) owned share := by
  unfold internalUnref
  dsimp only
  split
  case isTrue hzero =>
    refine ⟨hcounted, hfreed, ?_, ?_⟩
    · show s.intcount - 1 = share + Slots.occupied s.searches
      omega
    · show s.destroyed + 1 = if s.intcount - 1 = 0 then 1 else 0
      rw [if_pos hzero, hlive]
  case isFalse hmore =>
    refine ⟨hcounted, hfreed, ?_, ?_⟩
    · show s.intcount - 1 = share + Slots.occupied s.searches
      omega
    · show s.destroyed = if s.intcount - 1 = 0 then 1 else 0
      rw [if_neg hmore, hlive]

theorem Balanced.addref (h : Balanced s owned share) (hid : 0 < owned id) :
    Balanced (localeSearchAddref id s) (Function.update owned id (owned id + 1)) share := by
  obtain ⟨cell, hcell⟩ := h.exists_cell hid
  have hcount := (h.counted id cell hcell).1
  rw [localeSearchAddref, hcell]
  apply h.write hcell _ (Nat.succ_pos _)
  show cell.refcount + 1 = _
  rw [hcount]
  rfl

/-- The last reference on a search frees it, and with it its share of the root. -/
theorem Balanced.unref (h : Balanced s owned share) (hid : 0 < owned id) :
    Balanced (localeSearchUnref (some id) s) (Function.update owned id (owned id - 1)) share := by
  obtain ⟨cell, hcell⟩ := h.exists_cell hid
  have hcount := (h.counted id cell hcell).1
  have hint := h.intcount_pos hcell
  simp only [localeSearchUnref, hcell]
  split
  case isTrue hlast =>
    have hoccupied := RootHeap.occupied_write hcell none
    have hbefore := h.intcount
    simp only [Option.isSome_none, Bool.false_eq_true, if_false] at hoccupied
    apply balanced_internalUnref
    · intro other c hc
      rw [RootHeap.search_write hcell, Function.update_apply] at hc
      split at hc
      case isTrue => cases hc
      case isFalse hne =>
        rw [Function.update_of_ne hne]
        exact h.counted other c hc
    · intro other hc
      rw [RootHeap.search_write hcell, Function.update_apply] at hc
      rw [Function.update_apply]
      split
      case isTrue => omega
      case isFalse hne =>
        rw [if_neg hne] at hc
        exact h.freed other hc
    · show s.intcount = _
      omega
    · exact hint.2
  case isFalse hmore =>
    apply h.write hcell
    · show cell.refcount - 1 = _
      omega
    · omega

theorem Balanced.unrefAll (entries : List (Option Nat)) (h : Balanced s owned share)
    (hentries : ∀ id, entries.count (some id) ≤ owned id) :
    Balanced (entries.foldl (fun s search => localeSearchUnref search s) s)
      (fun id => owned id - entries.count (some id)) share := by
  induction entries generalizing s owned with
  | nil => exact h
  | cons entry rest ih =>
      cases entry with
      | none =>
          have hrest : ∀ id, (none :: rest).count (some id) = rest.count (some id) := by
            intro id
            rw [List.count_cons_of_ne (by simp)]
          simp only [hrest] at hentries ⊢
          exact ih h hentries
      | some first =>
          have hcount : ∀ id, (some first :: rest).count (some id) =
              rest.count (some id) + if id = first then 1 else 0 := by
            intro id
            rw [List.count_cons]
            by_cases heq : id = first
            · simp [heq]
            · simp [heq, Ne.symm heq]
          simp only [hcount] at hentries ⊢
          have hfirst := hentries first
          rw [if_pos rfl] at hfirst
          have hnext := ih (h.unref (show 0 < owned first by omega)) (by
            intro id
            have hid := hentries id
            rw [Function.update_apply]
            split
            case isTrue heq =>
              subst heq
              omega
            case isFalse hne =>
              rw [if_neg hne] at hid
              omega)
          have hsame : (fun id => Function.update owned first (owned first - 1) id -
              rest.count (some id)) =
              fun id => owned id - (rest.count (some id) + if id = first then 1 else 0) := by
            funext id
            rw [Function.update_apply]
            split
            case isTrue heq =>
              subst heq
              omega
            case isFalse => omega
          rw [← hsame]
          exact hnext

/-- A new search, with its own reference. -/
theorem Balanced.push (h : Balanced s owned share) (hshare : 0 < share) {cell : SearchCell}
    (hcell : cell.refcount = 1) :
    Balanced (s.push cell) (Function.update owned s.searches.length 1) share where
  counted := by
    intro other c hc
    rw [RootHeap.search_push] at hc
    rw [Function.update_apply]
    split at hc
    case isTrue heq =>
      cases hc
      rw [if_pos heq]
      exact ⟨hcell, Nat.one_pos⟩
    case isFalse hne =>
      rw [if_neg hne]
      exact h.counted other c hc
  freed := by
    intro other hc
    rw [RootHeap.search_push] at hc
    rw [Function.update_apply]
    split at hc
    case isTrue => cases hc
    case isFalse hne =>
      rw [if_neg hne]
      exact h.freed other hc
  intcount := by
    have hoccupied : Slots.occupied (s.searches ++ [some cell]) =
        Slots.occupied s.searches + 1 := List.countP_append
    have hint := h.intcount
    show s.intcount + 1 = share + Slots.occupied (s.searches ++ [some cell])
    rw [hoccupied]
    omega
  destroyed := by
    have hint := h.intcount
    show s.destroyed = if s.intcount + 1 = 0 then 1 else 0
    rw [if_neg (by omega), h.destroyed, if_neg (by omega)]

theorem Balanced.unrefOne (h : Balanced s owned share) (search : Option Nat)
    (hsearch : ∀ id, (if search = some id then 1 else 0) ≤ owned id) :
    Balanced (localeSearchUnref search s)
      (fun id => owned id - if search = some id then 1 else 0) share := by
  have hone : ∀ id, [search].count (some id) = if search = some id then 1 else 0 := by
    intro id
    rw [List.count_singleton]
    simp only [beq_iff_eq]
  have hall := h.unrefAll [search]
  simp only [hone] at hall
  exact hall hsearch

/-- The counts are about the searches, not about who refers to them. -/
theorem Balanced.transport {s' : RootHeap} (h : Balanced s owned share)
    (hsearches : s'.searches = s.searches) (hintcount : s'.intcount = s.intcount)
    (hdestroyed : s'.destroyed = s.destroyed) : Balanced s' owned share := by
  have hsearch : s'.search = s.search := by
    funext id
    rw [RootHeap.search, RootHeap.search, hsearches]
  refine ⟨?_, ?_, ?_, ?_⟩
  · rw [hsearch]
    exact h.counted
  · rw [hsearch]
    exact h.freed
  · rw [hintcount, hsearches]
    exact h.intcount
  · rw [hdestroyed, hintcount]
    exact h.destroyed

theorem Balanced.congr {owned' : Nat → Nat} (h : Balanced s owned share)
    (hsame : ∀ id, owned' id = owned id) : Balanced s owned' share := by
  have heq : owned' = owned := funext hsame
  rw [heq]
  exact h

end Balanced

/-! ## What the references leave as it is -/

/-- The searches of `s'` are searches of `s`, with their text and their folders. -/
structure CellsKept (s s' : RootHeap) : Prop where
  container : s'.container = s.container
  cells : ∀ id cell', s'.search id = some cell' →
    ∃ cell, s.search id = some cell ∧ cell'.head = cell.head ∧ cell'.definition = cell.definition

/-- The root keeps all but its counts. -/
structure Kept (s s' : RootHeap) : Prop extends CellsKept s s' where
  refcount : s'.refcount = s.refcount
  lru : s'.lru = s.lru
  defaultSearch : s'.defaultSearch = s.defaultSearch

theorem CellsKept.refl (s : RootHeap) : CellsKept s s :=
  ⟨rfl, fun _ cell hcell => ⟨cell, hcell, rfl, rfl⟩⟩

theorem CellsKept.trans {s s' s'' : RootHeap} (h : CellsKept s s') (h' : CellsKept s' s'') :
    CellsKept s s'' where
  container := h'.container.trans h.container
  cells := by
    intro id cell'' hcell''
    obtain ⟨cell', hcell', hhead', hdefinition'⟩ := h'.cells id cell'' hcell''
    obtain ⟨cell, hcell, hhead, hdefinition⟩ := h.cells id cell' hcell'
    exact ⟨cell, hcell, hhead'.trans hhead, hdefinition'.trans hdefinition⟩

theorem Kept.refl (s : RootHeap) : Kept s s where
  toCellsKept := CellsKept.refl s
  refcount := rfl
  lru := rfl
  defaultSearch := rfl

theorem Kept.trans {s s' s'' : RootHeap} (h : Kept s s') (h' : Kept s' s'') : Kept s s'' where
  toCellsKept := h.toCellsKept.trans h'.toCellsKept
  refcount := h'.refcount.trans h.refcount
  lru := h'.lru.trans h.lru
  defaultSearch := h'.defaultSearch.trans h.defaultSearch

theorem kept_write {s : RootHeap} {id : Nat} {cell : SearchCell} (hcell : s.search id = some cell)
    {cell' : Option SearchCell}
    (h : ∀ c, cell' = some c → c.head = cell.head ∧ c.definition = cell.definition) :
    Kept s (s.write id cell') where
  container := rfl
  refcount := rfl
  lru := rfl
  defaultSearch := rfl
  cells := by
    intro other c hc
    rw [RootHeap.search_write hcell, Function.update_apply] at hc
    split at hc
    case isTrue heq =>
      rw [heq]
      exact ⟨cell, hcell, h c hc⟩
    case isFalse => exact ⟨c, hc, rfl, rfl⟩

theorem kept_internalUnref (s : RootHeap) : Kept s (internalUnref s) := by
  unfold internalUnref
  dsimp only
  split <;> exact ⟨⟨rfl, (CellsKept.refl s).cells⟩, rfl, rfl, rfl⟩

theorem kept_addref (s : RootHeap) (id : Nat) : Kept s (localeSearchAddref id s) := by
  unfold localeSearchAddref
  split
  case h_1 => exact Kept.refl s
  case h_2 cell hcell =>
    apply kept_write hcell
    rintro c ⟨⟩
    exact ⟨rfl, rfl⟩

theorem kept_unref (s : RootHeap) (search : Option Nat) :
    Kept s (localeSearchUnref search s) := by
  unfold localeSearchUnref
  split
  case h_1 => exact Kept.refl s
  case h_2 id =>
    split
    case h_1 => exact Kept.refl s
    case h_2 cell hcell =>
      split
      case isTrue =>
        apply Kept.trans (kept_write hcell _) (kept_internalUnref _)
        rintro c ⟨⟩
      case isFalse =>
        apply kept_write hcell
        rintro c ⟨⟩
        exact ⟨rfl, rfl⟩

theorem kept_unrefAll (entries : List (Option Nat)) (s : RootHeap) :
    Kept s (entries.foldl (fun s search => localeSearchUnref search s) s) := by
  induction entries generalizing s with
  | nil => exact Kept.refl s
  | cons entry rest ih => exact (kept_unref s entry).trans (ih _)

/-! ## The recent searches -/

theorem cellsKept_manageLru (s : RootHeap) (id i : Nat) : CellsKept s (manageLru id i s) :=
  ⟨rfl, (CellsKept.refl s).cells⟩

/-- The search comes first and the others keep their order. -/
theorem manageLru_lru {s : RootHeap} (hlength : s.lru.length = lruCount) (id : Nat) {i : Nat}
    (hi : i < lruCount) : (manageLru id i s).lru = some id :: s.lru.eraseIdx i := by
  obtain ⟨a, b, c, hlru⟩ := List.length_eq_three.mp hlength
  show (shiftLru i s.lru).set 0 (some id) = _
  rw [hlru]
  match i, hi with
  | 0, _ => rfl
  | 1, _ => rfl
  | 2, _ => rfl

/-- The root after a search was made, in the place of the oldest of the recent ones and with a
reference for its caller. -/
def RootHeap.withSearch (s : RootHeap) (cell : SearchCell) : RootHeap :=
  localeSearchAddref s.searches.length (manageLru s.searches.length 2
    (localeSearchUnref (s.lru.getD 2 none) (s.push cell)))

/-- The references of the recent searches without one of them. -/
theorem count_eraseIdx {lru : List (Option Nat)} {i : Nat} (hi : i < lru.length)
    (search : Option Nat) :
    (lru.eraseIdx i).count search + (if lru.getD i none = search then 1 else 0) =
      lru.count search := by
  have hperm := List.getElem_cons_eraseIdx_perm hi
  have hget : lru.getD i none = lru[i] := by simp [List.getD, hi]
  rw [← hperm.count_eq, List.count_cons, hget]
  simp

theorem manageLru_length {s : RootHeap} (hlength : s.lru.length = lruCount) (id : Nat) {i : Nat}
    (hi : i < lruCount) : (manageLru id i s).lru.length = lruCount := by
  have hin : i < s.lru.length := by
    rw [hlength]
    exact hi
  rw [manageLru_lru hlength id hi, List.length_cons, List.length_eraseIdx_of_lt hin, hlength]
  rfl

/-- A search gains the reference of the recent ones, that of the place `i` loses it. -/
theorem manageLru_count {s : RootHeap} (hlength : s.lru.length = lruCount) (id : Nat) {i : Nat}
    (hi : i < lruCount) (other : Nat) :
    (manageLru id i s).lru.count (some other) +
        (if s.lru.getD i none = some other then 1 else 0) =
      s.lru.count (some other) + if other = id then 1 else 0 := by
  have hin : i < s.lru.length := by
    rw [hlength]
    exact hi
  have herase := count_eraseIdx hin (some other)
  rw [manageLru_lru hlength id hi, List.count_cons]
  by_cases heq : other = id
  · simp only [heq, beq_self_eq_true, if_true] at herase ⊢
    omega
  · simp only [heq, Ne.symm heq, beq_iff_eq, Option.some.injEq, if_false] at herase ⊢
    omega

/-- The references once a search is made: its own two, and one less for the oldest. -/
theorem Balanced.withSearch {s : RootHeap} {owned : Nat → Nat} {share : Nat}
    (h : Balanced s owned share) (hshare : 0 < share) {cell : SearchCell} (hcell : cell.refcount = 1)
    (hlru : ∀ id, (if s.lru.getD 2 none = some id then 1 else 0) ≤ owned id) :
    Balanced (s.withSearch cell)
      (fun id => if id = s.searches.length then 2
        else owned id - if s.lru.getD 2 none = some id then 1 else 0) share := by
  have hfresh : owned s.searches.length = 0 := by
    apply h.freed
    rw [RootHeap.search, List.getElem?_eq_none (Nat.le_refl _)]
    rfl
  -- the new search is not the one that is dropped
  have hnew := hlru s.searches.length
  have hdropped := (h.push hshare hcell).unrefOne (s.lru.getD 2 none) (by
    intro id
    rw [Function.update_apply]
    by_cases heq : id = s.searches.length
    · rw [if_pos heq, heq]
      omega
    · rw [if_neg heq]
      exact hlru id)
  have hone : Function.update owned s.searches.length 1 s.searches.length -
      (if s.lru.getD 2 none = some s.searches.length then 1 else 0) = 1 := by
    rw [Function.update_self]
    omega
  have hmanaged : Balanced (Locale.manageLru s.searches.length 2 _) _ share :=
    hdropped.transport rfl rfl rfl
  apply (@Balanced.addref _ _ _ s.searches.length hmanaged (by rw [hone]; exact Nat.one_pos)).congr
  intro id
  rw [Function.update_apply, hone, Function.update_apply]
  split <;> rfl

theorem withSearch_kept {s : RootHeap} (hlength : s.lru.length = lruCount) (cell : SearchCell) :
    CellsKept (s.push cell) (s.withSearch cell) ∧ (s.withSearch cell).refcount = s.refcount ∧
      (s.withSearch cell).lru = some s.searches.length :: s.lru.eraseIdx 2 ∧
      (s.withSearch cell).defaultSearch = s.defaultSearch := by
  have hdropped := kept_unref (s.push cell) (s.lru.getD 2 none)
  have hadded := kept_addref (manageLru s.searches.length 2
    (localeSearchUnref (s.lru.getD 2 none) (s.push cell))) s.searches.length
  refine ⟨?_, ?_, ?_, ?_⟩
  · exact hdropped.toCellsKept.trans ((cellsKept_manageLru _ _ 2).trans hadded.toCellsKept)
  · exact hadded.refcount.trans hdropped.refcount
  · rw [RootHeap.withSearch, hadded.lru, manageLru_lru (by rw [hdropped.lru]; exact hlength) _
      (show 2 < lruCount by decide), hdropped.lru]
    rfl
  · exact hadded.defaultSearch.trans hdropped.defaultSearch

/-- What `locale_root_search` does: it finds a recent search, or lacks memory, or makes a
search that takes the place of the oldest one. -/
theorem localeRootSearch_cases {s : RootHeap} (hlength : s.lru.length = lruCount)
    (allocated : Bool) (definition : Option CString) (immediate : Bool) :
    let text := (normalize definition).1
    let length := (normalize definition).2
    let result := localeRootSearch allocated definition immediate s
    (∃ i id, i < lruCount ∧ s.lru.getD i none = some id ∧ some id ∈ s.lru ∧
        searchMatches s text length (some id) = true ∧
        result = (some id, localeSearchAddref id (manageLru id i s))) ∨
      ((∀ entry ∈ s.lru, searchMatches s text length entry = false) ∧
        ((allocated = false ∧ result = (none, s)) ∨
          (allocated = true ∧ result = (some s.searches.length,
            s.withSearch (newSearch s.container text length immediate))))) := by
  dsimp only
  generalize htext : (normalize definition).1 = text
  generalize hsize : (normalize definition).2 = length
  unfold localeRootSearch
  dsimp only
  rw [htext, hsize]
  by_cases hi : s.lru.findIdx (searchMatches s text length) < lruCount
  · rw [if_pos hi]
    have hin := hi
    rw [← hlength] at hin
    have hmatch := List.findIdx_getElem (w := hin)
    have hget : s.lru.getD (s.lru.findIdx (searchMatches s text length)) none =
        s.lru[s.lru.findIdx (searchMatches s text length)] := by
      simp [List.getD, hin]
    rw [← hget] at hmatch
    cases hentry : s.lru.getD (s.lru.findIdx (searchMatches s text length)) none with
    | none =>
        rw [hentry] at hmatch
        cases hmatch
    | some id =>
        rw [hentry] at hmatch
        refine .inl ⟨_, id, hi, hentry, ?_, hmatch, rfl⟩
        rw [← hentry, hget]
        exact List.getElem_mem hin
  · rw [if_neg hi]
    have hall : s.lru.findIdx (searchMatches s text length) = s.lru.length := by
      have := @List.findIdx_le_length _ (searchMatches s text length) s.lru
      omega
    refine .inr ⟨?_, ?_⟩
    · intro entry hentry
      have hno := List.findIdx_eq_length.mp hall entry hentry
      simpa using hno
    · cases allocated with
      | false => exact .inl ⟨rfl, rfl⟩
      | true =>
          refine .inr ⟨rfl, ?_⟩
          simp only [createSearch, if_true, hall, hlength]
          rfl

end AfbBinder.Locale
