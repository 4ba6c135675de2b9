import AfbBinder.Locale.Root

/-!
# Lifetime of a locale root

The callers of a root, with the references that they obtained and have yet to release on the
root and on each of its searches.  They act in any order: a reference is released at most
once and an operation is called on what the caller has a reference on.
-/

namespace AfbBinder.Locale

open Lib

/-- The arguments of a call of `locale_root_search`. -/
structure Request where
  definition : Option CString
  immediate : Bool

/-- `made` records the request that each search was created for. -/
structure Clients where
  heap : RootHeap
  rootHeld : Nat
  held : Nat → Nat
  made : Nat → Request

inductive Action where
  | addref
  | unref
  | search (allocated : Bool) (request : Request)
  | searchAddref (id : Nat)
  | searchUnref (id : Nat)
  | setDefaultSearch (search : Option Nat)

/-- The reference that `locale_root_search` gives to its caller. -/
def granted (held : Nat → Nat) : Option Nat → Nat → Nat
  | none => held
  | some id => Function.update held id (held id + 1)

namespace Clients

def exec (w : Clients) : Action → Clients
  | .addref => { w with heap := localeRootAddref w.heap, rootHeld := w.rootHeld + 1 }
  | .unref => { w with heap := localeRootUnref w.heap, rootHeld := w.rootHeld - 1 }
  | .search allocated request =>
      let r := localeRootSearch allocated request.definition request.immediate w.heap
      { w with
        heap := r.2
        held := granted w.held r.1
        made := Function.update w.made w.heap.searches.length request }
  | .searchAddref id =>
      { w with heap := localeSearchAddref id w.heap, held := granted w.held (some id) }
  | .searchUnref id =>
      { w with
        heap := localeSearchUnref (some id) w.heap
        held := Function.update w.held id (w.held id - 1) }
  | .setDefaultSearch search => { w with heap := localeRootSetDefaultSearch search w.heap }

def Allowed (w : Clients) : Action → Prop
  | .addref => 0 < w.rootHeld
  | .unref => 0 < w.rootHeld
  | .search _ _ => 0 < w.rootHeld
  | .searchAddref id => 0 < w.held id
  | .searchUnref id => 0 < w.held id
  | .setDefaultSearch search => 0 < w.rootHeld ∧ ∀ id, search = some id → 0 < w.held id

def Step (w : Clients) (act : Action) (w' : Clients) : Prop := w.Allowed act ∧ w' = w.exec act

/-- The caller of `locale_root_create`. -/
def init (container : LocaleContainer) : Clients :=
  { heap := localeRootCreate container
    rootHeld := 1
    held := fun _ => 0
    made := fun _ => ⟨none, false⟩ }

/-- The references on a search: those of the callers, of the recent searches as long as the
root has a caller, and of the default search. -/
def owned (w : Clients) (id : Nat) : Nat :=
  w.held id + (if 0 < w.rootHeld then w.heap.lru.count (some id) else 0) +
    if w.heap.defaultSearch = some id then 1 else 0

structure Inv (w : Clients) : Prop where
  balanced : Balanced w.heap w.owned (if 0 < w.rootHeld then 1 else 0)
  refcount : w.heap.refcount = w.rootHeld
  lru : w.heap.lru.length = lruCount

theorem inv_init (container : LocaleContainer) : Inv (init container) where
  balanced := by
    refine ⟨?_, ?_, rfl, rfl⟩
    · intro id cell hcell
      cases hcell
    · intro id _
      show 0 + (if 0 < 1 then (List.replicate lruCount none).count (some id) else 0) + 0 = 0
      simp [List.count_replicate]
  refcount := rfl
  lru := rfl

variable {w : Clients}

theorem owned_of_rootHeld (h : 0 < w.rootHeld) (id : Nat) :
    w.owned id = w.held id + w.heap.lru.count (some id) +
      if w.heap.defaultSearch = some id then 1 else 0 := by
  rw [owned, if_pos h]

theorem inv_addref (hw : Inv w) (h : 0 < w.rootHeld) : Inv (w.exec .addref) := by
  have hsucc : 0 < w.rootHeld + 1 := Nat.succ_pos _
  have hbalanced := hw.balanced
  rw [if_pos h] at hbalanced
  refine ⟨?_, ?_, hw.lru⟩
  · show Balanced _ _ (if 0 < w.rootHeld + 1 then 1 else 0)
    rw [if_pos hsucc]
    have hsame : Balanced (localeRootAddref w.heap) w.owned 1 := hbalanced.transport rfl rfl rfl
    apply hsame.congr
    intro id
    rw [owned_of_rootHeld h]
    exact owned_of_rootHeld hsucc id
  · show w.heap.refcount + 1 = ((w.rootHeld + 1 : Nat) : Int)
    rw [hw.refcount]
    rfl

/-- The last reference on the root releases the recent searches, then the share of the
callers. -/
theorem inv_unref_last (hw : Inv w) (hone : w.rootHeld = 1) : Inv (w.exec .unref) := by
  have hroot : 0 < w.rootHeld := by omega
  have hcount := hw.refcount
  have hlast : w.heap.refcount - 1 = 0 := by omega
  have hbalanced := hw.balanced
  rw [if_pos hroot] at hbalanced
  let s : RootHeap := { w.heap with refcount := w.heap.refcount - 1 }
  have hs : Balanced s w.owned 1 := hbalanced.transport rfl rfl rfl
  have hreleased := hs.unrefAll w.heap.lru (by
    intro id
    rw [owned_of_rootHeld hroot]
    omega)
  have hint := hreleased.intcount
  have heq : localeRootUnref w.heap =
      internalUnref (w.heap.lru.foldl (fun s search => localeSearchUnref search s) s) := by
    rw [localeRootUnref, if_pos hlast]
  have hkept : Kept s (localeRootUnref w.heap) := by
    rw [heq]
    exact (kept_unrefAll w.heap.lru s).trans (kept_internalUnref _)
  have hend : Balanced (localeRootUnref w.heap)
      (fun id => w.owned id - w.heap.lru.count (some id)) 0 := by
    rw [heq]
    apply balanced_internalUnref hreleased.counted hreleased.freed
    · omega
    · rw [hreleased.destroyed, if_neg (by omega)]
  have hafter : (w.exec .unref).rootHeld = 0 := by
    show w.rootHeld - 1 = 0
    omega
  have hdefault : (localeRootUnref w.heap).defaultSearch = w.heap.defaultSearch :=
    hkept.defaultSearch
  refine ⟨?_, ?_, ?_⟩
  · rw [hafter, if_neg (Nat.lt_irrefl 0)]
    apply hend.congr
    intro id
    rw [owned, hafter, if_neg (Nat.lt_irrefl 0), owned_of_rootHeld hroot]
    show w.held id + 0 + (if (localeRootUnref w.heap).defaultSearch = some id then 1 else 0) = _
    rw [hdefault]
    omega
  · rw [hafter]
    exact hkept.refcount.trans hlast
  · show (localeRootUnref w.heap).lru.length = _
    rw [hkept.lru]
    exact hw.lru

theorem inv_unref (hw : Inv w) (h : 0 < w.rootHeld) : Inv (w.exec .unref) := by
  have hcount := hw.refcount
  rcases Nat.eq_or_lt_of_le h with hone | hmore
  · exact inv_unref_last hw hone.symm
  · have hlast : ¬ w.heap.refcount - 1 = 0 := by omega
    have hheap : localeRootUnref w.heap = { w.heap with refcount := w.heap.refcount - 1 } := by
      rw [localeRootUnref, if_neg hlast]
    have hafter : 0 < (w.exec .unref).rootHeld := by
      show 0 < w.rootHeld - 1
      omega
    have hbalanced := hw.balanced
    rw [if_pos h] at hbalanced
    have hsame : Balanced (localeRootUnref w.heap) w.owned 1 := by
      rw [hheap]
      exact hbalanced.transport rfl rfl rfl
    refine ⟨?_, ?_, ?_⟩
    · rw [if_pos hafter]
      apply hsame.congr
      intro id
      rw [owned_of_rootHeld hafter, owned_of_rootHeld h]
      show w.held id + (localeRootUnref w.heap).lru.count (some id) +
        (if (localeRootUnref w.heap).defaultSearch = some id then 1 else 0) = _
      rw [hheap]
    · show (localeRootUnref w.heap).refcount = ((w.rootHeld - 1 : Nat) : Int)
      rw [hheap]
      show w.heap.refcount - 1 = _
      omega
    · show (localeRootUnref w.heap).lru.length = _
      rw [hheap]
      exact hw.lru

theorem inv_heap {heap : RootHeap} {held : Nat → Nat} {made : Nat → Request} (hw : Inv w)
    (hrefcount : heap.refcount = w.heap.refcount) (hlru : heap.lru.length = lruCount)
    {owned' : Nat → Nat} (hbalanced : Balanced heap owned' (if 0 < w.rootHeld then 1 else 0))
    (howned : ∀ id, held id + (if 0 < w.rootHeld then heap.lru.count (some id) else 0) +
      (if heap.defaultSearch = some id then 1 else 0) = owned' id) :
    Inv { w with heap := heap, held := held, made := made } where
  balanced := hbalanced.congr howned
  refcount := hrefcount.trans hw.refcount
  lru := hlru

theorem inv_kept {heap : RootHeap} {held : Nat → Nat} {made : Nat → Request} (hw : Inv w)
    (hkept : Kept w.heap heap) {owned' : Nat → Nat}
    (hbalanced : Balanced heap owned' (if 0 < w.rootHeld then 1 else 0))
    (howned : ∀ id, held id + w.owned id = owned' id + w.held id) :
    Inv { w with heap := heap, held := held, made := made } := by
  apply inv_heap hw hkept.refcount (by rw [hkept.lru]; exact hw.lru) hbalanced
  intro id
  have hid := howned id
  rw [owned] at hid
  rw [hkept.lru, hkept.defaultSearch]
  omega

theorem held_le_owned (w : Clients) (id : Nat) : w.held id ≤ w.owned id := by
  rw [owned]
  omega

theorem inv_searchAddref (hw : Inv w) {id : Nat} (h : 0 < w.held id) :
    Inv (w.exec (.searchAddref id)) := by
  have hle := held_le_owned w id
  apply inv_kept hw (kept_addref w.heap id) (hw.balanced.addref (by omega))
  intro other
  show Function.update w.held id (w.held id + 1) other + _ = _
  rw [Function.update_apply, Function.update_apply]
  split
  case isTrue heq =>
    subst heq
    omega
  case isFalse => omega

theorem inv_searchUnref (hw : Inv w) {id : Nat} (h : 0 < w.held id) :
    Inv (w.exec (.searchUnref id)) := by
  have hle := held_le_owned w id
  apply inv_kept hw (kept_unref w.heap (some id)) (hw.balanced.unref (by omega))
  intro other
  rw [Function.update_apply, Function.update_apply]
  split
  case isTrue heq =>
    subst heq
    omega
  case isFalse => omega

theorem update_add (f : Nat → Nat) (id n other : Nat) :
    Function.update f id (f id + n) other = f other + if other = id then n else 0 := by
  rw [Function.update_apply]
  split
  case isTrue heq => rw [heq]
  case isFalse => rfl

/-- A search that is found moves to the front of the recent ones. -/
theorem inv_search_found (hw : Inv w) (hroot : 0 < w.rootHeld) {i id : Nat} (hi : i < lruCount)
    (hentry : w.heap.lru.getD i none = some id) (hmem : some id ∈ w.heap.lru)
    (made : Nat → Request) :
    Inv { w with
      heap := localeSearchAddref id (manageLru id i w.heap)
      held := granted w.held (some id)
      made := made } := by
  have hcount : 0 < w.heap.lru.count (some id) := List.count_pos_iff.mpr hmem
  have hpos : 0 < w.owned id := by
    rw [owned_of_rootHeld hroot]
    omega
  have hkept := kept_addref (manageLru id i w.heap) id
  have hmanaged : Balanced (manageLru id i w.heap) w.owned (if 0 < w.rootHeld then 1 else 0) :=
    hw.balanced.transport rfl rfl rfl
  apply inv_heap hw hkept.refcount (by rw [hkept.lru]; exact manageLru_length hw.lru id hi)
    (hmanaged.addref hpos)
  intro other
  have hlru := manageLru_count hw.lru id hi other
  have howned := owned_of_rootHeld hroot other
  rw [hentry] at hlru
  have hdefault : (manageLru id i w.heap).defaultSearch = w.heap.defaultSearch := rfl
  rw [if_pos hroot, hkept.lru, hkept.defaultSearch, hdefault, granted, update_add, update_add]
  by_cases heq : other = id
  · subst heq
    simp only [if_true] at hlru ⊢
    omega
  · simp only [heq, Ne.symm heq, Option.some.injEq, if_false] at hlru ⊢
    omega

/-- A search that is made takes the place of the oldest of the recent ones. -/
theorem inv_search_made (hw : Inv w) (hroot : 0 < w.rootHeld) {cell : SearchCell}
    (hcell : cell.refcount = 1) (made : Nat → Request) :
    Inv { w with
      heap := w.heap.withSearch cell
      held := granted w.held (some w.heap.searches.length)
      made := made } := by
  have hparts := owned_of_rootHeld hroot
  have hin : 2 < w.heap.lru.length := by
    rw [hw.lru]
    decide
  have hold : ∀ id, (w.heap.lru.eraseIdx 2).count (some id) +
      (if w.heap.lru.getD 2 none = some id then 1 else 0) = w.heap.lru.count (some id) :=
    fun id => count_eraseIdx hin (some id)
  obtain ⟨-, hrefcount, hlru, hdefault⟩ := withSearch_kept hw.lru cell
  have hfresh : w.owned w.heap.searches.length = 0 := by
    apply hw.balanced.freed
    rw [RootHeap.search, List.getElem?_eq_none (Nat.le_refl _)]
    rfl
  apply inv_heap hw hrefcount
  · rw [hlru, List.length_cons, List.length_eraseIdx_of_lt hin, hw.lru]
    rfl
  · apply hw.balanced.withSearch (by rw [if_pos hroot]; exact Nat.one_pos) hcell
    intro id
    have hid := hparts id
    have hcount := hold id
    omega
  · intro id
    have hid := hparts id
    have hcount := hold id
    rw [if_pos hroot, hdefault, hlru, List.count_cons, granted, update_add]
    by_cases heq : id = w.heap.searches.length
    · rw [heq] at hid hcount ⊢
      simp only [beq_self_eq_true, if_true]
      omega
    · simp only [heq, Ne.symm heq, beq_iff_eq, Option.some.injEq, if_false]
      omega

theorem inv_search (hw : Inv w) (hroot : 0 < w.rootHeld) (allocated : Bool) (request : Request) :
    Inv (w.exec (.search allocated request)) := by
  simp only [exec]
  rcases localeRootSearch_cases hw.lru allocated request.definition request.immediate with
    ⟨i, id, hi, hentry, hmem, -, hresult⟩ | ⟨-, ⟨-, hresult⟩ | ⟨-, hresult⟩⟩
  · rw [hresult]
    exact inv_search_found hw hroot hi hentry hmem _
  · rw [hresult]
    exact ⟨hw.balanced, hw.refcount, hw.lru⟩
  · rw [hresult]
    exact inv_search_made hw hroot rfl _

/-- The default search takes a reference before the older one loses it. -/
theorem inv_setDefaultSearch (hw : Inv w) (hroot : 0 < w.rootHeld) {search : Option Nat}
    (hsearch : ∀ id, search = some id → 0 < w.held id) :
    Inv (w.exec (.setDefaultSearch search)) := by
  have hparts := owned_of_rootHeld hroot
  -- the references once the new default search has its own
  let owned' : Nat → Nat := fun id => w.owned id + if search = some id then 1 else 0
  obtain ⟨heap, hheap, hbalanced, hrefcount, hlru, hdefault⟩ :
      ∃ heap, localeRootSetDefaultSearch search w.heap =
          localeSearchUnref w.heap.defaultSearch heap ∧
        Balanced heap owned' (if 0 < w.rootHeld then 1 else 0) ∧
        heap.refcount = w.heap.refcount ∧ heap.lru = w.heap.lru ∧ heap.defaultSearch = search := by
    cases search with
    | none =>
        exact ⟨_, rfl, hw.balanced.transport rfl rfl rfl, rfl, rfl, rfl⟩
    | some id =>
        have hkept := kept_addref w.heap id
        have hle := held_le_owned w id
        have hpos := hsearch id rfl
        have hadded := hw.balanced.addref (show 0 < w.owned id by omega)
        refine ⟨_, rfl, ?_, hkept.refcount, hkept.lru, rfl⟩
        have hsame : Balanced (localeSearchAddref id w.heap) owned'
            (if 0 < w.rootHeld then 1 else 0) := by
          apply hadded.congr
          intro other
          rw [update_add]
          show w.owned other + (if some id = some other then 1 else 0) = _
          simp only [Option.some.injEq, eq_comm]
        exact hsame.transport rfl rfl rfl
  have hkept := kept_unref heap w.heap.defaultSearch
  have hreleased := hbalanced.unrefOne w.heap.defaultSearch (by
    intro id
    have hid := hparts id
    show _ ≤ w.owned id + _
    omega)
  simp only [exec]
  rw [hheap]
  apply inv_heap hw (hkept.refcount.trans hrefcount) _ hreleased
  · intro id
    have hid := hparts id
    rw [if_pos hroot, hkept.lru, hkept.defaultSearch, hlru, hdefault]
    show _ = w.owned id + _ - _
    omega
  · rw [hkept.lru, hlru]
    exact hw.lru

theorem inv_step {w' : Clients} {act : Action} (hw : Inv w) (h : Step w act w') : Inv w' := by
  obtain ⟨hallowed, rfl⟩ := h
  cases act with
  | addref => exact inv_addref hw hallowed
  | unref => exact inv_unref hw hallowed
  | search allocated request => exact inv_search hw hallowed allocated request
  | searchAddref id => exact inv_searchAddref hw hallowed
  | searchUnref id => exact inv_searchUnref hw hallowed
  | setDefaultSearch search => exact inv_setDefaultSearch hw hallowed.1 hallowed.2

theorem runs_inv {container : LocaleContainer} {ts : List (Transition Clients Action)}
    (hrun : Runs Step (init container) w ts) : Inv w :=
  hrun.invariant Inv (fun _ _ _ => inv_step) (inv_init container)

/-! ## When the root is destroyed -/

/-- The callers have no reference left. -/
def Released (w : Clients) : Prop := w.rootHeld = 0 ∧ ∀ id, w.held id = 0

/-- The root is destroyed once, and at once when the callers have no reference left. -/
def DestroyedWhenReleased (w : Clients) : Prop :=
  w.heap.destroyed ≤ 1 ∧ (w.heap.destroyed = 1 ↔ w.Released)

theorem occupied_eq_zero (hw : Inv w) :
    Slots.occupied w.heap.searches = 0 ↔ ∀ id, w.owned id = 0 := by
  unfold Slots.occupied
  rw [List.countP_eq_zero]
  constructor
  · intro hnone id
    apply hw.balanced.freed
    cases hcell : w.heap.search id with
    | none => rfl
    | some cell =>
        have hmem := List.mem_of_getElem? (RootHeap.getElem?_of_search hcell)
        exact absurd rfl (hnone _ hmem)
  · intro hnone place hplace hsome
    obtain ⟨cell, rfl⟩ := Option.isSome_iff_exists.mp hsome
    obtain ⟨id, hid⟩ := List.getElem?_of_mem hplace
    have hcell : w.heap.search id = some cell := by
      rw [RootHeap.search, hid]
      rfl
    have hpos := (hw.balanced.counted id cell hcell).2
    have hzero := hnone id
    omega

/-- The root is destroyed exactly when the callers have no reference left and no default
search was set. -/
theorem destroyed_iff (hw : Inv w) :
    w.heap.destroyed ≤ 1 ∧
      (w.heap.destroyed = 1 ↔ w.Released ∧ w.heap.defaultSearch = none) := by
  have hint := hw.balanced.intcount
  have hdestroyed := hw.balanced.destroyed
  have hsearches := occupied_eq_zero hw
  refine ⟨by rw [hdestroyed]; split <;> omega, ?_⟩
  have hgone : w.heap.destroyed = 1 ↔ w.rootHeld = 0 ∧ ∀ id, w.owned id = 0 := by
    rw [hdestroyed, ← hsearches]
    rcases Nat.eq_zero_or_pos w.rootHeld with hroot | hroot
    · rw [hroot, if_neg (Nat.lt_irrefl 0)] at hint
      split <;> omega
    · rw [if_pos hroot] at hint
      split <;> omega
  rw [hgone]
  constructor
  · rintro ⟨hroot, hnone⟩
    have hparts : ∀ id, w.held id = 0 ∧ w.heap.defaultSearch ≠ some id := by
      intro id
      have hid := hnone id
      rw [owned, hroot, if_neg (Nat.lt_irrefl 0)] at hid
      split at hid
      case isTrue => omega
      case isFalse hne => exact ⟨by omega, hne⟩
    exact ⟨⟨hroot, fun id => (hparts id).1⟩,
      Option.eq_none_iff_forall_ne_some.mpr fun id => (hparts id).2⟩
  · rintro ⟨⟨hroot, hnone⟩, hdefault⟩
    refine ⟨hroot, fun id => ?_⟩
    rw [owned, hroot, if_neg (Nat.lt_irrefl 0), hnone id, hdefault]
    rfl

/-- The last reference on the root is released when it has no default search. -/
def ReleasedUnset (t : Transition Clients Action) : Prop :=
  t.action = .unref → t.before.rootHeld = 1 → t.before.heap.defaultSearch = none

theorem localeRootUnref_defaultSearch (s : RootHeap) :
    (localeRootUnref s).defaultSearch = s.defaultSearch := by
  unfold localeRootUnref
  dsimp only
  split
  · rw [(kept_internalUnref _).defaultSearch, (kept_unrefAll _ _).defaultSearch]
  · rfl

/-- The root without callers has the default search that it had at the last release. -/
def DefaultTells (w : Clients) (ts : List (Transition Clients Action)) : Prop :=
  (0 < w.rootHeld → ∀ t ∈ ts, ReleasedUnset t) ∧
    (w.rootHeld = 0 → (w.heap.defaultSearch = none ↔ ∀ t ∈ ts, ReleasedUnset t))

section DefaultTells

variable {w' : Clients} {ts : List (Transition Clients Action)} {t : Transition Clients Action}

theorem forall_snoc : (∀ u ∈ ts ++ [t], ReleasedUnset u) ↔
    (∀ u ∈ ts, ReleasedUnset u) ∧ ReleasedUnset t := by
  rw [List.forall_mem_append, List.forall_mem_singleton]

theorem DefaultTells.root (h : DefaultTells w ts) (ht : ReleasedUnset t) (hroot : 0 < w.rootHeld)
    (hafter : 0 < w'.rootHeld) : DefaultTells w' (ts ++ [t]) := by
  constructor
  · intro _
    exact forall_snoc.mpr ⟨h.1 hroot, ht⟩
  · intro hzero
    omega

theorem DefaultTells.search (h : DefaultTells w ts) (ht : ReleasedUnset t)
    (hroot : w'.rootHeld = w.rootHeld)
    (hdefault : w'.heap.defaultSearch = w.heap.defaultSearch) : DefaultTells w' (ts ++ [t]) := by
  unfold DefaultTells
  rw [hroot, hdefault, forall_snoc]
  constructor
  · intro hpos
    exact ⟨h.1 hpos, ht⟩
  · intro hzero
    exact (h.2 hzero).trans (and_iff_left ht).symm

/-- A release of the root. -/
theorem DefaultTells.unref (h : DefaultTells w ts) (hroot : 0 < w.rootHeld) :
    DefaultTells (w.exec .unref) (ts ++ [⟨w, .unref, w.exec .unref⟩]) := by
  have hafter : (w.exec .unref).rootHeld = w.rootHeld - 1 := rfl
  have hdefault : (w.exec .unref).heap.defaultSearch = w.heap.defaultSearch :=
    localeRootUnref_defaultSearch w.heap
  unfold DefaultTells
  rw [hafter, hdefault, forall_snoc]
  constructor
  · intro hpos
    refine ⟨h.1 hroot, ?_⟩
    intro _ hone
    have hone' : w.rootHeld = 1 := hone
    omega
  · intro hzero
    have hone : w.rootHeld = 1 := by omega
    exact ⟨fun hnone => ⟨h.1 hroot, fun _ _ => hnone⟩, fun hall => hall.2 rfl hone⟩

theorem defaultTells_step {act : Action} (h : DefaultTells w ts) (hstep : Step w act w') :
    DefaultTells w' (ts ++ [⟨w, act, w'⟩]) := by
  obtain ⟨hallowed, rfl⟩ := hstep
  cases act with
  | addref => exact h.root (fun he => Action.noConfusion he) hallowed (Nat.succ_pos _)
  | unref => exact h.unref hallowed
  | search allocated request => exact h.root (fun he => Action.noConfusion he) hallowed hallowed
  | searchAddref id =>
      exact h.search (fun he => Action.noConfusion he) rfl (kept_addref w.heap id).defaultSearch
  | searchUnref id =>
      exact h.search (fun he => Action.noConfusion he) rfl
        (kept_unref w.heap (some id)).defaultSearch
  | setDefaultSearch search =>
      exact h.root (fun he => Action.noConfusion he) hallowed.1 hallowed.1

end DefaultTells

theorem runs_defaultTells {container : LocaleContainer} {ts : List (Transition Clients Action)}
    (hrun : Runs Step (init container) w ts) : DefaultTells w ts :=
  hrun.history DefaultTells (fun _ _ _ _ => defaultTells_step)
    ⟨fun _ _ ht => absurd ht List.not_mem_nil, fun h => absurd h Nat.one_ne_zero⟩

/-- The state that a run reaches, from the condition on its transitions. -/
theorem destroyed_of_unset {container : LocaleContainer} {ts : List (Transition Clients Action)}
    (hrun : Runs Step (init container) w ts) (hunset : ∀ t ∈ ts, ReleasedUnset t) :
    w.DestroyedWhenReleased := by
  obtain ⟨hle, hiff⟩ := destroyed_iff (runs_inv hrun)
  refine ⟨hle, hiff.trans (and_iff_left_of_imp ?_)⟩
  intro hreleased
  exact ((runs_defaultTells hrun).2 hreleased.1).mpr hunset

theorem not_destroyed_of_set {container : LocaleContainer} {ts : List (Transition Clients Action)}
    (hrun : Runs Step (init container) w ts) (hset : ¬ ∀ t ∈ ts, ReleasedUnset t) :
    w.heap.destroyed = 0 := by
  obtain ⟨hle, hiff⟩ := destroyed_iff (runs_inv hrun)
  have hnot : ¬ w.heap.destroyed = 1 := by
    intro hone
    obtain ⟨hreleased, hdefault⟩ := hiff.mp hone
    exact hset (((runs_defaultTells hrun).2 hreleased.1).mp hdefault)
  omega

/-- Over every run of the callers: if no default search is set when the last reference on the
root is released, then in every state the root is destroyed, and once, exactly when the callers
have released all their references.  Otherwise it is never destroyed. -/
theorem root_destroyed_iff {container : LocaleContainer} {ts : List (Transition Clients Action)}
    (hrun : Runs Step (init container) w ts) :
    ((∀ t ∈ ts, ReleasedUnset t) →
        w.DestroyedWhenReleased ∧ ∀ t ∈ ts, t.before.DestroyedWhenReleased) ∧
      (w.Released → (w.DestroyedWhenReleased ↔ ∀ t ∈ ts, ReleasedUnset t)) ∧
      (¬ (∀ t ∈ ts, ReleasedUnset t) → w.heap.destroyed = 0) := by
  refine ⟨?_, ?_, not_destroyed_of_set hrun⟩
  · intro hunset
    refine ⟨destroyed_of_unset hrun hunset, ?_⟩
    intro t ht
    obtain ⟨-, us, hearlier, hbefore⟩ := hrun.mem_spec ht
    exact destroyed_of_unset hbefore (fun u hu => hunset u (hearlier.subset hu))
  · intro hreleased
    refine ⟨?_, destroyed_of_unset hrun⟩
    intro hdestroyed
    by_contra hset
    have hzero := not_destroyed_of_set hrun hset
    have hone := hdestroyed.2.mpr hreleased
    omega

theorem step_exec (act : Action) (h : w.Allowed act) : Step w act (w.exec act) := ⟨h, rfl⟩

/-- A search outlives the last reference on its root, which is destroyed with it. -/
theorem root_destroyed_iff_search :
    ∃ (w : Clients) (ts : List (Transition Clients Action)),
      Runs Step (init LocaleContainer.empty) w ts ∧ ts.length = 3 ∧ w.Released ∧
        w.heap.destroyed = 1 ∧ w.DestroyedWhenReleased := by
  have hrun := ((Runs.single (step_exec (w := init LocaleContainer.empty)
    (.search true ⟨none, false⟩) Nat.one_pos)).snoc (step_exec .unref Nat.one_pos)).snoc
    (step_exec (.searchUnref 0) Nat.one_pos)
  refine ⟨_, _, hrun, rfl, ⟨rfl, ?_⟩, rfl, ?_⟩
  · intro id
    cases id with
    | zero => rfl
    | succ id => rfl
  · apply ((root_destroyed_iff hrun).1 _).1
    refine forall_snoc.mpr ⟨forall_snoc.mpr ⟨?_, fun _ _ => rfl⟩, fun he => Action.noConfusion he⟩
    exact List.forall_mem_singleton.mpr (fun he => Action.noConfusion he)

/-- A root whose default search was set is not destroyed by the release of all references. -/
theorem root_never_destroyed :
    ∃ (w : Clients) (ts : List (Transition Clients Action)),
      Runs Step (init LocaleContainer.empty) w ts ∧ w.Released ∧ w.heap.destroyed = 0 ∧
        ¬ w.DestroyedWhenReleased := by
  have hrun := (((Runs.single (step_exec (w := init LocaleContainer.empty)
    (.search true ⟨none, false⟩) Nat.one_pos)).snoc
    (step_exec (.setDefaultSearch (some 0)) ⟨Nat.one_pos, by rintro id ⟨⟩; exact Nat.one_pos⟩)).snoc
    (step_exec (.searchUnref 0) Nat.one_pos)).snoc (step_exec .unref Nat.one_pos)
  have hreleased : ∀ id, (((((init LocaleContainer.empty).exec (.search true ⟨none, false⟩)).exec
      (.setDefaultSearch (some 0))).exec (.searchUnref 0)).exec .unref).held id = 0 := by
    intro id
    cases id with
    | zero => rfl
    | succ id => rfl
  refine ⟨_, _, hrun, ⟨rfl, hreleased⟩, rfl, ?_⟩
  intro hdestroyed
  exact absurd (hdestroyed.2.mpr ⟨rfl, hreleased⟩) Nat.zero_ne_one

end Clients

end AfbBinder.Locale
