import AfbBinder.Evt.Subscription
import AfbBinder.Lib.Counted
import Mathlib.Data.List.Basic

/-!
# The owners of listeners

Each part of the binder that takes events makes its listeners with an interface of its own
and counts its references to them.  The operations on events, watches and the listeners of
others leave these counts alone, and call listeners that are there.
-/

namespace AfbBinder.Evt

open Lib

variable {J : Type} {s s' : Store} {notices : List (Notice J)}

/-- A listener without its watches. -/
structure Base where
  address : Nat
  itf : EvtItf
  closure : Nat
  refcount : Int
deriving DecidableEq, Repr

def Base.entry (base : Base) : Nat × Int := (base.address, base.refcount)

def Listener.base (listener : Listener) : Base :=
  ⟨listener.address, listener.itf, listener.closure, listener.refcount⟩

namespace Store

def bases (s : Store) : List Base := s.listeners.map Listener.base

/-- The store before its first event. -/
theorem sound_empty (counter : Int32) (wrapped : Bool) : Sound ⟨[], [], [], counter, wrapped⟩ := by
  constructor
  · exact List.nodup_nil
  · exact List.nodup_nil
  · exact List.nodup_nil
  · exact List.nodup_nil
  · exact fun _ h => absurd h List.not_mem_nil
  · exact fun _ h => absurd h List.not_mem_nil
  · exact fun _ h => absurd h List.not_mem_nil

theorem event_some {address : Nat} (h : address ∈ s.events.map EvtEvent.address) :
    ∃ evt, s.event? address = some evt :=
  Option.isSome_iff_exists.mp (Keyed.search_isSome.mpr h)

/-- The listeners stay, and those that are called were there. -/
structure Leaves (s s' : Store) (notices : List (Notice J)) : Prop where
  bases : s'.bases = s.bases
  told : ∀ notice ∈ notices, notice.listener ∈ s.bases.map Base.address

theorem bases_addresses (s : Store) : s.bases.map Base.address = s.listeners.map Listener.address := by
  rw [bases, List.map_map]
  rfl

theorem mem_bases {listener : Nat} {lst : Listener} (h : s.listener? listener = some lst) :
    listener ∈ s.bases.map Base.address := by
  rcases Keyed.search_some h with ⟨hmem, rfl⟩
  rw [bases_addresses]
  exact List.mem_map_of_mem hmem

theorem Leaves.refl (s : Store) : s.Leaves s ([] : List (Notice J)) :=
  ⟨rfl, fun _ h => absurd h List.not_mem_nil⟩

theorem Leaves.trans {s'' : Store} {others : List (Notice J)} (h : s.Leaves s' notices)
    (h' : s'.Leaves s'' others) : s.Leaves s'' (notices ++ others) := by
  constructor
  · exact h'.bases.trans h.bases
  · intro notice hnotice
    rcases List.mem_append.mp hnotice with hnotice | hnotice
    · exact h.told notice hnotice
    · rw [← h.bases]
      exact h'.told notice hnotice

theorem relink_bases (s : Store) (event listener : Nat) (eventWatchs listenerWatchs : List Nat)
    (watches : List Watch) :
    (s.relink event eventWatchs listener listenerWatchs watches).bases = s.bases :=
  Keyed.map_modify fun _ => rfl

end Store

theorem told_one {listener : Nat} {p : Prop} [Decidable p] {one : Notice J}
    (hone : one.listener = listener) :
    ∀ notice ∈ (if p then [one] else []), notice.listener = listener := by
  intro notice hnotice
  split at hnotice
  · rw [List.mem_singleton.mp hnotice, hone]
  · exact absurd hnotice List.not_mem_nil

/-- The calls for one listener. -/
structure Alone (listener : Nat) (s s' : Store) (notices : List (Notice J)) : Prop where
  bases : s'.bases = s.bases
  told : ∀ notice ∈ notices, notice.listener = listener

theorem Alone.nil (listener : Nat) (s : Store) : Alone listener s s ([] : List (Notice J)) :=
  ⟨rfl, fun _ h => absurd h List.not_mem_nil⟩

theorem Alone.leaves {listener : Nat} (h : Alone listener s s' notices) {lst : Listener}
    (hlistener : s.listener? listener = some lst) : s.Leaves s' notices := by
  constructor
  · exact h.bases
  · intro notice hnotice
    rw [h.told notice hnotice]
    exact Store.mem_bases hlistener

theorem removeWatch_leaves {address : Nat} (h : removeWatch address s = some (s', notices)) :
    s.Leaves s' notices := by
  simp only [removeWatch, Option.bind_eq_bind, Option.bind_eq_some_iff, Option.some.injEq,
    Prod.mk.injEq] at h
  rcases h with ⟨watch, -, evt, -, lst, hlst, _, -, _, -, rfl, rfl⟩
  exact Alone.leaves ⟨Store.relink_bases .., told_one (Keyed.search_some hlst).2⟩ hlst

theorem removeWatches_leaves {watchs : Store → Option (List Nat)} {turns : Nat}
    (h : removeWatches watchs turns s = some (s', notices)) : s.Leaves s' notices := by
  induction turns generalizing s notices with
  | zero => cases h
  | succ turns ih =>
      rw [removeWatches, Option.bind_eq_bind, Option.bind_eq_some_iff] at h
      rcases h with ⟨list, -, h⟩
      cases list with
      | nil =>
          cases h
          exact Store.Leaves.refl _
      | cons address rest =>
          simp only [Option.bind_eq_bind, Option.bind_eq_some_iff] at h
          rcases h with ⟨⟨s₁, first⟩, hfirst, ⟨s₂, others⟩, hothers, hlast⟩
          cases hlast
          exact (removeWatch_leaves hfirst).trans (ih hothers)

theorem evtDestroy_leaves {address : Nat} (h : evtDestroy address s = some (s', notices)) :
    s.Leaves s' notices := by
  cases hevent : s.event? address with
  | none =>
      simp only [evtDestroy, hevent] at h
      cases h
      exact Store.Leaves.refl s
  | some evt =>
      simp only [evtDestroy, hevent, Option.bind_eq_bind, Option.bind_eq_some_iff] at h
      rcases h with ⟨⟨s₁, all⟩, hall, hlast⟩
      cases hlast
      have hleaves := removeWatches_leaves hall
      exact ⟨hleaves.bases, hleaves.told⟩

theorem pushWatches_told {evt : EvtEvent} {object : Option J} {watchs : List Nat} {result : Nat}
    (h : pushWatches s evt object watchs = some (result, notices)) :
    ∀ notice ∈ notices, notice.listener ∈ s.bases.map Base.address := by
  induction watchs generalizing result notices with
  | nil =>
      cases h
      exact fun _ h => absurd h List.not_mem_nil
  | cons address rest ih =>
      simp only [pushWatches, Option.bind_eq_bind, Option.bind_eq_some_iff] at h
      rcases h with ⟨watch, -, lst, hlst, h⟩
      split at h
      · cases h
      · rw [Option.bind_eq_some_iff] at h
        rcases h with ⟨⟨count, others⟩, hothers, h⟩
        have hrest := ih hothers
        split at h
        · cases h
          intro notice hnotice
          rcases List.mem_cons.mp hnotice with rfl | hnotice
          · show lst.address ∈ _
            rw [(Keyed.search_some hlst).2]
            exact Store.mem_bases hlst
          · exact hrest notice hnotice
        · cases h
          exact hrest

theorem evtPush_leaves {address : Nat} {object : Option J} {result : Nat}
    (h : evtPush address object s = some (result, notices)) : s.Leaves s notices := by
  rw [evtPush, Option.bind_eq_bind, Option.bind_eq_some_iff] at h
  rcases h with ⟨evt, -, h⟩
  exact ⟨rfl, pushWatches_told h⟩

theorem activate_alone {watch : Watch} {evt : EvtEvent} {lst : Listener} {listener : Nat}
    {made : Store} (hlistener : s.listener? listener = some lst) (hmade : made.bases = s.bases)
    (h : activate watch evt lst made = (s', notices)) : Alone listener s s' notices := by
  rcases Prod.mk.inj h with ⟨rfl, rfl⟩
  exact ⟨hmade, told_one (Keyed.search_some hlistener).2⟩

theorem afbEvtAddWatch_alone {listener : Nat} {event : AfbEvent} {allocated : Option Nat} {rc : Int}
    (h : afbEvtAddWatch listener event allocated s = some (rc, s', notices)) :
    Alone listener s s' notices := by
  rw [afbEvtAddWatch, Option.bind_eq_bind, Option.bind_eq_some_iff] at h
  rcases h with ⟨lst, hlst, h⟩
  split at h
  · cases h
    exact Alone.nil listener s
  · rw [Option.bind_eq_bind, Option.bind_eq_some_iff] at h
    rcases h with ⟨found, -, h⟩
    cases found with
    | some watch =>
        simp only [Option.bind_eq_bind, Option.bind_eq_some_iff] at h
        rcases h with ⟨evt, -, h⟩
        exact activate_alone hlst rfl (congrArg Prod.snd (Option.some.inj h))
    | none =>
        cases allocated with
        | none =>
            cases h
            exact Alone.nil listener s
        | some address =>
            simp only [Option.bind_eq_bind, Option.bind_eq_some_iff] at h
            rcases h with ⟨evt, -, h⟩
            exact activate_alone hlst (Store.relink_bases ..)
              (congrArg Prod.snd (Option.some.inj h))

theorem afbEvtRemoveWatch_alone {listener : Nat} {event : AfbEvent} {rc : Int}
    (h : afbEvtRemoveWatch listener event s = some (rc, s', notices)) :
    Alone listener s s' notices := by
  rw [afbEvtRemoveWatch, Option.bind_eq_bind, Option.bind_eq_some_iff] at h
  rcases h with ⟨lst, hlst, h⟩
  split at h
  · cases h
    exact Alone.nil listener s
  · rw [Option.bind_eq_bind, Option.bind_eq_some_iff] at h
    rcases h with ⟨found, -, h⟩
    cases found with
    | none =>
        cases h
        exact Alone.nil listener s
    | some watch =>
        simp only at h
        split at h
        · cases h
          exact Alone.nil listener s
        · simp only [Option.bind_eq_bind, Option.bind_eq_some_iff] at h
          rcases h with ⟨evt, -, h⟩
          cases h
          exact ⟨rfl, told_one (Keyed.search_some hlst).2⟩

theorem afbEvtAddWatch_leaves {listener : Nat} {event : AfbEvent} {allocated : Option Nat} {rc : Int}
    (h : afbEvtAddWatch listener event allocated s = some (rc, s', notices)) :
    s.Leaves s' notices := by
  have halone := afbEvtAddWatch_alone h
  rw [afbEvtAddWatch, Option.bind_eq_bind, Option.bind_eq_some_iff] at h
  rcases h with ⟨lst, hlst, -⟩
  exact halone.leaves hlst

theorem afbEvtRemoveWatch_leaves {listener : Nat} {event : AfbEvent} {rc : Int}
    (h : afbEvtRemoveWatch listener event s = some (rc, s', notices)) : s.Leaves s' notices := by
  have halone := afbEvtRemoveWatch_alone h
  rw [afbEvtRemoveWatch, Option.bind_eq_bind, Option.bind_eq_some_iff] at h
  rcases h with ⟨lst, hlst, -⟩
  exact halone.leaves hlst

/-- A watch on an event that is there is added, or not for want of memory. -/
theorem afbEvtAddWatch_some (h : s.Sound) {lst : Listener} (hlst : lst ∈ s.listeners)
    {event : AfbEvent} (hevent : event.ours = true → event.closure ∈ s.events.map EvtEvent.address)
    (allocated : Option Nat) :
    ∃ rc s' notices, afbEvtAddWatch (J := J) lst.address event allocated s = some (rc, s', notices) := by
  have hlistener : s.listener? lst.address = some lst := Keyed.search_mem h.listenerAddresses hlst
  simp only [afbEvtAddWatch, hlistener, Option.bind_eq_bind, Option.bind_some]
  by_cases hours : (!event.ours || !lst.itf.push) = true
  · rw [if_pos hours]
    exact ⟨-1, s, [], rfl⟩
  · rw [if_neg hours]
    have htrue : event.ours = true := by
      simp only [Bool.or_eq_true, not_or, Bool.not_eq_true', Bool.not_eq_false] at hours
      exact hours.1
    rcases Store.event_some (hevent htrue) with ⟨evt, hevt⟩
    rw [findWatch_eq h hlst event.closure, Option.bind_some]
    split
    · rw [hevt, Option.bind_some]
      exact ⟨_, _, _, rfl⟩
    · exact ⟨_, _, _, rfl⟩
    · rw [hevt, Option.bind_some]
      exact ⟨_, _, _, rfl⟩

theorem afbEvtRemoveWatch_some (h : s.Sound) {lst : Listener} (hlst : lst ∈ s.listeners)
    (event : AfbEvent) :
    ∃ rc s' notices, afbEvtRemoveWatch (J := J) lst.address event s = some (rc, s', notices) := by
  have hlistener : s.listener? lst.address = some lst := Keyed.search_mem h.listenerAddresses hlst
  simp only [afbEvtRemoveWatch, hlistener, Option.bind_eq_bind, Option.bind_some]
  by_cases hours : (!event.ours) = true
  · rw [if_pos hours]
    exact ⟨-1, s, [], rfl⟩
  · rw [if_neg hours, findWatch_eq h hlst event.closure, Option.bind_some]
    cases hsearch : Keyed.search Watch.pair s.watches (lst.address, event.closure) with
    | none => exact ⟨_, _, _, rfl⟩
    | some watch =>
        rcases h.live watch (Keyed.search_some hsearch).1 with ⟨hlive, -⟩
        rcases Store.event_some hlive with ⟨evt, hevt⟩
        simp only
        split
        · exact ⟨_, _, _, rfl⟩
        · rw [hevt, Option.bind_some]
          exact ⟨_, _, _, rfl⟩

/-! ## The counts of the listeners -/

/-- The listener at an address counts its references anew. -/
def recount (address : Nat) (refcount : Int) (bases : List Base) : List Base :=
  bases.map fun base => if base.address = address then { base with refcount } else base

/-- The count of a listener that goes does not matter. -/
theorem filter_recount (address : Nat) (refcount : Int) (bases : List Base) :
    ((recount address refcount bases).filter fun base => base.address ≠ address) =
      bases.filter fun base => base.address ≠ address := by
  induction bases with
  | nil => rfl
  | cons base rest ih =>
      rw [recount, List.map_cons]
      by_cases hsame : base.address = address
      · rw [if_pos hsame, List.filter_cons_of_neg (by simpa using hsame),
          List.filter_cons_of_neg (by simpa using hsame)]
        exact ih
      · rw [if_neg hsame, List.filter_cons_of_pos (by simpa using hsame),
          List.filter_cons_of_pos (by simpa using hsame)]
        exact congrArg (base :: ·) ih

theorem setRefcount_bases (s : Store) (address : Nat) (refcount : Int) :
    (s.setRefcount address refcount).bases = recount address refcount s.bases := by
  rw [Store.bases, Store.setRefcount, Store.bases, recount, Keyed.modify, List.map_map, List.map_map]
  apply List.map_congr_left
  intro lst _
  show Listener.base (if lst.address = address then { lst with refcount } else lst) =
    if lst.address = address then { lst.base with refcount } else lst.base
  split <;> rfl

theorem afbEvtListenerCreate_cases (h : s.Sound) {itf : EvtItf} {closure : Nat}
    {allocated result : Option Nat} (hfresh : ∀ a, allocated = some a → a ∉ s.bases.map Base.address)
    (hcreate : afbEvtListenerCreate itf closure allocated s = (result, s')) :
    s'.Sound ∧
    ((∃ base ∈ s.bases, base.itf = itf ∧ base.closure = closure ∧ result = some base.address ∧
        s' = s.setRefcount base.address (base.refcount + 1)) ∨
      (∀ base ∈ s.bases, base.itf = itf → base.closure ≠ closure) ∧
        (allocated = none ∧ result = none ∧ s' = s ∨
          ∃ a, allocated = some a ∧ result = some a ∧
            s' = { s with listeners := ⟨a, itf, closure, [], 1⟩ :: s.listeners })) := by
  unfold afbEvtListenerCreate at hcreate
  split at hcreate
  · rename_i found hfind
    cases hcreate
    have hsame := List.find?_some hfind
    have hmem := List.mem_of_find?_eq_some hfind
    simp only [decide_eq_true_eq] at hsame
    exact ⟨h.setRefcount _ _, .inl ⟨found.base, List.mem_map_of_mem hmem, hsame.1, hsame.2, rfl, rfl⟩⟩
  · rename_i hnone
    have hnew : ∀ base ∈ s.bases, base.itf = itf → base.closure ≠ closure := by
      intro base hbase hitf hclosure
      rcases List.mem_map.mp hbase with ⟨lst, hlst, rfl⟩
      have hnot := List.find?_eq_none.mp hnone lst hlst
      simp only [decide_eq_true_eq] at hnot
      exact hnot ⟨hitf, hclosure⟩
    cases allocated with
    | none =>
        cases hcreate
        exact ⟨h, .inr ⟨hnew, .inl ⟨rfl, rfl, rfl⟩⟩⟩
    | some a =>
        cases hcreate
        have hunused := hfresh a rfl
        rw [Store.bases_addresses] at hunused
        exact ⟨h.addListener hunused itf closure 1, .inr ⟨hnew, .inr ⟨a, rfl, rfl, rfl⟩⟩⟩

/-- What a listener is told when its watches are removed. -/
def farewell (s : Store) (listener : Nat) : List (Notice J) :=
  (s.watches.filter fun watch => watch.listener = listener).flatMap s.removeNotices

theorem farewell_told (s : Store) (listener : Nat) :
    ∀ notice ∈ (farewell s listener : List (Notice J)), notice.listener = listener := by
  intro notice hnotice
  rcases List.mem_flatMap.mp hnotice with ⟨watch, hwatch, hnotice⟩
  have hlistener : watch.listener = listener := by simpa using (List.mem_filter.mp hwatch).2
  unfold Store.removeNotices at hnotice
  split at hnotice
  · split at hnotice
    · rw [List.mem_singleton.mp hnotice]
      exact hlistener
    · exact absurd hnotice List.not_mem_nil
  · exact absurd hnotice List.not_mem_nil

theorem farewell_setRefcount (s : Store) (address listener : Nat) (refcount : Int) :
    (farewell (s.setRefcount address refcount) listener : List (Notice J)) = farewell s listener := by
  have hroster : (s.setRefcount address refcount).roster = s.roster := Keyed.map_modify fun _ => rfl
  have hsame : ∀ watch, (s.setRefcount address refcount).removeNotices (J := J) watch =
      s.removeNotices watch := removeNotices_congr rfl hroster
  exact List.flatMap_congr fun watch _ => hsame watch

theorem afbEvtListenerUnref_cases (h : s.Sound) {lst : Listener} (hlst : lst ∈ s.listeners) :
    ∃ s' notices, afbEvtListenerUnref (J := J) lst.address s = some (s', notices) ∧ s'.Sound ∧
      s'.catalog = s.catalog ∧
      (if lst.refcount - 1 ≠ 0 then
        s' = s.setRefcount lst.address (lst.refcount - 1) ∧ notices = []
      else s'.bases = (s.bases.filter fun base => base.address ≠ lst.address) ∧
        notices = farewell s lst.address ∧
        ∀ listener event, s'.activity listener event =
          if listener = lst.address then 0 else s.activity listener event) := by
  have hlistener : s.listener? lst.address = some lst := Keyed.search_mem h.listenerAddresses hlst
  have hsound := h.setRefcount lst.address (lst.refcount - 1)
  by_cases hmore : lst.refcount - 1 ≠ 0
  · refine ⟨_, [], ?_, hsound, rfl, ?_⟩
    · simp only [afbEvtListenerUnref, hlistener, Option.bind_eq_bind, Option.bind_some, if_pos hmore]
    · rw [if_pos hmore]
      exact ⟨rfl, rfl⟩
  · have hroster : (s.setRefcount lst.address (lst.refcount - 1)).roster = s.roster :=
      Keyed.map_modify fun _ => rfl
    have hlist : ∀ s' : Store, s'.Sound →
        s'.catalog = (s.setRefcount lst.address (lst.refcount - 1)).catalog →
        s'.roster = (s.setRefcount lst.address (lst.refcount - 1)).roster →
        Store.listenerWatchs lst.address s' = some ((s'.watches.filter fun watch =>
          decide (watch.pair.1 = lst.address)).map Watch.address) := by
      intro s' hs' _ hsame
      have hlive : (lst.address, lst.itf) ∈ s'.roster := by
        rw [hsame, hroster]
        exact List.mem_map.mpr ⟨lst, hlst, rfl⟩
      exact listenerWatchs_eq hs' hlive
    have hturns : ((s.setRefcount lst.address (lst.refcount - 1)).watches.filter fun watch =>
        decide (watch.pair.1 = lst.address)).length = lst.watchs.length := by
      rw [h.byListener lst hlst, Store.watchsOfListener, List.length_map]
      rfl
    rcases removeWatches_spec (J := J) (fun pair => decide (pair.1 = lst.address)) _ hsound hlist
      hturns with ⟨s₁, hrun, hkept⟩
    have hbases := (removeWatches_leaves hrun).bases
    have hunwatched : ∀ watch ∈ s₁.watches, watch.listener ≠ lst.address := by
      intro watch hwatch
      rw [hkept.watches, List.mem_filter] at hwatch
      have hpair : watch.pair.1 ≠ lst.address := by simpa using hwatch.2
      exact hpair
    have hfilter : Store.bases { s₁ with
        listeners := s₁.listeners.filter fun other => other.address ≠ lst.address } =
        s₁.bases.filter fun base => base.address ≠ lst.address := by
      rw [Store.bases, Store.bases, List.filter_map]
      rfl
    have htold := farewell_setRefcount (J := J) s lst.address lst.address (lst.refcount - 1)
    refine ⟨{ s₁ with listeners := s₁.listeners.filter fun other => other.address ≠ lst.address },
      farewell s lst.address, ?_, hkept.sound.dropListener hunwatched, hkept.catalog, ?_⟩
    · rw [← htold]
      simp only [afbEvtListenerUnref, hlistener, Option.bind_eq_bind, Option.bind_some, if_neg hmore,
        hrun]
      rfl
    · rw [if_neg hmore]
      refine ⟨?_, rfl, ?_⟩
      · rw [hfilter, hbases, setRefcount_bases, filter_recount]
      · intro listener event
        have hactivity : s₁.activity listener event =
            if listener = lst.address then 0 else s.activity listener event := by
          have hsame : (s.setRefcount lst.address (lst.refcount - 1)).activity listener event =
              s.activity listener event := rfl
          rw [← hsame]
          simpa using hkept.activity listener event
        exact hactivity

/-! ## The listeners of one interface -/

/-- The listeners of one interface. -/
def Store.ofItf (itf : EvtItf) (s : Store) : List Base := s.bases.filter fun base => base.itf = itf

theorem ofItf_congr (h : s'.bases = s.bases) (itf : EvtItf) : s'.ofItf itf = s.ofItf itf := by
  rw [Store.ofItf, h, Store.ofItf]

theorem mem_ofItf {itf : EvtItf} {base : Base} :
    base ∈ s.ofItf itf ↔ base ∈ s.bases ∧ base.itf = itf := by
  rw [Store.ofItf, List.mem_filter, decide_eq_true_eq]

/-- Counting does not change what a listener is. -/
theorem mem_ofItf_setRefcount {itf : EvtItf} {address : Nat} {refcount : Int} {base' : Base}
    (h : base' ∈ (s.setRefcount address refcount).ofItf itf) :
    ∃ base ∈ s.ofItf itf, base'.address = base.address ∧ base'.closure = base.closure := by
  rcases mem_ofItf.mp h with ⟨hmem, hitf⟩
  rw [setRefcount_bases, recount] at hmem
  rcases List.mem_map.mp hmem with ⟨base, hbase, rfl⟩
  split at hitf
  · rw [if_pos (by assumption)]
    exact ⟨base, mem_ofItf.mpr ⟨hbase, hitf⟩, rfl, rfl⟩
  · rw [if_neg (by assumption)]
    exact ⟨base, mem_ofItf.mpr ⟨hbase, hitf⟩, rfl, rfl⟩

theorem ofItf_recount {itf : EvtItf} {address : Nat} {refcount : Int} {bases : List Base}
    (h : ∀ base ∈ bases, base.address = address → base.itf ≠ itf) :
    ((recount address refcount bases).filter fun base => base.itf = itf) =
      bases.filter fun base => base.itf = itf := by
  induction bases with
  | nil => rfl
  | cons base rest ih =>
      have hrest := ih fun other hother => h other (List.mem_cons_of_mem _ hother)
      rw [recount, List.map_cons]
      by_cases hsame : base.address = address
      · have hother := h base List.mem_cons_self hsame
        rw [if_pos hsame, List.filter_cons_of_neg (by simpa using hother),
          List.filter_cons_of_neg (by simpa using hother)]
        exact hrest
      · rw [if_neg hsame, List.filter_cons, List.filter_cons]
        split
        · exact congrArg (base :: ·) hrest
        · exact hrest

theorem ofItf_filter {itf : EvtItf} {address : Nat} {bases : List Base}
    (h : ∀ base ∈ bases, base.address = address → base.itf ≠ itf) :
    ((bases.filter fun base => base.address ≠ address).filter fun base => base.itf = itf) =
      bases.filter fun base => base.itf = itf := by
  rw [List.filter_filter]
  apply List.filter_congr
  intro base hbase
  by_cases hsame : base.address = address
  · simp [h base hbase hsame]
  · simp [hsame]

theorem Store.Sound.baseAddresses (h : s.Sound) : (s.bases.map Base.address).Nodup := by
  rw [Store.bases_addresses]
  exact h.listenerAddresses

theorem entry_addresses (bases : List Base) :
    (bases.map Base.entry).map Prod.fst = bases.map Base.address := by
  rw [List.map_map]
  rfl

theorem adjust_bases {bases : List Base} (hdistinct : (bases.map Base.address).Nodup)
    {base : Base} (hbase : base ∈ bases) (n : Int) (itf : EvtItf) :
    (((recount base.address (base.refcount + n) bases).filter fun other =>
        other.itf = itf).map Base.entry) =
      Lib.Counted.adjust base.address n ((bases.filter fun other => other.itf = itf).map Base.entry) := by
  have hsame : recount base.address (base.refcount + n) bases = Keyed.modify Base.address base.address
      (fun other => { other with refcount := other.refcount + n }) bases := by
    apply List.map_congr_left
    intro other hother
    split
    · rename_i haddress
      rw [Keyed.key_inj hdistinct hother hbase haddress]
    · rfl
  have hcomm : ((Keyed.modify Base.address base.address
      (fun other => { other with refcount := other.refcount + n }) bases).filter fun other =>
        other.itf = itf) = Keyed.modify Base.address base.address
      (fun other => { other with refcount := other.refcount + n })
        (bases.filter fun other => other.itf = itf) := by
    rw [Keyed.modify, Keyed.modify, List.filter_map]
    congr 1
    apply List.filter_congr
    intro other _
    show decide ((if other.address = base.address then
      { other with refcount := other.refcount + n } else other).itf = itf) = _
    split <;> rfl
  rw [hsame, hcomm]
  apply Lib.Counted.adjust_modify
  · exact fun _ => rfl
  · exact fun _ => rfl

/-- One holder less of a listener of an interface. -/
theorem afbEvtListenerUnref_counted (h : s.Sound) {itf : EvtItf} {listener : Nat}
    {holders holders' : List Nat} (hleaves : Lib.Counted.Leaves holders holders' listener)
    (hcounted : Lib.Counted ((s.ofItf itf).map Base.entry) holders) :
    ∃ s' notices, afbEvtListenerUnref (J := J) listener s = some (s', notices) ∧ s'.Sound ∧
      Lib.Counted ((s'.ofItf itf).map Base.entry) holders' ∧
      (∀ base' ∈ s'.ofItf itf, ∃ base ∈ s.ofItf itf,
        base'.address = base.address ∧ base'.closure = base.closure) ∧
      ∀ notice ∈ notices, notice.listener ∈ s.bases.map Base.address ∧
        notice ∈ (farewell s listener : List (Notice J)) := by
  have hin := (hcounted.held listener).mp hleaves.holds
  rw [entry_addresses] at hin
  rcases List.mem_map.mp hin with ⟨base, hbase, haddress⟩
  rcases mem_ofItf.mp hbase with ⟨hmem, hitf⟩
  rcases List.mem_map.mp hmem with ⟨lst, hlst, rfl⟩
  have hsame : lst.address = listener := haddress
  have hentry : (listener, lst.refcount) ∈ (s.ofItf itf).map Base.entry :=
    List.mem_map.mpr ⟨lst.base, hbase, by rw [← hsame]; rfl⟩
  rcases afbEvtListenerUnref_cases (J := J) h hlst with ⟨s', notices, hunref, hsound, -, hlast⟩
  rw [hsame] at hunref hlast
  refine ⟨s', notices, hunref, hsound, ?_, ?_, ?_⟩
  · split at hlast
    · rename_i hmore
      rw [hlast.1, Store.ofItf, setRefcount_bases, ← hsame]
      have hadjust := adjust_bases h.baseAddresses hmem (-1) itf
      simp only [← Int.sub_eq_add_neg] at hadjust
      show Lib.Counted (((recount lst.base.address (lst.base.refcount - 1) s.bases).filter _).map
        Base.entry) _
      rw [hadjust, show lst.base.address = listener from hsame]
      exact hcounted.unref hleaves hentry hmore
    · rename_i hmore
      have hfilter : ((s'.ofItf itf).map Base.entry) =
          ((s.ofItf itf).map Base.entry).filter fun entry => entry.1 ≠ listener := by
        rw [Store.ofItf, hlast.1, List.filter_comm, List.filter_map]
        rfl
      rw [hfilter]
      exact hcounted.last hleaves hentry (by omega)
  · intro base' hbase'
    split at hlast
    · rw [hlast.1] at hbase'
      exact mem_ofItf_setRefcount hbase'
    · rcases mem_ofItf.mp hbase' with ⟨hmem', hitf'⟩
      rw [hlast.1] at hmem'
      exact ⟨base', mem_ofItf.mpr ⟨(List.mem_filter.mp hmem').1, hitf'⟩, rfl, rfl⟩
  · intro notice hnotice
    split at hlast
    · rw [hlast.2] at hnotice
      exact absurd hnotice List.not_mem_nil
    · rw [hlast.2.1] at hnotice
      rw [farewell_told s listener notice hnotice, ← hsame]
      exact ⟨List.mem_map_of_mem (f := Base.address) hmem, by rw [hsame]; exact hnotice⟩

/-! ## The other parts of the binder -/

/-- The calls of `afb-evt.c`, with the addresses that the allocator gives. -/
inductive Deed (J : Type) where
  | createEvent (name : CString) (allocated : Option Nat)
  | dropEvent (event : Nat)
  | push (event : Nat) (object : Option J)
  | broadcast (event : CString) (object : Option J)
  | broadcastEvent (event : Nat) (object : Option J)
  | addWatch (listener : Nat) (event : AfbEvent) (allocated : Option Nat)
  | removeWatch (listener : Nat) (event : AfbEvent)
  | listenerCreate (itf : EvtItf) (closure : Nat) (allocated : Option Nat)
  | listenerUnref (listener : Nat)

def Deed.exec (s : Store) : Deed J → Option (Store × List (Notice J))
  | .createEvent name allocated => (afbEvtCreateEvent name allocated s).map fun r => (r.2, [])
  | .dropEvent event => evtDestroy event s
  | .push event object => (evtPush event object s).map fun r => (s, r.2)
  | .broadcast event object => some (s, (afbEvtBroadcast event object s).2)
  | .broadcastEvent event object => (evtBroadcast event object s).map fun r => (s, r.2)
  | .addWatch listener event allocated =>
      (afbEvtAddWatch listener event allocated s).map fun r => (r.2.1, r.2.2)
  | .removeWatch listener event => (afbEvtRemoveWatch listener event s).map fun r => (r.2.1, r.2.2)
  | .listenerCreate itf closure allocated => some ((afbEvtListenerCreate itf closure allocated s).2, [])
  | .listenerUnref listener => afbEvtListenerUnref listener s

/-- The allocator gives an address that is free. -/
def Deed.Fresh (s : Store) : Deed J → Prop
  | .createEvent _ allocated => ∀ a, allocated = some a → a ∉ s.events.map EvtEvent.address
  | .addWatch _ _ allocated => ∀ a, allocated = some a → a ∉ s.watches.map Watch.address
  | .listenerCreate _ _ allocated => ∀ a, allocated = some a → a ∉ s.bases.map Base.address
  | _ => True

/-- The listeners of the interface are left to their owner. -/
def Deed.Foreign (itf : EvtItf) (s : Store) : Deed J → Prop
  | .listenerCreate itf' _ _ => itf' ≠ itf
  | .listenerUnref listener => ∀ base ∈ s.bases, base.address = listener → base.itf ≠ itf
  | _ => True

theorem afbEvtBroadcast_leaves (event : CString) (object : Option J) (s : Store) :
    s.Leaves s (afbEvtBroadcast event object s).2 := by
  constructor
  · rfl
  · intro notice hnotice
    rcases List.mem_map.mp hnotice with ⟨lst, hlst, rfl⟩
    rw [Store.bases_addresses]
    exact List.mem_map_of_mem (List.mem_filter.mp hlst).1

theorem afbEvtCreateEvent_leaves (h : s.Sound) {name : CString} {allocated : Option Nat}
    (hfresh : ∀ a, allocated = some a → a ∉ s.events.map EvtEvent.address)
    {result : Option AfbEvent} (hcreate : afbEvtCreateEvent name allocated s = some (result, s')) :
    s'.Sound ∧ s.Leaves s' ([] : List (Notice J)) := by
  rw [afbEvtCreateEvent, Option.bind_eq_bind, Option.bind_eq_some_iff] at hcreate
  rcases hcreate with ⟨⟨counter, wrapped⟩, -, hcreate⟩
  have hcounted : Store.Sound { s with eventIdCounter := counter, eventIdWrapped := wrapped } :=
    ⟨h.watchAddresses, h.pairs, h.eventAddresses, h.listenerAddresses, h.byEvent, h.byListener,
      h.live⟩
  cases allocated with
  | none =>
      cases hcreate
      exact ⟨hcounted, rfl, fun _ hn => absurd hn List.not_mem_nil⟩
  | some address =>
      simp only at hcreate
      split at hcreate
      · cases hcreate
        exact ⟨h.addEvent (hfresh address rfl) counter name counter wrapped, rfl,
          fun _ hn => absurd hn List.not_mem_nil⟩
      · cases hcreate

theorem evtDestroy_sound (h : s.Sound) {event : Nat} (hdestroy : evtDestroy event s = some (s', notices)) :
    s'.Sound := by
  cases hevent : s.event? event with
  | none =>
      have hsame : evtDestroy (J := J) event s = some (s, []) := by simp only [evtDestroy, hevent]
      cases hsame.symm.trans hdestroy
      exact h
  | some evt =>
      rcases Keyed.search_some hevent with ⟨hevt, rfl⟩
      have hentry : (evt.address, evt.id, evt.name) ∈ s.catalog := List.mem_map.mpr ⟨evt, hevt, rfl⟩
      rcases evtDestroy_spec (J := J) h hentry with ⟨_, _, hspec, hsound, -⟩
      cases hspec.symm.trans hdestroy
      exact hsound

/-- The listeners of another interface are not those of the owner. -/
theorem afbEvtListenerCreate_ofItf (h : s.Sound) {itf itf' : EvtItf} (hother : itf' ≠ itf)
    (closure : Nat) {allocated : Option Nat}
    (hfresh : ∀ a, allocated = some a → a ∉ s.bases.map Base.address) :
    (afbEvtListenerCreate itf' closure allocated s).2.Sound ∧
      (afbEvtListenerCreate itf' closure allocated s).2.ofItf itf = s.ofItf itf := by
  have hmade : afbEvtListenerCreate itf' closure allocated s =
    ((afbEvtListenerCreate itf' closure allocated s).1,
      (afbEvtListenerCreate itf' closure allocated s).2) := rfl
  have hcreate := afbEvtListenerCreate_cases h hfresh hmade
  refine ⟨hcreate.1, ?_⟩
  rcases hcreate.2 with ⟨base, hbase, hitf, -, -, hmade⟩ | ⟨-, ⟨-, -, hmade⟩ | ⟨a, -, -, hmade⟩⟩
  · rw [hmade, Store.ofItf, setRefcount_bases, ofItf_recount]
    · rfl
    · intro found hfound haddress hsame
      have heq := Keyed.key_inj h.baseAddresses hfound hbase haddress
      exact hother (hitf.symm.trans (heq ▸ hsame))
  · rw [hmade]
  · rw [hmade]
    have hskip : decide (itf' = itf) = false := decide_eq_false hother
    show List.filter _ (_ :: s.bases) = _
    rw [List.filter_cons_of_neg]
    · rfl
    · rw [show (Listener.base ⟨a, itf', closure, [], 1⟩).itf = itf' from rfl, hskip]
      exact Bool.false_ne_true

theorem afbEvtListenerUnref_ofItf (h : s.Sound) {itf : EvtItf} {listener : Nat}
    (hother : ∀ base ∈ s.bases, base.address = listener → base.itf ≠ itf)
    (hunref : afbEvtListenerUnref listener s = some (s', notices)) :
    s'.Sound ∧ s'.ofItf itf = s.ofItf itf ∧
      ∀ notice ∈ notices, notice.listener ∈ s.bases.map Base.address := by
  cases hlistener : s.listener? listener with
  | none =>
      have hnone : afbEvtListenerUnref (J := J) listener s = none := by
        simp only [afbEvtListenerUnref, hlistener, Option.bind_eq_bind, Option.bind_none]
      cases hnone.symm.trans hunref
  | some lst =>
      have hbase := Store.mem_bases hlistener
      rcases Keyed.search_some hlistener with ⟨hlst, rfl⟩
      rcases afbEvtListenerUnref_cases (J := J) h hlst with ⟨made, told, hspec, hsound, -, hlast⟩
      cases hspec.symm.trans hunref
      refine ⟨hsound, ?_, ?_⟩
      · split at hlast
        · rw [hlast.1, Store.ofItf, setRefcount_bases, ofItf_recount hother]
          rfl
        · rw [Store.ofItf, hlast.1, ofItf_filter hother]
          rfl
      · intro notice hnotice
        split at hlast
        · rw [hlast.2] at hnotice
          exact absurd hnotice List.not_mem_nil
        · rw [hlast.2.1] at hnotice
          rw [farewell_told s lst.address notice hnotice]
          exact hbase

/-- What the other parts do. -/
theorem Deed.exec_foreign (h : s.Sound) {itf : EvtItf} {deed : Deed J} (hfresh : deed.Fresh s)
    (hforeign : deed.Foreign itf s) (hexec : deed.exec s = some (s', notices)) :
    s'.Sound ∧ s'.ofItf itf = s.ofItf itf ∧
      ∀ notice ∈ notices, notice.listener ∈ s.bases.map Base.address := by
  have hquiet : s'.Sound → s.Leaves s' notices → s'.Sound ∧ s'.ofItf itf = s.ofItf itf ∧
      ∀ notice ∈ notices, notice.listener ∈ s.bases.map Base.address := by
    intro hsound hleaves
    exact ⟨hsound, ofItf_congr hleaves.bases itf, hleaves.told⟩
  cases deed with
  | createEvent name allocated =>
      rcases Option.map_eq_some_iff.mp hexec with ⟨⟨event, made⟩, hcreate, hsame⟩
      cases hsame
      have hcreated := afbEvtCreateEvent_leaves (J := J) h hfresh hcreate
      exact hquiet hcreated.1 hcreated.2
  | dropEvent event => exact hquiet (evtDestroy_sound h hexec) (evtDestroy_leaves hexec)
  | push event object =>
      rcases Option.map_eq_some_iff.mp hexec with ⟨⟨count, pushed⟩, hpush, hsame⟩
      cases hsame
      exact hquiet h (evtPush_leaves hpush)
  | broadcast event object =>
      cases hexec
      exact hquiet h (afbEvtBroadcast_leaves event object s)
  | broadcastEvent event object =>
      rcases Option.map_eq_some_iff.mp hexec with ⟨⟨count, told⟩, hbroadcast, hsame⟩
      cases hsame
      rw [evtBroadcast, Option.bind_eq_bind, Option.bind_eq_some_iff] at hbroadcast
      rcases hbroadcast with ⟨evt, -, hbroadcast⟩
      have hleaves := afbEvtBroadcast_leaves evt.name object s
      rw [Option.some.inj hbroadcast] at hleaves
      exact hquiet h hleaves
  | addWatch listener event allocated =>
      rcases Option.map_eq_some_iff.mp hexec with ⟨⟨rc, made, told⟩, hadd, hsame⟩
      cases hsame
      rcases afbEvtAddWatch_becomes h hfresh hadd with ⟨_, hbecomes⟩
      exact hquiet hbecomes.sound (afbEvtAddWatch_leaves hadd)
  | removeWatch listener event =>
      rcases Option.map_eq_some_iff.mp hexec with ⟨⟨rc, made, told⟩, hremove, hsame⟩
      cases hsame
      exact hquiet (afbEvtRemoveWatch_becomes h hremove).2.sound (afbEvtRemoveWatch_leaves hremove)
  | listenerCreate itf' closure allocated =>
      cases hexec
      have hcreated := afbEvtListenerCreate_ofItf h hforeign closure hfresh
      exact ⟨hcreated.1, hcreated.2, fun _ hn => absurd hn List.not_mem_nil⟩
  | listenerUnref listener => exact afbEvtListenerUnref_ofItf h hforeign hexec

end AfbBinder.Evt
