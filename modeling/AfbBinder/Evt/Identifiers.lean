import AfbBinder.Evt.Shape
import Mathlib.Algebra.Group.Int.Defs

/-!
# The identifiers of the events

The counter of the identifiers is a 32-bit integer that wraps.  Until it does, the live
events have identifiers up to the counter; afterwards each candidate is compared with the
identifiers of the live events.  Nothing else than a creation changes an identifier.
-/

namespace AfbBinder.Evt

open Lib

variable {J : Type} {h h' h'' : Heap} {s : Store}

namespace Heap

/-! ## What keeps the identifiers -/

/-- Every event of `h'` is an event of `h`, with its identifier, and the counter is the same. -/
structure SameIds (h h' : Heap) : Prop where
  event : ∀ a e', h'.event a = some e' → ∃ e, h.event a = some e ∧ e.id = e'.id
  counter : h'.eventIdCounter = h.eventIdCounter
  wrapped : h'.eventIdWrapped = h.eventIdWrapped

theorem SameIds.of_event (hevent : h'.event = h.event)
    (hcounter : h'.eventIdCounter = h.eventIdCounter)
    (hwrapped : h'.eventIdWrapped = h.eventIdWrapped) : SameIds h h' where
  event := by
    intro a e' he'
    rw [hevent] at he'
    exact ⟨e', he', rfl⟩
  counter := hcounter
  wrapped := hwrapped

theorem SameIds.refl (h : Heap) : SameIds h h := .of_event rfl rfl rfl

theorem SameIds.trans (hh : SameIds h h') (hh' : SameIds h' h'') : SameIds h h'' where
  event := by
    intro a e'' he''
    rcases hh'.event a e'' he'' with ⟨e', he', hid'⟩
    rcases hh.event a e' he' with ⟨e, he, hid⟩
    exact ⟨e, he, hid.trans hid'⟩
  counter := hh'.counter.trans hh.counter
  wrapped := hh'.wrapped.trans hh.wrapped

theorem SameIds.setEvent {address : Nat} {e e' : EventStruct} (he : h.event address = some e)
    (hid : e.id = e'.id) : SameIds h (h.setEvent address e') where
  event := by
    intro a e'' he''
    change Function.update h.event address (some e') a = some e'' at he''
    rw [Function.update_apply] at he''
    split at he''
    case isTrue heq =>
      cases he''
      exact ⟨e, heq ▸ he, hid⟩
    case isFalse => exact ⟨e'', he'', rfl⟩
  counter := rfl
  wrapped := rfl

theorem SameIds.freeEvent (h : Heap) (address : Nat) :
    SameIds h { h with event := Function.update h.event address none } where
  event := by
    intro a e' he'
    change Function.update h.event address none a = some e' at he'
    rw [Function.update_apply] at he'
    split at he'
    case isTrue => cases he'
    case isFalse => exact ⟨e', he', rfl⟩
  counter := rfl
  wrapped := rfl

theorem unlinkByEvent_sameIds {turns event address : Nat}
    (hrun : h.unlinkByEvent turns event address = some h') : SameIds h h' := by
  rcases Option.bind_eq_some_iff.mp hrun with ⟨e, he, hrun⟩
  rcases Option.bind_eq_some_iff.mp hrun with ⟨⟨watchs, watch⟩, -, hrun⟩
  cases hrun
  have hset : SameIds h (h.setEvent event { e with watchs := watchs }) := .setEvent he rfl
  exact hset.trans (.of_event rfl rfl rfl)

theorem unlinkByListener_sameIds {turns listener address : Nat}
    (hrun : h.unlinkByListener turns listener address = some h') : SameIds h h' := by
  rcases Option.bind_eq_some_iff.mp hrun with ⟨l, -, hrun⟩
  rcases Option.bind_eq_some_iff.mp hrun with ⟨⟨watchs, watch⟩, -, hrun⟩
  cases hrun
  exact .of_event rfl rfl rfl

theorem removeWatch_sameIds {turns address : Nat} {notices : List (Notice J)}
    (hrun : h.removeWatch turns address = some (h', notices)) : SameIds h h' := by
  rcases Option.bind_eq_some_iff.mp hrun with ⟨watch, -, hrun⟩
  rcases Option.bind_eq_some_iff.mp hrun with ⟨evt, -, hrun⟩
  rcases Option.bind_eq_some_iff.mp hrun with ⟨listener, -, hrun⟩
  rcases Option.bind_eq_some_iff.mp hrun with ⟨h₁, hevent, hrun⟩
  rcases Option.bind_eq_some_iff.mp hrun with ⟨h₂, hlistener, hrun⟩
  cases hrun
  have hunlinked := (unlinkByEvent_sameIds hevent).trans (unlinkByListener_sameIds hlistener)
  exact hunlinked.trans (.of_event rfl rfl rfl)

theorem removeWatches_sameIds {watchs : Heap → Option (Option Nat)} {turns left : Nat}
    {notices : List (Notice J)} (hrun : removeWatches watchs turns left h = some (h', notices)) :
    SameIds h h' := by
  induction left generalizing h notices with
  | zero => cases hrun
  | succ left ih =>
      rcases Option.bind_eq_some_iff.mp hrun with ⟨head, -, hrun⟩
      cases head with
      | none =>
          cases hrun
          exact .refl _
      | some address =>
          rcases Option.bind_eq_some_iff.mp hrun with ⟨⟨h₁, removed⟩, hremove, hrun⟩
          rcases Option.bind_eq_some_iff.mp hrun with ⟨⟨h₂, others⟩, hrest, hrun⟩
          cases hrun
          exact (removeWatch_sameIds hremove).trans (ih hrest)

/-- Unlinking from the list of the events changes a field `next` at most. -/
theorem unlinkOrEnd_sameIds {turns target : Nat} {head head' : Option Nat}
    {event event' : Nat → Option EventStruct}
    (hrun : eventNext.unlinkOrEnd turns target head event = some (some (head', event'))) :
    ∀ a e', event' a = some e' → ∃ e, event a = some e ∧ e.id = e'.id := by
  rcases Option.bind_eq_some_iff.mp hrun with ⟨found, -, hrun⟩
  cases found with
  | none => cases hrun
  | some prv =>
      rcases Option.map_eq_some_iff.mp hrun with ⟨written, hwrite, hsame⟩
      cases hsame
      rcases Option.bind_eq_some_iff.mp hwrite with ⟨node, -, hwrite⟩
      intro a e' he'
      cases prv with
      | head =>
          cases hwrite
          exact ⟨e', he', rfl⟩
      | node b =>
          rcases Option.bind_eq_some_iff.mp hwrite with ⟨w, hw, hwrite⟩
          cases hwrite
          rw [Function.update_apply] at he'
          split at he'
          case isTrue heq =>
            cases he'
            exact ⟨w, heq ▸ hw, rfl⟩
          case isFalse => exact ⟨e', he', rfl⟩

theorem evtDestroy_sameIds {turns address : Nat} {notices : List (Notice J)}
    (hrun : h.evtDestroy turns address = some (h', notices)) : SameIds h h' := by
  rcases Option.bind_eq_some_iff.mp hrun with ⟨unlinked, hunlink, hrun⟩
  cases unlinked with
  | none =>
      cases hrun
      exact .refl h
  | some lists =>
      rcases Option.bind_eq_some_iff.mp hrun with ⟨⟨h₁, removed⟩, hremove, hrun⟩
      cases hrun
      have hout : SameIds h { h with events := lists.1, event := lists.2 } :=
        ⟨unlinkOrEnd_sameIds hunlink, rfl, rfl⟩
      exact (hout.trans (removeWatches_sameIds hremove)).trans (.freeEvent h₁ address)

theorem afbEvtListenerUnref_sameIds {turns address : Nat} {notices : List (Notice J)}
    (hrun : h.afbEvtListenerUnref turns address = some (h', notices)) : SameIds h h' := by
  rcases Option.bind_eq_some_iff.mp hrun with ⟨lst, -, hrun⟩
  dsimp only at hrun
  split at hrun
  case isTrue =>
    cases hrun
    exact .of_event rfl rfl rfl
  case isFalse =>
    rcases Option.bind_eq_some_iff.mp hrun with ⟨⟨h₁, removed⟩, hremove, hrun⟩
    rcases Option.bind_eq_some_iff.mp hrun with ⟨⟨listeners, listener⟩, -, hrun⟩
    cases hrun
    have hcount : SameIds h (h.setListener address { lst with refcount := lst.refcount - 1 }) :=
      .of_event rfl rfl rfl
    exact (hcount.trans (removeWatches_sameIds hremove)).trans (.of_event rfl rfl rfl)

theorem activate_sameIds {address event listener : Nat} {out : Int × Heap × List (Notice J)}
    (hrun : afbEvtAddWatch.activate address event listener h = some out) : SameIds h out.2.1 := by
  rcases Option.bind_eq_some_iff.mp hrun with ⟨watch, -, hrun⟩
  rcases Option.bind_eq_some_iff.mp hrun with ⟨evt, -, hrun⟩
  rcases Option.bind_eq_some_iff.mp hrun with ⟨lst, -, hrun⟩
  cases hrun
  exact .of_event rfl rfl rfl

theorem afbEvtAddWatch_sameIds {turns listener : Nat} {event : AfbEvent} {allocated : Option Nat}
    {out : Int × Heap × List (Notice J)}
    (hrun : h.afbEvtAddWatch turns listener event allocated = some out) : SameIds h out.2.1 := by
  rcases Option.bind_eq_some_iff.mp hrun with ⟨lst, -, hrun⟩
  split at hrun
  case isTrue =>
    cases hrun
    exact .refl h
  case isFalse =>
    rcases Option.bind_eq_some_iff.mp hrun with ⟨found, -, hrun⟩
    cases found with
    | some address => exact activate_sameIds hrun
    | none =>
        cases allocated with
        | none =>
            cases hrun
            exact .refl h
        | some address =>
            rcases Option.bind_eq_some_iff.mp hrun with ⟨evt, hevt, hrun⟩
            have hmade := activate_sameIds hrun
            have hset : SameIds h (h.setEvent event.closure { evt with watchs := some address }) :=
              .setEvent hevt rfl
            have hnew : SameIds h (h.withWatch event.closure evt listener lst address) :=
              hset.trans (.of_event rfl rfl rfl)
            exact hnew.trans hmade

theorem afbEvtRemoveWatch_sameIds {turns listener : Nat} {event : AfbEvent}
    {out : Int × Heap × List (Notice J)}
    (hrun : h.afbEvtRemoveWatch turns listener event = some out) : SameIds h out.2.1 := by
  rcases Option.bind_eq_some_iff.mp hrun with ⟨lst, -, hrun⟩
  split at hrun
  case isTrue =>
    cases hrun
    exact .refl h
  case isFalse =>
    rcases Option.bind_eq_some_iff.mp hrun with ⟨found, -, hrun⟩
    cases found with
    | none =>
        cases hrun
        exact .refl h
    | some address =>
        rcases Option.bind_eq_some_iff.mp hrun with ⟨watch, -, hrun⟩
        split at hrun
        case isTrue =>
          cases hrun
          exact .refl h
        case isFalse =>
          rcases Option.bind_eq_some_iff.mp hrun with ⟨evt, -, hrun⟩
          cases hrun
          exact .of_event rfl rfl rfl

/-- No call but the creation of an event touches the identifiers. -/
theorem exec_sameIds {turns : Nat} {action : Action} (hrun : h.exec J turns action = some h')
    (hcreate : ∀ name allocated, action ≠ .createEvent name allocated) : SameIds h h' := by
  cases action with
  | createEvent name allocated => exact absurd rfl (hcreate name allocated)
  | dropEvent event =>
      rcases Option.map_eq_some_iff.mp hrun with ⟨⟨h₁, notices⟩, hcall, rfl⟩
      exact evtDestroy_sameIds hcall
  | listenerCreate itf closure allocated =>
      rcases Option.map_eq_some_iff.mp hrun with ⟨⟨result, h₁⟩, hcall, rfl⟩
      rcases Option.bind_eq_some_iff.mp hcall with ⟨found, -, hcall⟩
      cases found with
      | some address =>
          rcases Option.map_eq_some_iff.mp hcall with ⟨h₂, haddref, hsame⟩
          rcases Option.bind_eq_some_iff.mp haddref with ⟨lst, -, haddref⟩
          cases haddref
          cases hsame
          exact .of_event rfl rfl rfl
      | none =>
          cases allocated with
          | none =>
              cases hcall
              exact .refl h
          | some address =>
              cases hcall
              exact .of_event rfl rfl rfl
  | listenerAddref listener =>
      rcases Option.bind_eq_some_iff.mp hrun with ⟨lst, -, hrun⟩
      cases hrun
      exact .of_event rfl rfl rfl
  | listenerUnref listener =>
      rcases Option.map_eq_some_iff.mp hrun with ⟨⟨h₁, notices⟩, hcall, rfl⟩
      exact afbEvtListenerUnref_sameIds hcall
  | addWatch listener event allocated =>
      rcases Option.map_eq_some_iff.mp hrun with ⟨out, hcall, rfl⟩
      exact afbEvtAddWatch_sameIds hcall
  | removeWatch listener event =>
      rcases Option.map_eq_some_iff.mp hrun with ⟨out, hcall, rfl⟩
      exact afbEvtRemoveWatch_sameIds hcall

/-! ## Distinct identifiers -/

/-- The live events have distinct identifiers, which are positive, and below the counter
until it wraps. -/
structure DistinctIds (h : Heap) : Prop where
  distinct : ∀ a b e e', h.event a = some e → h.event b = some e' → e.id = e'.id → a = b
  positive : ∀ a e, h.event a = some e → 0 < e.id.toInt
  below : h.eventIdWrapped = false → ∀ a e, h.event a = some e →
    e.id.toInt ≤ h.eventIdCounter.toInt
  counter : 0 ≤ h.eventIdCounter.toInt

theorem DistinctIds.init : Heap.init.DistinctIds where
  distinct := fun _ _ _ _ he => nomatch he
  positive := fun _ _ he => nomatch he
  below := fun _ _ _ he => nomatch he
  counter := Int.le_refl 0

theorem DistinctIds.kept (hids : h.DistinctIds) (hh : SameIds h h') : h'.DistinctIds where
  distinct := by
    intro a b e₁ e₂ he₁ he₂ hid
    rcases hh.event a e₁ he₁ with ⟨d₁, hd₁, hid₁⟩
    rcases hh.event b e₂ he₂ with ⟨d₂, hd₂, hid₂⟩
    exact hids.distinct a b d₁ d₂ hd₁ hd₂ (hid₁.trans (hid.trans hid₂.symm))
  positive := by
    intro a e he
    rcases hh.event a e he with ⟨d, hd, hid⟩
    rw [← hid]
    exact hids.positive a d hd
  below := by
    intro hwrapped a e he
    rcases hh.event a e he with ⟨d, hd, hid⟩
    rw [hh.wrapped] at hwrapped
    rw [← hid, hh.counter]
    exact hids.below hwrapped a d hd
  counter := by
    rw [hh.counter]
    exact hids.counter

/-- The events of the store have the identifiers of those in memory. -/
theorem Rep.event_mem (hrep : h.Rep s) (hs : s.Sound) {evt : EvtEvent} (hevt : evt ∈ s.events) :
    ∃ e, h.event evt.address = some e ∧ e.id = evt.id := by
  rcases hrep.event_some (Keyed.search_mem hs.eventAddresses hevt) with ⟨e, he, hid, -⟩
  exact ⟨e, he, hid⟩

theorem DistinctIds.store (hids : h.DistinctIds) (hs : h.Sound s) : s.DistinctIds where
  distinct := by
    have hnodup : s.events.Nodup := List.Pairwise.of_map EvtEvent.address
      (fun _ _ hne heq => hne (congrArg EvtEvent.address heq)) hs.sound.eventAddresses
    apply List.pairwise_map.mpr
    apply hnodup.imp_of_mem
    intro x y hx hy hne hid
    apply hne
    rcases hs.linked.rep.event_mem hs.sound hx with ⟨e, he, hxid⟩
    rcases hs.linked.rep.event_mem hs.sound hy with ⟨e', he', hyid⟩
    have hsame : e.id = e'.id := hxid.trans (hid.trans hyid.symm)
    exact Keyed.key_inj hs.sound.eventAddresses hx hy (hids.distinct _ _ e e' he he' hsame)
  below := by
    intro hwrapped evt hevt
    rcases hs.linked.rep.event_mem hs.sound hevt with ⟨e, he, hid⟩
    rw [← hs.linked.rep.wrapped] at hwrapped
    rw [← hid, ← hs.linked.rep.counter]
    exact hids.below hwrapped _ e he
  counter := by
    rw [← hs.linked.rep.counter]
    exact hids.counter

/-- The counter after an allocation is no identifier of a live event. -/
theorem DistinctIds.allocated (hids : h.DistinctIds) (hs : h.Sound s) {turns : Nat}
    {counter : Int32} {wrapped : Bool}
    (halloc : allocateId turns h turns (h.eventIdCounter, h.eventIdWrapped) =
      some (counter, wrapped)) :
    (∀ a e, h.event a = some e → e.id ≠ counter) ∧ 0 ≤ counter.toInt ∧
      (wrapped = false → ∀ a e, h.event a = some e → e.id.toInt ≤ counter.toInt) := by
  have hmore := allocateId_mono (Nat.le_add_left turns (s.events.length + 1)) h
    (Nat.le_add_left turns (s.events.length + 1)) _ _ halloc
  rw [allocateId_eq hs.linked hs.sound (by omega), hs.linked.rep.counter, hs.linked.rep.wrapped,
    Nat.add_right_comm] at hmore
  rcases eventId_fresh (hids.store hs) hmore with ⟨hnew, hnonneg, hunwrapped⟩
  refine ⟨?_, hnonneg, ?_⟩
  · intro a e he hid
    have hlive := hs.linked.rep.event a
    rw [he, Option.map_some] at hlive
    rcases Option.map_eq_some_iff.mp hlive.symm with ⟨evt, hevt, hview⟩
    have hsame : evt.id = e.id := congrArg Prod.fst hview
    rcases Keyed.search_some hevt with ⟨hmem, -⟩
    exact hnew (List.mem_map.mpr ⟨evt, hmem, hsame.trans hid⟩)
  · intro hwrapped a e he
    rcases hunwrapped hwrapped with ⟨hbefore, hcounter⟩
    rw [← hs.linked.rep.wrapped] at hbefore
    have hle := hids.below hbefore a e he
    rw [hs.linked.rep.counter] at hle
    omega

theorem DistinctIds.add (hids : h.DistinctIds) {address : Nat}
    (hevent : ∀ a e, h'.event a = some e →
      (a = address ∧ e.id = h'.eventIdCounter) ∨ h.event a = some e)
    (hfresh : ∀ a e, h.event a = some e → e.id ≠ h'.eventIdCounter)
    (hpositive : 0 < h'.eventIdCounter.toInt)
    (hbelow : h'.eventIdWrapped = false → ∀ a e, h.event a = some e →
      e.id.toInt ≤ h'.eventIdCounter.toInt) : h'.DistinctIds where
  distinct := by
    intro a b e e' he he' hid
    rcases hevent a e he with ⟨ha, hnewId⟩ | hold
    · rcases hevent b e' he' with ⟨hb, -⟩ | hold'
      · exact ha.trans hb.symm
      · exact absurd (hid.symm.trans hnewId) (hfresh b e' hold')
    · rcases hevent b e' he' with ⟨-, hnewId⟩ | hold'
      · exact absurd (hid.trans hnewId) (hfresh a e hold)
      · exact hids.distinct a b e e' hold hold' hid
  positive := by
    intro a e he
    rcases hevent a e he with ⟨-, hnewId⟩ | hold
    · rw [hnewId]
      exact hpositive
    · exact hids.positive a e hold
  below := by
    intro hwrapped a e he
    rcases hevent a e he with ⟨-, hnewId⟩ | hold
    · exact Int.le_of_eq (congrArg Int32.toInt hnewId)
    · exact hbelow hwrapped a e hold
  counter := Int.le_of_lt hpositive

/-- The creation of an event takes a new identifier. -/
theorem DistinctIds.create (hids : h.DistinctIds) (hs : h.Sound s) {turns : Nat} {name : CString}
    {allocated : Option Nat} {result : Option AfbEvent}
    (hrun : h.afbEvtCreateEvent turns name allocated = some (result, h')) : h'.DistinctIds := by
  rcases Option.bind_eq_some_iff.mp hrun with ⟨⟨counter, wrapped⟩, halloc, hrun⟩
  rcases hids.allocated hs halloc with ⟨hfresh, hnonneg, hbelow⟩
  cases allocated with
  | none =>
      cases hrun
      exact ⟨hids.distinct, hids.positive, hbelow, hnonneg⟩
  | some address =>
      dsimp only at hrun
      split at hrun
      case isFalse => cases hrun
      case isTrue hpositive =>
        cases hrun
        have hevent : ∀ a e, Function.update h.event address
            (some ⟨h.events, none, counter, name⟩) a = some e →
            (a = address ∧ e.id = counter) ∨ h.event a = some e := by
          intro a e he
          rw [Function.update_apply] at he
          split at he
          case isTrue heq =>
            cases he
            exact .inl ⟨heq, rfl⟩
          case isFalse => exact .inr he
        exact hids.add hevent hfresh (Int32.lt_iff_toInt_lt.mp hpositive) hbelow

/-! ## The creation ends -/

/-- The identifiers that the loop tries, one after the other: up to the greatest integer, then
from 1024. -/
theorem iterate_nextEventId {counter : Int32 × Bool} (h : 0 ≤ counter.1.toInt) {i : Nat}
    (hi : counter.1.toInt + i < 2 ^ 32 - 1024) :
    (nextEventId^[i] counter).1.toInt =
      if counter.1.toInt + i < 2 ^ 31 then counter.1.toInt + i
      else counter.1.toInt + i - 2 ^ 31 + 1024 := by
  have hlt := counter.1.toInt_lt
  induction i with
  | zero =>
      rw [if_pos (by simpa using hlt)]
      simp
  | succ i ih =>
      have hprev := ih (by omega)
      have hnonneg : 0 ≤ (nextEventId^[i] counter).1.toInt := by
        rw [hprev]
        split <;> omega
      have hbound := (nextEventId^[i] counter).1.toInt_lt
      rw [Function.iterate_succ_apply', nextEventId]
      split
      case isTrue hwraps =>
        -- the sum is negative when the candidate was the greatest integer
        have hmax : (nextEventId^[i] counter).1.toInt = 2 ^ 31 - 1 := by
          rw [Int32.lt_iff_toInt_lt, Int32.toInt_add] at hwraps
          simp only [Int32.toInt_one, Int32.toInt_zero, Int.bmod_def] at hwraps
          omega
        have hstart : (1024 : Int32).toInt = 1024 := rfl
        rw [hstart]
        rw [hprev] at hmax
        split at hmax <;> split <;> omega
      case isFalse hsucc =>
        rw [toInt_succ hnonneg hsucc]
        rw [hprev] at hnonneg hbound ⊢
        have hsum := toInt_succ (by rw [hprev]; exact hnonneg) hsucc
        have htop := ((nextEventId^[i] counter).1 + 1).toInt_lt
        rw [hsum, hprev] at htop
        split at htop <;> split <;> omega

/-- With fewer live events than there are identifiers from 1024 on, one of these is free. -/
theorem eventId_ends {events : List EvtEvent} {counter : Int32 × Bool} (h : 0 ≤ counter.1.toInt)
    (hfewer : events.length < 2 ^ 31 - 1024) :
    ∃ found, doWhile nextEventId (eventIdUsed events) (events.length + 1) counter = some found := by
  have hlength : (events.map EvtEvent.id).length = events.length := List.length_map _
  rw [← hlength]
  have hlt := counter.1.toInt_lt
  apply @doWhile_ends _ _ _ _ _ Prod.fst
  · intro candidate hused
    unfold eventIdUsed at hused
    exact Keyed.search_isSome.mp (Bool.and_eq_true_iff.mp hused).2
  · intro i hi j hj hsame
    rw [hlength] at hi hj
    have hint := congrArg Int32.toInt hsame
    rw [iterate_nextEventId h (by omega), iterate_nextEventId h (by omega)] at hint
    split at hint <;> split at hint <;> omega

/-- There are fewer live events than the bound. -/
def FewerEvents (h : Heap) (bound : Nat) : Prop :=
  ∀ live : List Nat, live.Nodup → (∀ a ∈ live, (h.event a).isSome) → live.length < bound

theorem FewerEvents.of_subset (live : List Nat) {bound : Nat}
    (hlive : ∀ a, (h.event a).isSome → a ∈ live) (hlt : live.length < bound) :
    h.FewerEvents bound := by
  intro others hnodup hothers
  have hle := hnodup.length_le_of_subset fun a ha => hlive a (hothers a ha)
  omega

theorem FewerEvents.store {bound : Nat} (hfewer : h.FewerEvents bound) (hs : h.Sound s) :
    s.events.length < bound := by
  have hlength : (s.events.map EvtEvent.address).length = s.events.length := List.length_map _
  rw [← hlength]
  apply hfewer _ hs.sound.eventAddresses
  intro a ha
  rcases List.mem_map.mp ha with ⟨evt, hevt, rfl⟩
  rcases hs.linked.rep.event_mem hs.sound hevt with ⟨e, he, -⟩
  rw [he]
  rfl

theorem create_returns (hids : h.DistinctIds) (hs : h.Sound s)
    (hfewer : h.FewerEvents (2 ^ 31 - 1024)) (name : CString) {allocated : Option Nat}
    (hfree : ∀ a, allocated = some a → h.event a = none) :
    ∃ turns result h', h.afbEvtCreateEvent turns name allocated = some (result, h') ∧
      (result = none ↔ allocated = none) := by
  have hstore := hids.store hs
  rcases @eventId_ends _ (s.eventIdCounter, s.eventIdWrapped) hstore.counter
    (hfewer.store hs) with ⟨⟨counter, wrapped⟩, hloop⟩
  have hpositive : 0 < counter := by
    rcases doWhile_iterate hloop with ⟨i, hi⟩
    have hnonneg : 0 ≤ (nextEventId^[i] (s.eventIdCounter, s.eventIdWrapped)).1.toInt := by
      clear hi hloop
      induction i with
      | zero => exact hstore.counter
      | succ i ih =>
          rw [Function.iterate_succ_apply']
          exact nextEventId_nonneg ih
    rw [Function.iterate_succ_apply', nextEventId] at hi
    rw [Int32.lt_iff_toInt_lt]
    split at hi
    case isTrue =>
      cases hi
      decide
    case isFalse hsucc =>
      rw [(Prod.mk.inj hi).1, toInt_succ hnonneg hsucc, Int32.toInt_zero]
      omega
  cases allocated with
  | none =>
      have hcreate : Evt.afbEvtCreateEvent name none s =
          some (none, { s with eventIdCounter := counter, eventIdWrapped := wrapped }) := by
        rw [Evt.afbEvtCreateEvent, hloop]
        rfl
      rcases afbEvtCreateEvent_refines hs.linked hs.sound hfree (Nat.lt_succ_self _) hcreate with
        ⟨h', hrun, -⟩
      exact ⟨_, _, h', hrun, by simp⟩
  | some address =>
      have hcreate : ∃ s', Evt.afbEvtCreateEvent name (some address) s =
          some (some ⟨true, address⟩, s') := by
        rw [Evt.afbEvtCreateEvent, hloop]
        simp only [Option.bind_eq_bind, Option.bind_some, gt_iff_lt, hpositive, if_true]
        exact ⟨_, rfl⟩
      rcases hcreate with ⟨s', hcreate⟩
      rcases afbEvtCreateEvent_refines hs.linked hs.sound hfree (Nat.lt_succ_self _) hcreate with
        ⟨h', hrun, -⟩
      exact ⟨_, _, h', hrun, by simp⟩

/-! ## Runs -/

theorem step_distinctIds {action : Action} (hs : h.Sound s) (hids : h.DistinctIds)
    (hstep : h.Step J action h') : h'.DistinctIds := by
  rcases hstep with ⟨-, turns, hrun⟩
  by_cases hcreate : ∃ name allocated, action = .createEvent name allocated
  · rcases hcreate with ⟨name, allocated, rfl⟩
    rcases Option.map_eq_some_iff.mp hrun with ⟨⟨result, h₁⟩, hcall, rfl⟩
    exact hids.create hs hcall
  · apply hids.kept (exec_sameIds hrun _)
    intro name allocated heq
    exact hcreate ⟨name, allocated, heq⟩

theorem runs_distinctIds {ts : List (Transition Heap Action)}
    (hrun : Runs (Heap.Step J) Heap.init h ts) : (∃ s, h.Sound s) ∧ h.DistinctIds := by
  apply hrun.invariant (fun h => (∃ s, h.Sound s) ∧ h.DistinctIds)
  · intro h action h' hinv hstep
    rcases hinv with ⟨⟨s, hs⟩, hids⟩
    exact ⟨step_sound hs hstep, step_distinctIds hs hids hstep⟩
  · exact ⟨init_sound, .init⟩

end Heap

/-- After any sequence of calls the live events have distinct and positive identifiers, and
while they are few enough the creation of an event returns. -/
theorem event_ids_unique {ts : List (Transition Heap Heap.Action)}
    (hrun : Runs (Heap.Step J) Heap.init h ts) :
    (∀ a b e e', h.event a = some e → h.event b = some e' → e.id = e'.id → a = b) ∧
      (∀ a e, h.event a = some e → 0 < e.id) ∧
      (h.FewerEvents (2 ^ 31 - 1024) → ∀ name allocated,
        h.Allowed (.createEvent name allocated) →
          ∃ turns result h', h.afbEvtCreateEvent turns name allocated = some (result, h') ∧
            (result = none ↔ allocated = none)) := by
  rcases Heap.runs_distinctIds hrun with ⟨⟨s, hs⟩, hids⟩
  refine ⟨hids.distinct, ?_, ?_⟩
  · intro a e he
    exact Int32.lt_iff_toInt_lt.mpr (hids.positive a e he)
  · intro hfewer name allocated hallowed
    exact Heap.create_returns hids hs hfewer name hallowed

/-- Two events are created and the first one is dropped. -/
theorem event_ids_unique_dropped :
    ∃ h ts, Runs (Heap.Step Unit) Heap.init h ts ∧ ts.length = 3 ∧
      (∃ e, h.event 2 = some e ∧ e.id = 2) ∧
      (∀ a b e e', h.event a = some e → h.event b = some e' → e.id = e'.id → a = b) ∧
      ∃ turns result h', h.afbEvtCreateEvent turns ⟨[101], by decide⟩ (some 1) =
        some (some result, h') := by
  have hfirst : Heap.init.Step Unit (.createEvent ⟨[101], by decide⟩ (some 1)) _ :=
    ⟨fun _ hnew => by cases hnew; rfl, 5, rfl⟩
  have hsecond := Runs.snoc (Runs.single hfirst)
    (show Heap.Step Unit _ (.createEvent ⟨[102], by decide⟩ (some 2)) _ from
      ⟨fun _ hnew => by cases hnew; rfl, 5, rfl⟩)
  have hdrop := Runs.snoc hsecond
    (show Heap.Step Unit _ (.dropEvent 1) _ from ⟨rfl, 5, rfl⟩)
  have hunique := event_ids_unique hdrop
  refine ⟨_, _, hdrop, rfl, ⟨_, rfl, rfl⟩, hunique.1, ?_⟩
  have hends := hunique.2.2 (.of_subset [2] ?_ (by decide)) ⟨[101], by decide⟩ (some 1)
    (fun _ hnew => by cases hnew; rfl)
  · rcases hends with ⟨turns, result, h', hcreate, hresult⟩
    cases result with
    | none => cases hresult.mp rfl
    | some result => exact ⟨turns, result, h', hcreate⟩
  · intro a halive
    match a, halive with
    | 2, _ => exact List.mem_singleton.mpr rfl

end AfbBinder.Evt
