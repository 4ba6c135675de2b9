import AfbBinder.Evt.Graph

/-!
# What the listeners are told

The operations of a sound store as changes of the activity of a listener on an event,
with the calls that each listener gets.
-/

namespace AfbBinder.Evt

open Lib

variable {J : Type} {s s' : Store}

def Notice.listener : Notice J → Nat
  | .push listener _ _ _ => listener
  | .broadcast listener _ _ => listener
  | .add listener _ _ => listener
  | .remove listener _ _ => listener

/-- The calls that a listener gets. -/
def noticesOf (listener : Nat) (notices : List (Notice J)) : List (Notice J) :=
  notices.filter fun notice => notice.listener = listener

theorem Store.Sound.catalog_search (h : s.Sound) {event : Nat} {id : Int32} {name : CString}
    (hmem : (event, id, name) ∈ s.catalog) :
    Keyed.search Prod.fst s.catalog event = some (event, id, name) := by
  have hdistinct : (s.catalog.map Prod.fst).Nodup := by
    simpa [Store.catalog, Function.comp_def] using h.eventAddresses
  exact Keyed.search_mem hdistinct hmem

theorem Store.Sound.roster_search (h : s.Sound) {listener : Nat} {itf : EvtItf}
    (hmem : (listener, itf) ∈ s.roster) :
    Keyed.search Prod.fst s.roster listener = some (listener, itf) := by
  have hdistinct : (s.roster.map Prod.fst).Nodup := by
    simpa [Store.roster, Function.comp_def] using h.listenerAddresses
  exact Keyed.search_mem hdistinct hmem

/-! ## Destroying an event -/

theorem noticesOf_removeNotices (s : Store) (watch : Watch) (listener : Nat) :
    noticesOf listener (s.removeNotices (J := J) watch) =
      if watch.listener = listener then s.removeNotices watch else [] := by
  simp only [noticesOf, Store.removeNotices]
  split
  · split
    · by_cases hsame : watch.listener = listener
      · simp [Notice.listener, hsame]
      · simp [Notice.listener, hsame]
    · simp
  · simp

/-- What one listener gets when each of the watches of an event makes calls to its own
listener. -/
theorem noticesOf_watches (h : s.Sound) {calls : Watch → List (Notice J)}
    (hcalls : ∀ watch listener, noticesOf listener (calls watch) =
      if watch.listener = listener then calls watch else []) (listener event : Nat) :
    noticesOf listener ((s.watches.filter fun watch => watch.event = event).flatMap calls) =
      ((Keyed.search Watch.pair s.watches (listener, event)).map calls).getD [] := by
  have hsub : ((s.watches.filter fun watch => watch.event = event).map Watch.pair).Nodup :=
    h.pairs.sublist (List.filter_sublist.map Watch.pair)
  have hsearch : Keyed.search Watch.pair
      (s.watches.filter fun watch => watch.event = event) (listener, event) =
      Keyed.search Watch.pair s.watches (listener, event) :=
    (Keyed.search_filter fun pair : Nat × Nat => decide (pair.2 = event)).trans
      (if_pos (decide_eq_true rfl))
  rw [← hsearch]
  refine Keyed.filter_flatMap calls _ hsub ?_ ?_
  · intro watch _ hpair
    obtain ⟨hlistener, -⟩ := Prod.mk.inj hpair
    exact (hcalls watch listener).trans (if_pos hlistener)
  · intro watch hw hpair
    have hevent : watch.event = event := by simpa using (List.mem_filter.mp hw).2
    have hne : watch.listener ≠ listener := fun heq => hpair (Prod.ext heq hevent)
    exact (hcalls watch listener).trans (if_neg hne)

/-- The watches of an event by all listeners tell each listener of its own. -/
theorem noticesOf_removed (h : s.Sound) {listener event : Nat} {itf : EvtItf} {id : Int32}
    {name : CString} (hevent : (event, id, name) ∈ s.catalog) (hlistener : (listener, itf) ∈ s.roster) :
    noticesOf listener ((s.watches.filter fun watch => watch.event = event).flatMap
        (s.removeNotices (J := J))) =
      if s.activity listener event ≠ 0 ∧ itf.remove then [.remove listener name id] else [] := by
  rw [noticesOf_watches h (noticesOf_removeNotices s), Store.activity]
  cases hfound : Keyed.search Watch.pair s.watches (listener, event) with
  | none => simp
  | some watch =>
      obtain ⟨-, hpair⟩ := Keyed.search_some hfound
      cases hpair
      simp only [Option.map_some, Option.getD_some, Store.removeNotices, h.catalog_search hevent,
        h.roster_search hlistener]

/-- The events, listeners and identifiers stay, the activities become the given ones. -/
structure Store.Becomes (s : Store) (activity : Nat → Nat → Nat) (s' : Store) : Prop where
  sound : s'.Sound
  catalog : s'.catalog = s.catalog
  roster : s'.roster = s.roster
  counter : s'.eventIdCounter = s.eventIdCounter
  wrapped : s'.eventIdWrapped = s.eventIdWrapped
  activity : ∀ listener event, s'.activity listener event = activity listener event

theorem eventWatchs_eq (h : s.Sound) {event : Nat} {id : Int32} {name : CString}
    (hevent : (event, id, name) ∈ s.catalog) :
    Store.eventWatchs event s = some (s.watchsOfEvent event) := by
  obtain ⟨evt, hevt, hsame⟩ := List.mem_map.mp hevent
  cases hsame
  have hfound : s.event? evt.address = some evt := Keyed.search_mem h.eventAddresses hevt
  rw [Store.eventWatchs, hfound, Option.map_some, h.byEvent evt hevt]

theorem evtDestroy_spec (h : s.Sound) {event : Nat} {id : Int32} {name : CString}
    (hevent : (event, id, name) ∈ s.catalog) :
    ∃ s' notices, evtDestroy (J := J) event s = some (s', notices) ∧ s'.Sound ∧
      s'.catalog = (s.catalog.filter fun entry => entry.1 ≠ event) ∧ s'.roster = s.roster ∧
      s'.eventIdCounter = s.eventIdCounter ∧ s'.eventIdWrapped = s.eventIdWrapped ∧
      (∀ listener other, s'.activity listener other =
        if other = event then 0 else s.activity listener other) ∧
      ∀ listener itf, (listener, itf) ∈ s.roster → noticesOf listener notices =
        if s.activity listener event ≠ 0 ∧ itf.remove then [.remove listener name id] else [] := by
  obtain ⟨evt, hevt, hsame⟩ := List.mem_map.mp hevent
  obtain ⟨haddress, -⟩ := Prod.mk.inj hsame
  have hfound : s.event? event = some evt := haddress ▸ Keyed.search_mem h.eventAddresses hevt
  have hlist : ∀ s' : Store, s'.Sound → s'.catalog = s.catalog → s'.roster = s.roster →
      Store.eventWatchs event s' =
        some ((s'.watches.filter fun watch => decide (watch.pair.2 = event)).map Watch.address) := by
    intro s' hsound hcatalog _
    exact eventWatchs_eq hsound (hcatalog ▸ hevent)
  have hturns : (s.watches.filter fun watch => decide (watch.pair.2 = event)).length =
      evt.watchs.length := by
    rw [h.byEvent evt hevt, haddress, Store.watchsOfEvent, List.length_map]
    rfl
  obtain ⟨s₁, hrun, hkept⟩ := removeWatches_spec (J := J)
    (fun pair => decide (pair.2 = event)) _ h hlist hturns
  have hunwatched : ∀ watch ∈ s₁.watches, watch.event ≠ event := by
    intro watch hw
    rw [hkept.watches, List.mem_filter] at hw
    have hpair : watch.pair.2 ≠ event := by simpa using hw.2
    exact hpair
  refine ⟨{ s₁ with events := s₁.events.filter fun other => other.address ≠ event },
    (s.watches.filter fun watch => watch.event = event).flatMap s.removeNotices, ?_,
    hkept.sound.dropEvent hunwatched, ?_, hkept.roster, hkept.counter, hkept.wrapped, ?_, ?_⟩
  · simp only [evtDestroy, hfound, hrun, Option.bind_eq_bind, Option.bind_some]
    rfl
  · rw [← hkept.catalog, Store.catalog, Store.catalog, List.filter_map]
    rfl
  · intro listener other
    have hactivity : s₁.activity listener other =
        if other = event then 0 else s.activity listener other := by
      simpa using hkept.activity listener other
    exact hactivity
  · intro listener itf hlistener
    exact noticesOf_removed h hevent hlistener

/-! ## Watching -/

/-- The watches may change in what the lists do not show. -/
theorem Store.Sound.setActivity (h : s.Sound) (address activity : Nat) :
    (s.setActivity address activity).Sound := by
  have hsame {β : Type} (view : Watch → β)
      (hview : ∀ watch : Watch, view { watch with activity } = view watch) :
      (s.setActivity address activity).watches.map view = s.watches.map view :=
    Keyed.map_modify hview
  have hfilter {p : Watch → Bool} (hp : ∀ watch : Watch, p { watch with activity } = p watch) :
      ((s.setActivity address activity).watches.filter p).map Watch.address =
        (s.watches.filter p).map Watch.address :=
    Keyed.map_filter_modify hp fun _ => rfl
  refine ⟨?_, ?_, h.eventAddresses, h.listenerAddresses, ?_, ?_, ?_⟩
  · rw [hsame Watch.address fun _ => rfl]
    exact h.watchAddresses
  · rw [hsame Watch.pair fun _ => rfl]
    exact h.pairs
  · intro evt hevt
    exact (h.byEvent evt hevt).trans (hfilter fun _ => rfl).symm
  · intro listener hlistener
    exact (h.byListener listener hlistener).trans (hfilter fun _ => rfl).symm
  · intro watch hw
    rcases Keyed.mem_modify.mp hw with ⟨old, hold, -, rfl⟩ | ⟨hold, -⟩
    · exact h.live old hold
    · exact h.live watch hold

theorem setActivity_becomes (h : s.Sound) {watch : Watch} (hw : watch ∈ s.watches) (activity : Nat) :
    s.Becomes (fun listener event =>
      if (listener, event) = watch.pair then activity else s.activity listener event)
      (s.setActivity watch.address activity) where
  sound := h.setActivity watch.address activity
  catalog := rfl
  roster := rfl
  counter := rfl
  wrapped := rfl
  activity := by
    intro listener event
    have hmodify : (s.setActivity watch.address activity).watches =
        Keyed.modify Watch.pair watch.pair (fun watch => { watch with activity }) s.watches :=
      Keyed.modify_eq_modify h.watchAddresses h.pairs hw
    have hkey : ∀ watch : Watch, Watch.pair { watch with activity } = watch.pair := fun _ => rfl
    rw [Store.activity, hmodify, Keyed.search_modify hkey, Keyed.search_mem h.pairs hw]
    split
    · rfl
    · rfl

theorem findWatch_eq (h : s.Sound) {listener : Listener} (hl : listener ∈ s.listeners)
    (event : Nat) : findWatch s event listener.watchs =
      some (Keyed.search Watch.pair s.watches (listener.address, event)) := by
  have hfind : ∀ watches : List Watch, (∀ watch ∈ watches, watch ∈ s.watches) →
      findWatch s event (watches.map Watch.address) =
        some (watches.find? fun watch => watch.event = event) := by
    intro watches hall
    induction watches with
    | nil => rfl
    | cons watch rest ih =>
        have hwatch? : s.watch? watch.address = some watch :=
          Keyed.search_mem h.watchAddresses (hall watch List.mem_cons_self)
        rw [List.map_cons, findWatch, hwatch?, Option.bind_eq_bind, Option.bind_some]
        by_cases hevent : watch.event = event
        · simp [hevent]
        · rw [if_neg hevent, ih fun other hother => hall other (List.mem_cons_of_mem watch hother)]
          simp [hevent]
  rw [h.byListener listener hl, Store.watchsOfListener,
    hfind _ fun watch hw => (List.mem_filter.mp hw).1, List.find?_filter, Keyed.search]
  congr 2
  funext watch
  simp [Watch.pair, Prod.ext_iff]

theorem activity_of_search {listener event : Nat} {found : Option Watch}
    (h : Keyed.search Watch.pair s.watches (listener, event) = found) :
    s.activity listener event = (found.map Watch.activity).getD 0 := by
  rw [Store.activity, h]

/-- A watch is made for a pair that has none, with no activity yet. -/
theorem Store.Sound.addWatch (h : s.Sound) {listener : Listener} (hl : listener ∈ s.listeners)
    (hpush : listener.itf.push = true) {evt : EvtEvent} (hevt : evt ∈ s.events) {address : Nat}
    (hfresh : address ∉ s.watches.map Watch.address)
    (hnone : (listener.address, evt.address) ∉ s.watches.map Watch.pair) :
    s.Becomes s.activity (s.relink evt.address (address :: evt.watchs) listener.address
      (address :: listener.watchs) (⟨address, evt.address, listener.address, 0⟩ :: s.watches)) := by
  refine ⟨?_, Store.relink_catalog .., Store.relink_roster .., rfl, rfl, ?_⟩
  · have hsound := h.relink evt.address listener.address
      (⟨address, evt.address, listener.address, 0⟩ :: s.watches)
      (List.nodup_cons.mpr ⟨hfresh, h.watchAddresses⟩) (List.nodup_cons.mpr ⟨hnone, h.pairs⟩)
      ?_ ?_ ?_
    · simpa [Store.watchsOfEvent, Store.watchsOfListener, h.byEvent evt hevt,
        h.byListener listener hl] using hsound
    · intro watch hw
      rcases List.mem_cons.mp hw with rfl | hw
      · exact ⟨List.mem_map_of_mem hevt, listener.itf, List.mem_map_of_mem hl, hpush⟩
      · exact h.live watch hw
    · intro event hne
      simp [Store.watchsOfEvent, hne.symm]
    · intro listener' hne
      simp [Store.watchsOfListener, hne.symm]
  · intro listener' event
    have hcons : Store.activity (s.relink evt.address (address :: evt.watchs) listener.address
        (address :: listener.watchs) (⟨address, evt.address, listener.address, 0⟩ :: s.watches))
        listener' event = ((Keyed.search Watch.pair
          (⟨address, evt.address, listener.address, 0⟩ :: s.watches) (listener', event)).map
            Watch.activity).getD 0 := rfl
    rw [hcons, Keyed.search_cons]
    split
    case isTrue hpair =>
      obtain ⟨rfl, rfl⟩ := Prod.mk.inj hpair
      exact (Store.activity_zero hnone).symm
    case isFalse => rfl

/-- `afb_evt_add_watch` raises the activity, and tells the listener of the first. -/
theorem afbEvtAddWatch_spec (h : s.Sound) {listener : Listener} (hl : listener ∈ s.listeners)
    (hpush : listener.itf.push = true) {evt : EvtEvent} (hevt : evt ∈ s.events) {address : Nat}
    (hfresh : address ∉ s.watches.map Watch.address) :
    ∃ s', afbEvtAddWatch (J := J) listener.address ⟨true, evt.address⟩ (some address) s =
        some (0, s', if s.activity listener.address evt.address = 0 ∧ listener.itf.add then
          [.add listener.address evt.name evt.id] else []) ∧
      s.Becomes (fun listener' event => if (listener', event) = (listener.address, evt.address) then
        s.activity listener.address evt.address + 1 else s.activity listener' event) s' := by
  have hlistener? : s.listener? listener.address = some listener :=
    Keyed.search_mem h.listenerAddresses hl
  have hevent? : s.event? evt.address = some evt := Keyed.search_mem h.eventAddresses hevt
  have hfind := findWatch_eq h hl evt.address
  cases hsearch : Keyed.search Watch.pair s.watches (listener.address, evt.address) with
  | some watch =>
      obtain ⟨hw, hpair⟩ := Keyed.search_some hsearch
      have hactivity : s.activity listener.address evt.address = watch.activity :=
        activity_of_search hsearch
      refine ⟨s.setActivity watch.address (watch.activity + 1), ?_, ?_⟩
      · rw [hsearch] at hfind
        simp only [afbEvtAddWatch, hlistener?, hfind, hevent?, hpush, hactivity, activate,
          Option.bind_eq_bind, Option.bind_some, Bool.not_true, Bool.or_self, Bool.false_eq_true,
          if_false]
      · rw [hactivity, ← hpair]
        exact setActivity_becomes h hw (watch.activity + 1)
  | none =>
      have hnone := Keyed.search_none.mp hsearch
      have hactivity := Store.activity_zero hnone
      have hmade := h.addWatch hl hpush hevt hfresh hnone
      have hnew : (⟨address, evt.address, listener.address, 0⟩ : Watch) ∈
          (s.relink evt.address (address :: evt.watchs) listener.address
            (address :: listener.watchs)
            (⟨address, evt.address, listener.address, 0⟩ :: s.watches)).watches :=
        List.mem_cons_self
      have htuned := setActivity_becomes hmade.sound hnew 1
      refine ⟨_, ?_, htuned.sound, htuned.catalog.trans hmade.catalog,
        htuned.roster.trans hmade.roster, htuned.counter.trans hmade.counter,
        htuned.wrapped.trans hmade.wrapped, ?_⟩
      · rw [hsearch] at hfind
        simp only [afbEvtAddWatch, hlistener?, hfind, hevent?, hpush, hactivity, activate,
          Option.bind_eq_bind, Option.bind_some, Bool.not_true, Bool.or_self, Bool.false_eq_true,
          if_false, Nat.zero_add]
      · intro listener' event
        rw [htuned.activity, hactivity, Nat.zero_add]
        split
        case isTrue hpair => exact (if_pos hpair).symm
        case isFalse hpair => exact (hmade.activity listener' event).trans (if_neg hpair).symm

theorem afbEvtAddWatch_cases (h : s.Sound) {listener event address : Nat} {rc : Int}
    {notices : List (Notice J)} (hfresh : address ∉ s.watches.map Watch.address)
    (hadd : afbEvtAddWatch listener ⟨true, event⟩ (some address) s = some (rc, s', notices)) :
    ∃ lst ∈ s.listeners, lst.address = listener ∧
      ((lst.itf.push = false ∧ s' = s ∧ notices = []) ∨
      ∃ evt ∈ s.events, evt.address = event ∧
        (notices = if s.activity listener event = 0 ∧ lst.itf.add then
          [.add listener evt.name evt.id] else []) ∧
        s.Becomes (fun listener' event' => if (listener', event') = (listener, event) then
          s.activity listener event + 1 else s.activity listener' event') s') := by
  cases hlistener : s.listener? listener with
  | none => simp [afbEvtAddWatch, hlistener] at hadd
  | some lst =>
      obtain ⟨hl, rfl⟩ := Keyed.search_some hlistener
      refine ⟨lst, hl, rfl, ?_⟩
      cases hpush : lst.itf.push with
      | false =>
          simp only [afbEvtAddWatch, hlistener, hpush, Option.bind_eq_bind, Option.bind_some,
            Bool.not_true, Bool.not_false, Bool.or_true, if_true] at hadd
          cases hadd
          exact .inl ⟨rfl, rfl, rfl⟩
      | true =>
          right
          cases hevent : s.event? event with
          | some evt =>
              obtain ⟨hevt, rfl⟩ := Keyed.search_some hevent
              obtain ⟨made, hspec, hbecomes⟩ := afbEvtAddWatch_spec (J := J) h hl hpush hevt hfresh
              cases hspec.symm.trans hadd
              exact ⟨evt, hevt, rfl, rfl, hbecomes⟩
          | none =>
              have hfind := findWatch_eq h hl event
              cases hsearch : Keyed.search Watch.pair s.watches (lst.address, event) with
              | none =>
                  rw [hsearch] at hfind
                  simp [afbEvtAddWatch, hlistener, hpush, hfind, hevent] at hadd
              | some watch =>
                  rw [hsearch] at hfind
                  simp [afbEvtAddWatch, hlistener, hpush, hfind, hevent] at hadd

theorem Store.Sound.becomes (h : s.Sound) {activity : Nat → Nat → Nat}
    (hactivity : ∀ listener event, s.activity listener event = activity listener event) :
    s.Becomes activity s :=
  ⟨h, rfl, rfl, rfl, rfl, hactivity⟩

/-- `afb_evt_remove_watch` lowers the activity, and tells the listener of the last. -/
theorem afbEvtRemoveWatch_spec (h : s.Sound) {listener : Listener} (hl : listener ∈ s.listeners)
    {evt : EvtEvent} (hevt : evt ∈ s.events) :
    ∃ rc s', afbEvtRemoveWatch (J := J) listener.address ⟨true, evt.address⟩ s =
        some (rc, s', if s.activity listener.address evt.address = 1 ∧ listener.itf.remove then
          [.remove listener.address evt.name evt.id] else []) ∧
      s.Becomes (fun listener' event => if (listener', event) = (listener.address, evt.address) then
        s.activity listener.address evt.address - 1 else s.activity listener' event) s' := by
  have hlistener? : s.listener? listener.address = some listener :=
    Keyed.search_mem h.listenerAddresses hl
  have hevent? : s.event? evt.address = some evt := Keyed.search_mem h.eventAddresses hevt
  have hfind := findWatch_eq h hl evt.address
  -- without activity nothing changes
  have hsame (hzero : s.activity listener.address evt.address = 0) :
      s.Becomes (fun listener' event => if (listener', event) = (listener.address, evt.address) then
        s.activity listener.address evt.address - 1 else s.activity listener' event) s := by
    apply h.becomes
    intro listener' event
    split
    case isTrue hpair =>
      obtain ⟨rfl, rfl⟩ := Prod.mk.inj hpair
      omega
    case isFalse => rfl
  cases hsearch : Keyed.search Watch.pair s.watches (listener.address, evt.address) with
  | none =>
      rw [hsearch] at hfind
      have hactivity := Store.activity_zero (Keyed.search_none.mp hsearch)
      refine ⟨-1, s, ?_, hsame hactivity⟩
      simp [afbEvtRemoveWatch, hlistener?, hfind, hactivity]
  | some watch =>
      rw [hsearch] at hfind
      obtain ⟨hw, hpair⟩ := Keyed.search_some hsearch
      obtain ⟨-, hevent⟩ := Prod.mk.inj hpair
      have hactivity : s.activity listener.address evt.address = watch.activity :=
        activity_of_search hsearch
      by_cases hzero : watch.activity = 0
      · refine ⟨0, s, ?_, hsame (hactivity.trans hzero)⟩
        simp [afbEvtRemoveWatch, hlistener?, hfind, hactivity, hzero]
      · have hlast : watch.activity - 1 = 0 ↔ watch.activity = 1 := by omega
        refine ⟨0, s.setActivity watch.address (watch.activity - 1), ?_, ?_⟩
        · simp only [afbEvtRemoveWatch, hlistener?, hfind, hevent, hevent?, hactivity, hzero, hlast,
            Option.bind_eq_bind, Option.bind_some, Bool.not_true, Bool.false_eq_true, if_false]
        · rw [hactivity, ← hpair]
          exact setActivity_becomes h hw (watch.activity - 1)

theorem afbEvtRemoveWatch_cases (h : s.Sound) {listener event : Nat} {rc : Int}
    {notices : List (Notice J)}
    (hremove : afbEvtRemoveWatch listener ⟨true, event⟩ s = some (rc, s', notices)) :
    (s' = s ∧ notices = [] ∧ s.activity listener event = 0) ∨
    ∃ lst ∈ s.listeners, lst.address = listener ∧ ∃ evt ∈ s.events, evt.address = event ∧
      (notices = if s.activity listener event = 1 ∧ lst.itf.remove then
        [.remove listener evt.name evt.id] else []) ∧
      s.Becomes (fun listener' event' => if (listener', event') = (listener, event) then
        s.activity listener event - 1 else s.activity listener' event') s' := by
  cases hlistener : s.listener? listener with
  | none => simp [afbEvtRemoveWatch, hlistener] at hremove
  | some lst =>
      obtain ⟨hl, rfl⟩ := Keyed.search_some hlistener
      cases hevent : s.event? event with
      | some evt =>
          obtain ⟨hevt, rfl⟩ := Keyed.search_some hevent
          obtain ⟨rc', made, hspec, hbecomes⟩ := afbEvtRemoveWatch_spec (J := J) h hl hevt
          cases hspec.symm.trans hremove
          exact .inr ⟨lst, hl, rfl, evt, hevt, rfl, rfl, hbecomes⟩
      | none =>
          -- an event that is not there has no watch
          have hunwatched : (lst.address, event) ∉ s.watches.map Watch.pair := by
            intro hmem
            obtain ⟨watch, hw, hpair⟩ := List.mem_map.mp hmem
            obtain ⟨-, rfl⟩ := Prod.mk.inj hpair
            exact Keyed.search_none.mp hevent (h.live watch hw).1
          have hfind := findWatch_eq h hl event
          rw [Keyed.search_none.mpr hunwatched] at hfind
          simp [afbEvtRemoveWatch, hlistener, hfind] at hremove
          exact .inl ⟨hremove.2.1.symm, hremove.2.2, Store.activity_zero hunwatched⟩

/-! ## Pushing -/

/-- What the listener of a watch is pushed. -/
def pushNotices (evt : EvtEvent) (object : Option J) (watch : Watch) : List (Notice J) :=
  if watch.activity ≠ 0 then [.push watch.listener evt.name evt.id object] else []

theorem pushWatches_eq (h : s.Sound) (evt : EvtEvent) (object : Option J) (watches : List Watch)
    (hall : ∀ watch ∈ watches, watch ∈ s.watches) :
    pushWatches s evt object (watches.map Watch.address) =
      some (watches.length, watches.flatMap (pushNotices evt object)) := by
  induction watches with
  | nil => rfl
  | cons watch rest ih =>
      have hrest := ih fun other hother => hall other (List.mem_cons_of_mem watch hother)
      obtain ⟨hwatch?, -, listener, -, haddress, hpush, hlistener?⟩ :=
        h.ends (hall watch List.mem_cons_self)
      simp only [List.map_cons, pushWatches, hwatch?, hlistener?, hpush, hrest, haddress,
        Option.bind_eq_bind, Option.bind_some, Bool.not_true, Bool.false_eq_true, if_false,
        List.length_cons, List.flatMap_cons, pushNotices]
      split
      · rfl
      · rfl

theorem noticesOf_pushNotices (evt : EvtEvent) (object : Option J) (watch : Watch) (listener : Nat) :
    noticesOf listener (pushNotices evt object watch) =
      if watch.listener = listener then pushNotices evt object watch else [] := by
  rw [noticesOf, pushNotices]
  split
  · by_cases hsame : watch.listener = listener
    · simp [Notice.listener, hsame]
    · simp [Notice.listener, hsame]
  · simp

theorem evtPush_eq (h : s.Sound) {evt : EvtEvent} (hevt : evt ∈ s.events) (object : Option J) :
    evtPush evt.address object s =
      some ((s.watches.filter fun watch => watch.event = evt.address).length,
        (s.watches.filter fun watch => watch.event = evt.address).flatMap
          (pushNotices evt object)) := by
  have hevent? : s.event? evt.address = some evt := Keyed.search_mem h.eventAddresses hevt
  rw [evtPush, hevent?, Option.bind_eq_bind, Option.bind_some, h.byEvent evt hevt]
  exact pushWatches_eq h evt object (s.watches.filter fun watch => watch.event = evt.address)
    fun watch hw => (List.mem_filter.mp hw).1

/-- `evt_push` calls the listeners with an activity on the event. -/
theorem evtPush_spec (h : s.Sound) {evt : EvtEvent} (hevt : evt ∈ s.events) (object : Option J) :
    ∃ result notices, evtPush evt.address object s = some (result, notices) ∧
      ∀ listener, noticesOf listener notices =
        if s.activity listener evt.address ≠ 0 then [.push listener evt.name evt.id object] else [] := by
  refine ⟨_, _, evtPush_eq h hevt object, ?_⟩
  intro listener
  rw [noticesOf_watches h (noticesOf_pushNotices evt object), Store.activity]
  cases hfound : Keyed.search Watch.pair s.watches (listener, evt.address) with
  | none => simp
  | some watch =>
      obtain ⟨-, hpair⟩ := Keyed.search_some hfound
      obtain ⟨rfl, -⟩ := Prod.mk.inj hpair
      rfl

/-! ## Creating an event -/

/-- The events have distinct identifiers, which are below the counter until it wraps. -/
structure Store.DistinctIds (s : Store) : Prop where
  distinct : (s.events.map EvtEvent.id).Nodup
  below : s.eventIdWrapped = false → ∀ evt ∈ s.events, evt.id.toInt ≤ s.eventIdCounter.toInt
  counter : 0 ≤ s.eventIdCounter.toInt

theorem toInt_succ {counter : Int32} (h : 0 ≤ counter.toInt) (hsucc : ¬ counter + 1 < 0) :
    (counter + 1).toInt = counter.toInt + 1 := by
  rw [Int32.lt_iff_toInt_lt] at hsucc
  have hlt := counter.toInt_lt
  simp only [Int32.toInt_add, Int32.toInt_one, Int32.toInt_zero, Int.bmod_def] at hsucc ⊢
  omega

theorem nextEventId_nonneg {counter : Int32 × Bool} (h : 0 ≤ counter.1.toInt) :
    0 ≤ (nextEventId counter).1.toInt := by
  rw [nextEventId]
  split
  case isTrue => decide
  case isFalse hsucc =>
    rw [toInt_succ h hsucc]
    omega

/-- As long as the counter has not wrapped, its next value is taken. -/
theorem eventId_unwrapped {events : List EvtEvent} {turns : Nat} {start : Int32 × Bool}
    {counter : Int32}
    (hloop : doWhile nextEventId (eventIdUsed events) (turns + 1) start = some (counter, false)) :
    start.2 = false ∧ ¬ start.1 + 1 < 0 ∧ counter = start.1 + 1 := by
  have hstay : ∀ counter : Int32 × Bool, counter.2 = true → (nextEventId counter).2 = true := by
    intro counter h
    rw [nextEventId]
    split
    · rfl
    · exact h
  rw [doWhile] at hloop
  cases hnext : (nextEventId start).2 with
  | true =>
      split at hloop
      case isTrue =>
        cases doWhile_invariant (fun counter : Int32 × Bool => counter.2 = true) hstay hnext hloop
      case isFalse =>
        rw [Option.some.inj hloop] at hnext
        cases hnext
  | false =>
      have hfree : eventIdUsed events (nextEventId start) = false := by simp [eventIdUsed, hnext]
      rw [hfree, if_neg Bool.false_ne_true] at hloop
      have hsame := Option.some.inj hloop
      rw [nextEventId] at hsame
      split at hsame
      case isTrue => cases hsame
      case isFalse hsucc =>
        obtain ⟨hcounter, hwrapped⟩ := Prod.mk.inj hsame
        exact ⟨hwrapped, hsucc, hcounter.symm⟩

theorem eventId_fresh (h : s.DistinctIds) {turns : Nat} {counter : Int32} {wrapped : Bool}
    (hloop : doWhile nextEventId (eventIdUsed s.events) (turns + 1)
      (s.eventIdCounter, s.eventIdWrapped) = some (counter, wrapped)) :
    counter ∉ s.events.map EvtEvent.id ∧ 0 ≤ counter.toInt ∧
      (wrapped = false → s.eventIdWrapped = false ∧
        counter.toInt = s.eventIdCounter.toInt + 1) := by
  have hnonneg : 0 ≤ counter.toInt :=
    doWhile_invariant (fun counter : Int32 × Bool => 0 ≤ counter.1.toInt)
      (fun _ => nextEventId_nonneg) h.counter hloop
  cases wrapped with
  | true =>
      refine ⟨?_, hnonneg, fun hfalse => by cases hfalse⟩
      have hexit := doWhile_exit hloop
      intro hmem
      rw [eventIdUsed, Keyed.search_isSome.mpr hmem] at hexit
      cases hexit
  | false =>
      obtain ⟨hwrapped, hsucc, rfl⟩ := eventId_unwrapped hloop
      have hint : ((s.eventIdCounter, s.eventIdWrapped).1 + 1).toInt = s.eventIdCounter.toInt + 1 :=
        toInt_succ h.counter hsucc
      refine ⟨?_, hnonneg, fun _ => ⟨hwrapped, hint⟩⟩
      intro hmem
      obtain ⟨evt, hevt, hid⟩ := List.mem_map.mp hmem
      have hle := h.below hwrapped evt hevt
      rw [hid] at hle
      omega

/-- `afb_evt_create_event` at an address that no event has. -/
theorem afbEvtCreateEvent_spec (h : s.Sound) (hids : s.DistinctIds) {name : CString}
    {address : Nat} (hfresh : address ∉ s.events.map EvtEvent.address) {result : Option AfbEvent}
    (hcreate : afbEvtCreateEvent name (some address) s = some (result, s')) :
    ∃ id, s'.Sound ∧ s'.DistinctIds ∧ s'.catalog = (address, id, name) :: s.catalog ∧
      s'.roster = s.roster ∧
      ∀ listener event, s'.activity listener event = s.activity listener event := by
  rw [afbEvtCreateEvent, Option.bind_eq_bind, Option.bind_eq_some_iff] at hcreate
  obtain ⟨⟨counter, wrapped⟩, hloop, hcreate⟩ := hcreate
  obtain ⟨hnew, hnonneg, hunwrapped⟩ := eventId_fresh hids hloop
  simp only at hcreate
  split at hcreate
  case isFalse => cases hcreate
  case isTrue =>
    cases hcreate
    refine ⟨counter, h.addEvent hfresh counter name counter wrapped, ?_, rfl, rfl,
      fun _ _ => rfl⟩
    refine ⟨List.nodup_cons.mpr ⟨hnew, hids.distinct⟩, ?_, hnonneg⟩
    intro hwrapped evt hevt
    obtain ⟨hbefore, hcounter⟩ := hunwrapped hwrapped
    rcases List.mem_cons.mp hevt with rfl | hevt
    · exact Int.le_refl _
    · have hle := hids.below hbefore evt hevt
      simp only
      omega

end AfbBinder.Evt
