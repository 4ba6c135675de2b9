import AfbBinder.Evt.Store

/-!
# The graph of events and listeners

In a sound store the list of watches of an event, and the one of a listener, hold
exactly the watches that refer to it, newest first, and there is at most one watch of an
event by a listener.  What the operations do is told by the activity of each pair.
-/

namespace AfbBinder.Evt

open Lib

variable {J : Type} {s s' : Store}

/-! ## Sound stores -/

def Watch.pair (watch : Watch) : Nat × Nat := (watch.listener, watch.event)

namespace Store

def watchsOfEvent (s : Store) (event : Nat) : List Nat :=
  (s.watches.filter fun watch => watch.event = event).map Watch.address

def watchsOfListener (s : Store) (listener : Nat) : List Nat :=
  (s.watches.filter fun watch => watch.listener = listener).map Watch.address

/-- The events without their watches. -/
def catalog (s : Store) : List (Nat × Int32 × CString) :=
  s.events.map fun evt => (evt.address, evt.id, evt.name)

/-- The listeners without their watches. -/
def roster (s : Store) : List (Nat × EvtItf) :=
  s.listeners.map fun listener => (listener.address, listener.itf)

/-- The ends of a watch are there, and the listener takes pushed events. -/
def Live (s : Store) (watch : Watch) : Prop :=
  watch.event ∈ s.events.map EvtEvent.address ∧
    ∃ itf, (watch.listener, itf) ∈ s.roster ∧ itf.push = true

structure Sound (s : Store) : Prop where
  watchAddresses : (s.watches.map Watch.address).Nodup
  pairs : (s.watches.map Watch.pair).Nodup
  eventAddresses : (s.events.map EvtEvent.address).Nodup
  listenerAddresses : (s.listeners.map Listener.address).Nodup
  byEvent : ∀ evt ∈ s.events, evt.watchs = s.watchsOfEvent evt.address
  byListener : ∀ listener ∈ s.listeners, listener.watchs = s.watchsOfListener listener.address
  live : ∀ watch ∈ s.watches, s.Live watch

/-- The activity of a listener on an event. -/
def activity (s : Store) (listener event : Nat) : Nat :=
  ((Keyed.search Watch.pair s.watches (listener, event)).map Watch.activity).getD 0

/-! ## What the operations leave -/

theorem relink_catalog (event listener : Nat) (eventWatchs listenerWatchs : List Nat)
    (watches : List Watch) (s : Store) :
    (s.relink event eventWatchs listener listenerWatchs watches).catalog = s.catalog :=
  Keyed.map_modify fun _ => rfl

theorem relink_roster (event listener : Nat) (eventWatchs listenerWatchs : List Nat)
    (watches : List Watch) (s : Store) :
    (s.relink event eventWatchs listener listenerWatchs watches).roster = s.roster :=
  Keyed.map_modify fun _ => rfl

theorem catalog_addresses (s : Store) :
    s.catalog.map Prod.fst = s.events.map EvtEvent.address := by
  simp [catalog, Function.comp_def]

theorem roster_addresses (s : Store) :
    s.roster.map Prod.fst = s.listeners.map Listener.address := by
  simp [roster, Function.comp_def]

theorem addresses_of_catalog (h : s'.catalog = s.catalog) :
    s'.events.map EvtEvent.address = s.events.map EvtEvent.address := by
  rw [← catalog_addresses, h, catalog_addresses]

theorem addresses_of_roster (h : s'.roster = s.roster) :
    s'.listeners.map Listener.address = s.listeners.map Listener.address := by
  rw [← roster_addresses, h, roster_addresses]

theorem Live.congr {watch : Watch} (h : s.Live watch) (hcatalog : s'.catalog = s.catalog)
    (hroster : s'.roster = s.roster) : s'.Live watch := by
  rw [Live, addresses_of_catalog hcatalog, hroster]
  exact h

theorem event?_catalog (s : Store) (address : Nat) :
    (s.event? address).map (fun evt => (evt.address, evt.id, evt.name)) =
      Keyed.search Prod.fst s.catalog address := by
  rw [event?, catalog, Keyed.search_map fun _ => rfl]

theorem listener?_roster (s : Store) (address : Nat) :
    (s.listener? address).map (fun listener => (listener.address, listener.itf)) =
      Keyed.search Prod.fst s.roster address := by
  rw [listener?, roster, Keyed.search_map fun _ => rfl]

/-- A sound store stays so when the lists follow the watches. -/
theorem Sound.relink (h : s.Sound) (event listener : Nat) (watches : List Watch)
    (haddresses : (watches.map Watch.address).Nodup) (hpairs : (watches.map Watch.pair).Nodup)
    (hlive : ∀ watch ∈ watches, s.Live watch)
    (hevents : ∀ other ≠ event, { s with watches }.watchsOfEvent other = s.watchsOfEvent other)
    (hlisteners : ∀ other ≠ listener,
      { s with watches }.watchsOfListener other = s.watchsOfListener other) :
    (s.relink event ({ s with watches }.watchsOfEvent event) listener
      ({ s with watches }.watchsOfListener listener) watches).Sound where
  watchAddresses := haddresses
  pairs := hpairs
  eventAddresses := by
    rw [addresses_of_catalog (relink_catalog ..)]
    exact h.eventAddresses
  listenerAddresses := by
    rw [addresses_of_roster (relink_roster ..)]
    exact h.listenerAddresses
  byEvent := by
    intro evt hevt
    rcases Keyed.mem_modify.mp hevt with ⟨old, -, rfl, rfl⟩ | ⟨hold, hne⟩
    · rfl
    · exact (h.byEvent evt hold).trans (hevents _ hne).symm
  byListener := by
    intro lst hlst
    rcases Keyed.mem_modify.mp hlst with ⟨old, -, rfl, rfl⟩ | ⟨hold, hne⟩
    · rfl
    · exact (h.byListener lst hold).trans (hlisteners _ hne).symm
  live := by
    intro watch hw
    exact (hlive watch hw).congr (relink_catalog ..) (relink_roster ..)

theorem activity_zero {listener event : Nat} (h : (listener, event) ∉ s.watches.map Watch.pair) :
    s.activity listener event = 0 := by
  rw [activity, Keyed.search_none.mpr h]
  rfl

/-- The operation keeps the events and the listeners, and the watches of some pairs. -/
structure Kept (keep : Nat × Nat → Bool) (s s' : Store) : Prop where
  sound : s'.Sound
  watches : s'.watches = s.watches.filter fun watch => keep watch.pair
  catalog : s'.catalog = s.catalog
  roster : s'.roster = s.roster
  counter : s'.eventIdCounter = s.eventIdCounter
  wrapped : s'.eventIdWrapped = s.eventIdWrapped

theorem Kept.activity {keep : Nat × Nat → Bool} (h : Kept keep s s') (listener event : Nat) :
    s'.activity listener event = if keep (listener, event) then s.activity listener event else 0 := by
  rw [Store.activity, h.watches, Keyed.search_filter]
  split
  · rfl
  · rfl

end Store

/-! ## Objects come and go -/

theorem Store.Sound.dropEvent (h : s.Sound) {event : Nat}
    (hunwatched : ∀ watch ∈ s.watches, watch.event ≠ event) :
    { s with events := s.events.filter fun evt => evt.address ≠ event }.Sound where
  watchAddresses := h.watchAddresses
  pairs := h.pairs
  eventAddresses := h.eventAddresses.sublist (List.filter_sublist.map EvtEvent.address)
  listenerAddresses := h.listenerAddresses
  byEvent := fun evt hevt => h.byEvent evt (List.mem_filter.mp hevt).1
  byListener := h.byListener
  live := by
    intro watch hw
    obtain ⟨hlive, hlistener⟩ := h.live watch hw
    obtain ⟨evt, hevt, haddress⟩ := List.mem_map.mp hlive
    refine ⟨List.mem_map.mpr ⟨evt, List.mem_filter.mpr ⟨hevt, ?_⟩, haddress⟩, hlistener⟩
    simpa [haddress] using hunwatched watch hw

theorem Store.Sound.dropListener (h : s.Sound) {listener : Nat}
    (hunwatched : ∀ watch ∈ s.watches, watch.listener ≠ listener) :
    { s with listeners := s.listeners.filter fun other => other.address ≠ listener }.Sound where
  watchAddresses := h.watchAddresses
  pairs := h.pairs
  eventAddresses := h.eventAddresses
  listenerAddresses := h.listenerAddresses.sublist (List.filter_sublist.map Listener.address)
  byEvent := h.byEvent
  byListener := fun other hother => h.byListener other (List.mem_filter.mp hother).1
  live := by
    intro watch hw
    obtain ⟨hevent, itf, hlive, hpush⟩ := h.live watch hw
    obtain ⟨lst, hlst, hsame⟩ := List.mem_map.mp hlive
    refine ⟨hevent, itf, List.mem_map.mpr ⟨lst, List.mem_filter.mpr ⟨hlst, ?_⟩, hsame⟩, hpush⟩
    have haddress : lst.address = watch.listener := congrArg Prod.fst hsame
    simpa [haddress] using hunwatched watch hw

theorem Store.Sound.addEvent (h : s.Sound) {address : Nat}
    (hfresh : address ∉ s.events.map EvtEvent.address) (id : Int32) (name : CString)
    (counter : Int32) (wrapped : Bool) :
    { s with
      events := ⟨address, [], id, name⟩ :: s.events
      eventIdCounter := counter
      eventIdWrapped := wrapped }.Sound where
  watchAddresses := h.watchAddresses
  pairs := h.pairs
  eventAddresses := List.nodup_cons.mpr ⟨hfresh, h.eventAddresses⟩
  listenerAddresses := h.listenerAddresses
  byEvent := by
    have hunwatched : ∀ watch ∈ s.watches, watch.event ≠ address := by
      rintro watch hw rfl
      exact hfresh (h.live watch hw).1
    intro evt hevt
    rcases List.mem_cons.mp hevt with rfl | hevt
    · simpa [Store.watchsOfEvent] using hunwatched
    · exact h.byEvent evt hevt
  byListener := h.byListener
  live := by
    intro watch hw
    obtain ⟨hevent, hlistener⟩ := h.live watch hw
    exact ⟨List.mem_cons_of_mem _ hevent, hlistener⟩

theorem Store.Sound.addListener (h : s.Sound) {address : Nat}
    (hfresh : address ∉ s.listeners.map Listener.address) (itf : EvtItf) (closure : Nat)
    (refcount : Int) :
    { s with listeners := ⟨address, itf, closure, [], refcount⟩ :: s.listeners }.Sound where
  watchAddresses := h.watchAddresses
  pairs := h.pairs
  eventAddresses := h.eventAddresses
  listenerAddresses := List.nodup_cons.mpr ⟨hfresh, h.listenerAddresses⟩
  byEvent := h.byEvent
  byListener := by
    have hunwatched : ∀ watch ∈ s.watches, watch.listener ≠ address := by
      rintro watch hw rfl
      obtain ⟨-, itf, hlive, -⟩ := h.live watch hw
      rw [← Store.roster_addresses] at hfresh
      exact hfresh (List.mem_map_of_mem (f := Prod.fst) hlive)
    intro lst hlst
    rcases List.mem_cons.mp hlst with rfl | hlst
    · simpa [Store.watchsOfListener] using hunwatched
    · exact h.byListener lst hlst
  live := by
    intro watch hw
    obtain ⟨hevent, itf, hlive, hpush⟩ := h.live watch hw
    exact ⟨hevent, itf, List.mem_cons_of_mem _ hlive, hpush⟩

/-- The counts of references play no part in the graph. -/
theorem Store.Sound.setRefcount (h : s.Sound) (address : Nat) (refcount : Int) :
    (s.setRefcount address refcount).Sound := by
  have hroster : (s.setRefcount address refcount).roster = s.roster :=
    Keyed.map_modify fun _ => rfl
  refine ⟨h.watchAddresses, h.pairs, h.eventAddresses, ?_, h.byEvent, ?_, ?_⟩
  · rw [Store.addresses_of_roster hroster]
    exact h.listenerAddresses
  · intro lst hlst
    rcases Keyed.mem_modify.mp hlst with ⟨old, hold, -, rfl⟩ | ⟨hold, -⟩
    · exact h.byListener old hold
    · exact h.byListener lst hold
  · intro watch hw
    exact (h.live watch hw).congr rfl hroster

/-! ## Removing watches -/

/-- What a listener is told when a watch of its is removed. -/
def Store.removeNotices (s : Store) (watch : Watch) : List (Notice J) :=
  match Keyed.search Prod.fst s.catalog watch.event, Keyed.search Prod.fst s.roster watch.listener with
  | some (_, id, name), some (_, itf) =>
      if watch.activity ≠ 0 ∧ itf.remove then [.remove watch.listener name id] else []
  | _, _ => []

theorem Store.Sound.ends (h : s.Sound) {watch : Watch} (hw : watch ∈ s.watches) :
    s.watch? watch.address = some watch ∧
    (∃ evt ∈ s.events, evt.address = watch.event ∧ s.event? watch.event = some evt) ∧
    ∃ listener ∈ s.listeners, listener.address = watch.listener ∧
      listener.itf.push = true ∧ s.listener? watch.listener = some listener := by
  obtain ⟨hevent, itf, hitf, hpush⟩ := h.live watch hw
  obtain ⟨evt, hevt, haddress⟩ := List.mem_map.mp hevent
  obtain ⟨listener, hlst, hsame⟩ := List.mem_map.mp hitf
  obtain ⟨haddress', rfl⟩ := Prod.mk.inj hsame
  refine ⟨Keyed.search_mem h.watchAddresses hw, ⟨evt, hevt, haddress, ?_⟩,
    ⟨listener, hlst, haddress', hpush, ?_⟩⟩
  · exact haddress ▸ Keyed.search_mem h.eventAddresses hevt
  · exact haddress' ▸ Keyed.search_mem h.listenerAddresses hlst

theorem removeWatch_eq (h : s.Sound) {watch : Watch} (hw : watch ∈ s.watches) {evt : EvtEvent}
    (hevent? : s.event? watch.event = some evt) {listener : Listener}
    (hlistener? : s.listener? watch.listener = some listener) :
    removeWatch (J := J) watch.address s =
      some (s.relink watch.event (evt.watchs.erase watch.address) watch.listener
        (listener.watchs.erase watch.address) (s.watches.erase watch), s.removeNotices watch) := by
  obtain ⟨hevt, haddress⟩ := Keyed.search_some hevent?
  obtain ⟨hlst, haddress'⟩ := Keyed.search_some hlistener?
  have hwatch? : s.watch? watch.address = some watch := Keyed.search_mem h.watchAddresses hw
  have hunlink : Keyed.unlink watch.address evt.watchs = some (evt.watchs.erase watch.address) := by
    apply Keyed.unlink_mem
    rw [h.byEvent evt hevt]
    exact List.mem_map.mpr ⟨watch, List.mem_filter.mpr ⟨hw, by simp [haddress]⟩, rfl⟩
  have hunlink' : Keyed.unlink watch.address listener.watchs =
      some (listener.watchs.erase watch.address) := by
    apply Keyed.unlink_mem
    rw [h.byListener listener hlst]
    exact List.mem_map.mpr ⟨watch, List.mem_filter.mpr ⟨hw, by simp [haddress']⟩, rfl⟩
  simp only [removeWatch, hwatch?, hevent?, hlistener?, hunlink, hunlink', Option.bind_eq_bind,
    Option.bind_some, Store.removeNotices, ← Store.event?_catalog, ← Store.listener?_roster,
    Option.map_some, haddress, haddress']

theorem removeWatch_spec (h : s.Sound) {watch : Watch} (hw : watch ∈ s.watches) :
    ∃ s', removeWatch (J := J) watch.address s = some (s', s.removeNotices watch) ∧
      s.Kept (fun pair => pair ≠ watch.pair) s' := by
  obtain ⟨-, ⟨evt, hevt, haddress, hevent?⟩, listener, hlst, haddress', -, hlistener?⟩ := h.ends hw
  have hsub : (s.watches.erase watch).Sublist s.watches := List.erase_sublist
  refine ⟨_, removeWatch_eq h hw hevent? hlistener?, ?_, Keyed.erase_eq_filter h.pairs hw,
    Store.relink_catalog .., Store.relink_roster .., rfl, rfl⟩
  rw [h.byEvent evt hevt, h.byListener listener hlst, haddress, haddress']
  simp only [Store.watchsOfEvent, Store.watchsOfListener,
    Keyed.erase_map_filter h.watchAddresses hw]
  refine h.relink _ _ _ (h.watchAddresses.sublist (hsub.map _)) (h.pairs.sublist (hsub.map _))
    (fun other hother => h.live other (hsub.subset hother)) ?_ ?_
  · intro other hne
    have hnot : decide (watch.event = other) = false := by simpa using hne.symm
    exact congrArg (List.map Watch.address) (Keyed.filter_erase_of_not hnot)
  · intro other hne
    have hnot : decide (watch.listener = other) = false := by simpa using hne.symm
    exact congrArg (List.map Watch.address) (Keyed.filter_erase_of_not hnot)

theorem removeNotices_congr (hcatalog : s'.catalog = s.catalog) (hroster : s'.roster = s.roster)
    (watch : Watch) : s'.removeNotices (J := J) watch = s.removeNotices watch := by
  rw [Store.removeNotices, Store.removeNotices, hcatalog, hroster]

/-- The loops that remove all the watches of an event or of a listener: `list` is the list
they empty, which holds the watches of the pairs in `gone`. -/
theorem removeWatches_spec {list : Store → Option (List Nat)} (gone : Nat × Nat → Bool)
    (turns : Nat) (h : s.Sound)
    (hlist : ∀ s' : Store, s'.Sound → s'.catalog = s.catalog → s'.roster = s.roster →
      list s' = some ((s'.watches.filter fun watch => gone watch.pair).map Watch.address))
    (hturns : (s.watches.filter fun watch => gone watch.pair).length = turns) :
    ∃ s', removeWatches (J := J) list (turns + 1) s =
        some (s', (s.watches.filter fun watch => gone watch.pair).flatMap s.removeNotices) ∧
      s.Kept (fun pair => !gone pair) s' := by
  induction turns generalizing s with
  | zero =>
      have hnone := List.eq_nil_of_length_eq_zero hturns
      have hhead := hlist s h rfl rfl
      rw [hnone, List.map_nil] at hhead
      refine ⟨s, ?_, h, ?_, rfl, rfl, rfl, rfl⟩
      · simp only [removeWatches, hhead, hnone, Option.bind_eq_bind, Option.bind_some,
          List.flatMap_nil]
      · symm
        rw [List.filter_eq_self]
        simpa using List.filter_eq_nil_iff.mp hnone
  | succ turns ih =>
      obtain ⟨watch, rest, hcons⟩ := List.exists_cons_of_length_eq_add_one hturns
      have hmem : watch ∈ s.watches.filter fun watch => gone watch.pair := by
        rw [hcons]
        exact List.mem_cons_self
      obtain ⟨hw, hgone⟩ := List.mem_filter.mp hmem
      obtain ⟨s₁, hremove, hkept⟩ := removeWatch_spec (J := J) h hw
      have hrest : (s₁.watches.filter fun watch => gone watch.pair) = rest := by
        rw [hkept.watches, ← Keyed.erase_eq_filter h.pairs hw, ← List.erase_filter, hcons,
          List.erase_cons_head]
      obtain ⟨s', hrun, hkept'⟩ := ih hkept.sound
        (fun s' hsound hcatalog hroster => hlist s' hsound (hcatalog.trans hkept.catalog)
          (hroster.trans hkept.roster))
        (by rw [hrest]; simpa [hcons] using hturns)
      have hhead := hlist s h rfl rfl
      rw [hcons, List.map_cons] at hhead
      refine ⟨s', ?_, hkept'.sound, ?_, hkept'.catalog.trans hkept.catalog,
        hkept'.roster.trans hkept.roster, hkept'.counter.trans hkept.counter,
        hkept'.wrapped.trans hkept.wrapped⟩
      · have hnotices : rest.flatMap (s₁.removeNotices (J := J)) = rest.flatMap s.removeNotices := by
          congr 1
          funext other
          exact removeNotices_congr hkept.catalog hkept.roster other
        rw [removeWatches, hhead]
        simp only [Option.bind_eq_bind, Option.bind_some, hremove, hrun, hrest, hcons,
          List.flatMap_cons, hnotices]
      · rw [hkept'.watches, hkept.watches, List.filter_filter]
        apply List.filter_congr
        intro other _
        by_cases hsame : other.pair = watch.pair
        · simp [hsame, hgone]
        · simp [hsame]

/-! ## The last reference to a listener -/

theorem listenerWatchs_eq (h : s.Sound) {listener : Nat} {itf : EvtItf}
    (hlistener : (listener, itf) ∈ s.roster) :
    Store.listenerWatchs listener s = some (s.watchsOfListener listener) := by
  obtain ⟨lst, hlst, hsame⟩ := List.mem_map.mp hlistener
  cases hsame
  have hfound : s.listener? lst.address = some lst := Keyed.search_mem h.listenerAddresses hlst
  rw [Store.listenerWatchs, hfound, Option.map_some, h.byListener lst hlst]

/-- The loop of `afb_evt_listener_unref` that removes the watches. -/
theorem removeListenerWatches_spec (h : s.Sound) {lst : Listener} (hl : lst ∈ s.listeners)
    (refcount : Int) :
    ∃ s' notices, removeWatches (J := J) (Store.listenerWatchs lst.address)
        (lst.watchs.length + 1) (s.setRefcount lst.address refcount) = some (s', notices) ∧
      (s.setRefcount lst.address refcount).Kept (fun pair => pair.1 ≠ lst.address) s' := by
  have hsound := h.setRefcount lst.address refcount
  have hroster : (s.setRefcount lst.address refcount).roster = s.roster :=
    Keyed.map_modify fun _ => rfl
  have hlist : ∀ s' : Store, s'.Sound →
      s'.catalog = (s.setRefcount lst.address refcount).catalog →
      s'.roster = (s.setRefcount lst.address refcount).roster →
      Store.listenerWatchs lst.address s' = some ((s'.watches.filter fun watch =>
        decide (watch.pair.1 = lst.address)).map Watch.address) := by
    intro s' hs' _ hsame
    have hlive : (lst.address, lst.itf) ∈ s'.roster := by
      rw [hsame, hroster]
      exact List.mem_map.mpr ⟨lst, hl, rfl⟩
    exact listenerWatchs_eq hs' hlive
  have hturns : ((s.setRefcount lst.address refcount).watches.filter fun watch =>
      decide (watch.pair.1 = lst.address)).length = lst.watchs.length := by
    rw [h.byListener lst hl, Store.watchsOfListener, List.length_map]
    rfl
  obtain ⟨s', hrun, hkept⟩ := removeWatches_spec (J := J)
    (fun pair => decide (pair.1 = lst.address)) _ hsound hlist hturns
  refine ⟨s', _, hrun, ?_⟩
  simpa using hkept

end AfbBinder.Evt
