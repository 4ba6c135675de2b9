import AfbBinder.Evt.Activity
import AfbBinder.Evt.Heap
import Mathlib.Data.List.Find

/-!
# The memory represents the graph

A heap represents a store when its objects have the fields of the store's and its links
lead through the store's lists.  On a sound store each function of the heap gives what the
function of the store gives, within as many turns as there are objects.
-/

namespace AfbBinder.Evt

open Lib

variable {J : Type} {h h' : Heap} {s s' : Store}

/-! ## The relation -/

/-- The fields that the two levels share. -/
def WatchStruct.view (watch : WatchStruct) : Nat × Nat × Nat :=
  (watch.event, watch.listener, watch.activity)

def Watch.view (watch : Watch) : Nat × Nat × Nat := (watch.event, watch.listener, watch.activity)

def EventStruct.view (evt : EventStruct) : Int32 × CString := (evt.id, evt.name)

def EvtEvent.view (evt : EvtEvent) : Int32 × CString := (evt.id, evt.name)

def ListenerStruct.view (listener : ListenerStruct) : EvtItf × Nat × Int :=
  (listener.itf, listener.closure, listener.refcount)

def Listener.view (listener : Listener) : EvtItf × Nat × Int :=
  (listener.itf, listener.closure, listener.refcount)

namespace Heap

def eventHead (h : Heap) (address : Nat) : Option Nat :=
  (h.event address).bind EventStruct.watchs

def listenerHead (h : Heap) (address : Nat) : Option Nat :=
  (h.listener address).bind ListenerStruct.watchs

/-- The objects and the lists of watches. -/
structure Rep (h : Heap) (s : Store) : Prop where
  watch : ∀ a, (h.watch a).map WatchStruct.view = (s.watch? a).map Watch.view
  event : ∀ a, (h.event a).map EventStruct.view = (s.event? a).map EvtEvent.view
  listener : ∀ a, (h.listener a).map ListenerStruct.view = (s.listener? a).map Listener.view
  byEvent : ∀ a evt, s.event? a = some evt →
    Chain.Leads (byEvent.links h.watch) (h.eventHead a) evt.watchs
  byListener : ∀ a listener, s.listener? a = some listener →
    Chain.Leads (byListener.links h.watch) (h.listenerHead a) listener.watchs
  counter : h.eventIdCounter = s.eventIdCounter
  wrapped : h.eventIdWrapped = s.eventIdWrapped

/-- The interface and the closure of each listener. -/
def listenerKeys (h : Heap) : Nat → Option (EvtItf × Nat) :=
  fun a => (h.listener a).map fun l => (l.itf, l.closure)

/-- The two static lists lead through given addresses. -/
structure Tops (h : Heap) (events listeners : List Nat) : Prop where
  events : Chain.Leads (eventNext.links h.event) h.events events
  listeners : Chain.Leads (listenerNext.links h.listener) h.listeners listeners

/-- Nothing changes on the two static lists, nor in what identifies the listeners. -/
structure SameTops (h h' : Heap) : Prop where
  events : h'.events = h.events
  listeners : h'.listeners = h.listeners
  eventLinks : eventNext.links h'.event = eventNext.links h.event
  listenerLinks : listenerNext.links h'.listener = listenerNext.links h.listener
  keys : h'.listenerKeys = h.listenerKeys

theorem SameTops.refl (h : Heap) : SameTops h h := ⟨rfl, rfl, rfl, rfl, rfl⟩

theorem SameTops.trans {h'' : Heap} (hh : SameTops h h') (hh' : SameTops h' h'') :
    SameTops h h'' :=
  ⟨hh'.events.trans hh.events, hh'.listeners.trans hh.listeners,
    hh'.eventLinks.trans hh.eventLinks, hh'.listenerLinks.trans hh.listenerLinks,
    hh'.keys.trans hh.keys⟩

theorem SameTops.tops (hh : SameTops h h') {events listeners : List Nat}
    (ht : h.Tops events listeners) : h'.Tops events listeners := by
  constructor
  · rw [hh.eventLinks, hh.events]
    exact ht.events
  · rw [hh.listenerLinks, hh.listeners]
    exact ht.listeners

theorem Rep.watch_some (hrep : h.Rep s) {a : Nat} {watch : Watch} (hw : s.watch? a = some watch) :
    ∃ w, h.watch a = some w ∧ w.event = watch.event ∧ w.listener = watch.listener ∧
      w.activity = watch.activity := by
  have hview := hrep.watch a
  rw [hw, Option.map_some, Option.map_eq_some_iff] at hview
  obtain ⟨w, hw, hsame⟩ := hview
  simp only [WatchStruct.view, Watch.view, Prod.mk.injEq] at hsame
  exact ⟨w, hw, hsame⟩

theorem Rep.event_some (hrep : h.Rep s) {a : Nat} {evt : EvtEvent} (he : s.event? a = some evt) :
    ∃ e, h.event a = some e ∧ e.id = evt.id ∧ e.name = evt.name := by
  have hview := hrep.event a
  rw [he, Option.map_some, Option.map_eq_some_iff] at hview
  obtain ⟨e, he, hsame⟩ := hview
  simp only [EventStruct.view, EvtEvent.view, Prod.mk.injEq] at hsame
  exact ⟨e, he, hsame⟩

theorem Rep.listener_some (hrep : h.Rep s) {a : Nat} {listener : Listener}
    (hl : s.listener? a = some listener) :
    ∃ l, h.listener a = some l ∧ l.itf = listener.itf ∧ l.closure = listener.closure ∧
      l.refcount = listener.refcount := by
  have hview := hrep.listener a
  rw [hl, Option.map_some, Option.map_eq_some_iff] at hview
  obtain ⟨l, hl, hsame⟩ := hview
  simp only [ListenerStruct.view, Listener.view, Prod.mk.injEq] at hsame
  exact ⟨l, hl, hsame⟩

end Heap

/-! ## The lists of a sound store -/

theorem mem_eventList (hs : s.Sound) {a b : Nat} {evt : EvtEvent} (he : s.event? a = some evt) :
    b ∈ evt.watchs ↔ ∃ watch, s.watch? b = some watch ∧ watch.event = a := by
  obtain ⟨hevt, rfl⟩ := Keyed.search_some he
  rw [hs.byEvent evt hevt, Store.watchsOfEvent, List.mem_map]
  constructor
  · rintro ⟨watch, hmem, rfl⟩
    obtain ⟨hw, hevent⟩ := List.mem_filter.mp hmem
    exact ⟨watch, Keyed.search_mem hs.watchAddresses hw, by simpa using hevent⟩
  · rintro ⟨watch, hfound, hevent⟩
    obtain ⟨hw, rfl⟩ := Keyed.search_some hfound
    exact ⟨watch, List.mem_filter.mpr ⟨hw, by simpa using hevent⟩, rfl⟩

theorem mem_listenerList (hs : s.Sound) {a b : Nat} {listener : Listener}
    (hl : s.listener? a = some listener) :
    b ∈ listener.watchs ↔ ∃ watch, s.watch? b = some watch ∧ watch.listener = a := by
  obtain ⟨hlst, rfl⟩ := Keyed.search_some hl
  rw [hs.byListener listener hlst, Store.watchsOfListener, List.mem_map]
  constructor
  · rintro ⟨watch, hmem, rfl⟩
    obtain ⟨hw, hlistener⟩ := List.mem_filter.mp hmem
    exact ⟨watch, Keyed.search_mem hs.watchAddresses hw, by simpa using hlistener⟩
  · rintro ⟨watch, hfound, hlistener⟩
    obtain ⟨hw, rfl⟩ := Keyed.search_some hfound
    exact ⟨watch, List.mem_filter.mpr ⟨hw, by simpa using hlistener⟩, rfl⟩

theorem eventList_nodup (hs : s.Sound) {a : Nat} {evt : EvtEvent} (he : s.event? a = some evt) :
    evt.watchs.Nodup ∧ evt.watchs.length ≤ s.watches.length := by
  obtain ⟨hevt, rfl⟩ := Keyed.search_some he
  rw [hs.byEvent evt hevt, Store.watchsOfEvent, List.length_map]
  exact ⟨hs.watchAddresses.sublist (List.filter_sublist.map _), List.length_filter_le ..⟩

theorem listenerList_nodup (hs : s.Sound) {a : Nat} {listener : Listener}
    (hl : s.listener? a = some listener) :
    listener.watchs.Nodup ∧ listener.watchs.length ≤ s.watches.length := by
  obtain ⟨hlst, rfl⟩ := Keyed.search_some hl
  rw [hs.byListener listener hlst, Store.watchsOfListener, List.length_map]
  exact ⟨hs.watchAddresses.sublist (List.filter_sublist.map _), List.length_filter_le ..⟩

namespace Store

theorem relink_event? (s : Store) (event listener : Nat) (eventWatchs listenerWatchs : List Nat)
    (watches : List Watch) (a : Nat) :
    (s.relink event eventWatchs listener listenerWatchs watches).event? a =
      if a = event then (s.event? event).map (fun evt => { evt with watchs := eventWatchs })
      else s.event? a :=
  Keyed.search_modify fun _ => rfl

theorem relink_listener? (s : Store) (event listener : Nat)
    (eventWatchs listenerWatchs : List Nat) (watches : List Watch) (a : Nat) :
    (s.relink event eventWatchs listener listenerWatchs watches).listener? a =
      if a = listener then (s.listener? listener).map (fun l => { l with watchs := listenerWatchs })
      else s.listener? a :=
  Keyed.search_modify fun _ => rfl

theorem erase_watch? (hs : s.Sound) {watch : Watch} (hw : watch ∈ s.watches) (a : Nat) :
    Keyed.search Watch.address (s.watches.erase watch) a =
      if a = watch.address then none else s.watch? a := by
  rw [Keyed.erase_eq_filter hs.watchAddresses hw, Keyed.search_filter_ne]
  rfl

end Store

/-! ## Removing watches -/

namespace Heap

/-- What the first unlinking leaves. -/
theorem unlinkByEvent_spec {event target turns : Nat} {evt : EventStruct} {nodes : List Nat}
    (hevent : h.event event = some evt)
    (hleads : Chain.Leads (byEvent.links h.watch) evt.watchs nodes) (hnodup : nodes.Nodup)
    (hmem : target ∈ nodes) (hturns : nodes.length ≤ turns) :
    ∃ head watch, h.unlinkByEvent turns event target =
        some { h.setEvent event { evt with watchs := head } with watch := watch } ∧
      Chain.Unlinked byEvent target nodes h.watch head watch := by
  obtain ⟨head, watch, hunlink, -, hunlinked⟩ := Chain.unlink_spec byEvent hleads hnodup hmem hturns
  exact ⟨head, watch, by simp [unlinkByEvent, hevent, hunlink], hunlinked⟩

theorem unlinkByListener_spec {listener target turns : Nat} {lst : ListenerStruct}
    {nodes : List Nat} (hlistener : h.listener listener = some lst)
    (hleads : Chain.Leads (byListener.links h.watch) lst.watchs nodes) (hnodup : nodes.Nodup)
    (hmem : target ∈ nodes) (hturns : nodes.length ≤ turns) :
    ∃ head watch, h.unlinkByListener turns listener target =
        some { h.setListener listener { lst with watchs := head } with watch := watch } ∧
      Chain.Unlinked byListener target nodes h.watch head watch := by
  obtain ⟨head, watch, hunlink, -, hunlinked⟩ :=
    Chain.unlink_spec byListener hleads hnodup hmem hturns
  exact ⟨head, watch, by simp [unlinkByListener, hlistener, hunlink], hunlinked⟩

theorem links_view {W : Type} (field : Chain.Field W) {mem mem' : Nat → Option W}
    (hsame : ∀ a, (mem' a).map field.get = (mem a).map field.get) :
    field.links mem' = field.links mem :=
  funext hsame

/-- A view that a change of one object keeps. -/
theorem map_update {W β : Type} {mem : Nat → Option W} {address : Nat} {w w' : W} {view : W → β}
    (hw : mem address = some w) (hview : view w' = view w) :
    (fun a => (Function.update mem address (some w') a).map view) = fun a => (mem a).map view := by
  funext a
  rw [Function.update_apply]
  split
  · rename_i ha
    rw [ha, hw, Option.map_some, Option.map_some, hview]
  · rfl

/-- A write in the memory and the change of the object it stands for keep the views equal. -/
theorem view_update {W V β : Type} {mem : Nat → Option W} {find : Nat → Option V} {view : W → β}
    {view' : V → β} (hrep : ∀ a, (mem a).map view = (find a).map view') {address : Nat} {w w' : W}
    (hw : mem address = some w) (hview : view w' = view w) {change : V → V}
    (hchange : ∀ v, view' (change v) = view' v) (a : Nat) :
    (Function.update mem address (some w') a).map view =
      (if a = address then (find address).map change else find a).map view' := by
  have hchanged : view' ∘ change = view' := funext hchange
  calc (Function.update mem address (some w') a).map view
      = (mem a).map view := congrFun (map_update hw hview) a
    _ = (find a).map view' := hrep a
    _ = (if a = address then (find address).map change else find a).map view' := by
        split
        · rename_i ha
          rw [ha, Option.map_map, hchanged]
        · rfl

/-- The heap after the two unlinkings of a watch and its release. -/
def without (h : Heap) (event : Nat) (e : EventStruct) (listener : Nat) (l : ListenerStruct)
    (watch : Nat → Option WatchStruct) (address : Nat) : Heap :=
  { (h.setEvent event e).setListener listener l with watch := Function.update watch address none }

section Without

variable {watch : Watch} {evt : EvtEvent} {listener : Listener} {head₁ head₂ : Option Nat}
  {watch₁ watch₂ : Nat → Option WatchStruct}

theorem links_freed (field : Chain.Field WatchStruct) {address a : Nat} (ha : a ≠ address) :
    field.links (Function.update watch₂ address none) a = field.links watch₂ a := by
  simp [Chain.Field.links, Function.update_of_ne ha]

theorem not_mem_otherEvent (hs : s.Sound) {a b : Nat} {evt' : EvtEvent}
    (hevent? : s.event? watch.event = some evt) (hevt' : s.event? a = some evt')
    (ha : a ≠ watch.event) (hb : b ∈ evt'.watchs) : b ∉ evt.watchs := by
  intro hin
  obtain ⟨w, hfound, hwe⟩ := (mem_eventList hs hevt').mp hb
  obtain ⟨w', hfound', hwe'⟩ := (mem_eventList hs hevent?).mp hin
  rw [hfound] at hfound'
  cases hfound'
  exact ha (hwe.symm.trans hwe')

theorem not_mem_otherListener (hs : s.Sound) {a b : Nat} {listener' : Listener}
    (hlistener? : s.listener? watch.listener = some listener)
    (hlistener' : s.listener? a = some listener') (ha : a ≠ watch.listener)
    (hb : b ∈ listener'.watchs) : b ∉ listener.watchs := by
  intro hin
  obtain ⟨w, hfound, hwl⟩ := (mem_listenerList hs hlistener').mp hb
  obtain ⟨w', hfound', hwl'⟩ := (mem_listenerList hs hlistener?).mp hin
  rw [hfound] at hfound'
  cases hfound'
  exact ha (hwl.symm.trans hwl')

/-- The lists of the events lead through the watches left. -/
theorem leads_eventWithout (hrep : h.Rep s) (hs : s.Sound) (hw : watch ∈ s.watches)
    (hevent? : s.event? watch.event = some evt) (e : EventStruct)
    (hun₁ : Chain.Unlinked byEvent watch.address evt.watchs h.watch head₁ watch₁)
    (hun₂ : Chain.Unlinked byListener watch.address listener.watchs watch₁ head₂ watch₂) {a : Nat}
    {evt' : EvtEvent}
    (hevt' : (if a = watch.event then (s.event? watch.event).map fun evt' =>
      { evt' with watchs := evt.watchs.erase watch.address } else s.event? a) = some evt') :
    Chain.Leads (byEvent.links (Function.update watch₂ watch.address none))
      ((Function.update h.event watch.event (some { e with watchs := head₁ }) a).bind
        EventStruct.watchs) evt'.watchs := by
  have hlinks₂ : byEvent.links watch₂ = byEvent.links watch₁ :=
    links_view byEvent (hun₂.view fun _ _ => rfl)
  by_cases ha : a = watch.event
  · rw [if_pos ha, hevent?, Option.map_some, Option.some.injEq] at hevt'
    subst hevt'
    rw [ha, Function.update_self]
    apply hun₁.leads.congr
    intro b hb
    have hne : b ≠ watch.address := by
      rintro rfl
      exact (eventList_nodup hs hevent?).1.not_mem_erase hb
    rw [links_freed byEvent hne, hlinks₂]
  · rw [if_neg ha] at hevt'
    rw [Function.update_of_ne ha]
    apply (hrep.byEvent a evt' hevt').congr
    intro b hb
    have hout := not_mem_otherEvent hs hevent? hevt' ha hb
    have hne : b ≠ watch.address := by
      rintro rfl
      exact hout ((mem_eventList hs hevent?).mpr
        ⟨watch, Keyed.search_mem hs.watchAddresses hw, rfl⟩)
    rw [links_freed byEvent hne, hlinks₂]
    simp only [Chain.Field.links, hun₁.others b hout]

/-- The lists of the listeners do so too. -/
theorem leads_listenerWithout (hrep : h.Rep s) (hs : s.Sound) (hw : watch ∈ s.watches)
    (hlistener? : s.listener? watch.listener = some listener) (l : ListenerStruct)
    (hun₁ : Chain.Unlinked byEvent watch.address evt.watchs h.watch head₁ watch₁)
    (hun₂ : Chain.Unlinked byListener watch.address listener.watchs watch₁ head₂ watch₂) {a : Nat}
    {lst' : Listener}
    (hlst' : (if a = watch.listener then (s.listener? watch.listener).map fun lst' =>
      { lst' with watchs := listener.watchs.erase watch.address } else s.listener? a) =
        some lst') :
    Chain.Leads (byListener.links (Function.update watch₂ watch.address none))
      ((Function.update h.listener watch.listener (some { l with watchs := head₂ }) a).bind
        ListenerStruct.watchs) lst'.watchs := by
  have hlinks₁ : byListener.links watch₁ = byListener.links h.watch :=
    links_view byListener (hun₁.view fun _ _ => rfl)
  by_cases ha : a = watch.listener
  · rw [if_pos ha, hlistener?, Option.map_some, Option.some.injEq] at hlst'
    subst hlst'
    rw [ha, Function.update_self]
    apply hun₂.leads.congr
    intro b hb
    have hne : b ≠ watch.address := by
      rintro rfl
      exact (listenerList_nodup hs hlistener?).1.not_mem_erase hb
    rw [links_freed byListener hne]
  · rw [if_neg ha] at hlst'
    rw [Function.update_of_ne ha]
    apply (hrep.byListener a lst' hlst').congr
    intro b hb
    have hout := not_mem_otherListener hs hlistener? hlst' ha hb
    have hne : b ≠ watch.address := by
      rintro rfl
      exact hout ((mem_listenerList hs hlistener?).mpr
        ⟨watch, Keyed.search_mem hs.watchAddresses hw, rfl⟩)
    rw [links_freed byListener hne, ← hlinks₁]
    simp only [Chain.Field.links, hun₂.others b hout]

end Without

theorem rep_without (hrep : h.Rep s) (hs : s.Sound) {watch : Watch} (hw : watch ∈ s.watches)
    {evt : EvtEvent} (hevent? : s.event? watch.event = some evt) {listener : Listener}
    (hlistener? : s.listener? watch.listener = some listener) {e : EventStruct}
    (hevent : h.event watch.event = some e) {l : ListenerStruct}
    (hlistener : h.listener watch.listener = some l) {head₁ head₂ : Option Nat}
    {watch₁ watch₂ : Nat → Option WatchStruct}
    (hun₁ : Chain.Unlinked byEvent watch.address evt.watchs h.watch head₁ watch₁)
    (hun₂ : Chain.Unlinked byListener watch.address listener.watchs watch₁ head₂ watch₂) :
    (h.without watch.event { e with watchs := head₁ } watch.listener { l with watchs := head₂ }
      watch₂ watch.address).Rep
      (s.relink watch.event (evt.watchs.erase watch.address) watch.listener
        (listener.watchs.erase watch.address) (s.watches.erase watch)) := by
  refine ⟨?_, ?_, ?_, ?_, ?_, hrep.counter, hrep.wrapped⟩
  · intro a
    show (Function.update watch₂ watch.address none a).map _ =
      (Keyed.search Watch.address (s.watches.erase watch) a).map _
    rw [Store.erase_watch? hs hw, Function.update_apply]
    split
    · rfl
    · rw [hun₂.view (fun _ _ => rfl), hun₁.view (fun _ _ => rfl)]
      exact hrep.watch a
  · intro a
    rw [Store.relink_event?]
    show (Function.update h.event watch.event (some { e with watchs := head₁ }) a).map _ = _
    apply view_update hrep.event hevent
    · rfl
    · exact fun _ => rfl
  · intro a
    rw [Store.relink_listener?]
    show (Function.update h.listener watch.listener (some { l with watchs := head₂ }) a).map _ = _
    apply view_update hrep.listener hlistener
    · rfl
    · exact fun _ => rfl
  · intro a evt' hevt'
    rw [Store.relink_event?] at hevt'
    exact leads_eventWithout hrep hs hw hevent? e hun₁ hun₂ hevt'
  · intro a lst' hlst'
    rw [Store.relink_listener?] at hlst'
    exact leads_listenerWithout hrep hs hw hlistener? l hun₁ hun₂ hlst'

theorem removeWatch_rep (hrep : h.Rep s) (hs : s.Sound) {watch : Watch} (hw : watch ∈ s.watches)
    {turns : Nat} (hturns : s.watches.length ≤ turns) :
    ∃ h' s', h.removeWatch (J := J) turns watch.address = some (h', s.removeNotices watch) ∧
      Evt.removeWatch (J := J) watch.address s = some (s', s.removeNotices watch) ∧
      h'.Rep s' ∧ SameTops h h' := by
  obtain ⟨hwatch?, ⟨evt, -, -, hevent?⟩, listener, -, -, -, hlistener?⟩ := hs.ends hw
  obtain ⟨w, hwatch, hwe, hwl, hwa⟩ := hrep.watch_some hwatch?
  obtain ⟨e, hevent, hid, hname⟩ := hrep.event_some hevent?
  obtain ⟨l, hlistener, hitf, -, -⟩ := hrep.listener_some hlistener?
  have hinEvent := (mem_eventList hs hevent?).mpr ⟨watch, hwatch?, rfl⟩
  have hinListener := (mem_listenerList hs hlistener?).mpr ⟨watch, hwatch?, rfl⟩
  have hleads := hrep.byEvent _ evt hevent?
  rw [eventHead, hevent, Option.bind_some] at hleads
  obtain ⟨hnodup, hlength⟩ := eventList_nodup hs hevent?
  obtain ⟨head₁, watch₁, hunlink₁, hun₁⟩ := unlinkByEvent_spec hevent hleads hnodup hinEvent
    (Nat.le_trans hlength hturns)
  -- the second list is not touched by the first unlinking
  have hlinks₁ : byListener.links watch₁ = byListener.links h.watch :=
    links_view byListener (hun₁.view fun _ _ => rfl)
  have hleads' := hrep.byListener _ listener hlistener?
  rw [listenerHead, hlistener, Option.bind_some, ← hlinks₁] at hleads'
  obtain ⟨hnodup', hlength'⟩ := listenerList_nodup hs hlistener?
  obtain ⟨head₂, watch₂, hunlink₂, hun₂⟩ := unlinkByListener_spec
    (h := { h.setEvent watch.event { e with watchs := head₁ } with watch := watch₁ })
    hlistener hleads' hnodup' hinListener (Nat.le_trans hlength' hturns)
  refine ⟨_, _, ?_, removeWatch_eq hs hw hevent? hlistener?,
    rep_without hrep hs hw hevent? hlistener? hevent hlistener hun₁ hun₂, ?_⟩
  · have hnotices : s.removeNotices (J := J) watch =
        if w.activity ≠ 0 ∧ l.itf.remove then [.remove watch.listener e.name e.id] else [] := by
      simp only [Store.removeNotices, ← Store.event?_catalog, ← Store.listener?_roster, hevent?,
        hlistener?, Option.map_some, hwa, hitf, hid, hname]
    simp only [removeWatch, hwatch, hwe, hwl, hevent, hlistener, hunlink₁, hunlink₂, hnotices,
      Option.bind_eq_bind, Option.bind_some]
    rfl
  · exact ⟨rfl, rfl, map_update hevent rfl, map_update hlistener rfl, map_update hlistener rfl⟩

/-- The loops over the watches of an event or of a listener: `head` reads in the heap the
head of the list that `list` gives in the store. -/
theorem removeWatches_rep {head : Heap → Option (Option Nat)} {list : Store → Option (List Nat)}
    {field : Chain.Field WatchStruct} {turns left left' : Nat} {notices : List (Notice J)}
    (hlist : ∀ (h : Heap) (s : Store) (l : List Nat), h.Rep s → s.Sound → list s = some l →
      (∃ p, head h = some p ∧ Chain.Leads (field.links h.watch) p l) ∧
        ∀ a ∈ l, ∃ watch ∈ s.watches, watch.address = a)
    (hrep : h.Rep s) (hs : s.Sound) (hturns : s.watches.length ≤ turns) (hleft : left ≤ left')
    (hrun : Evt.removeWatches list left s = some (s', notices)) :
    ∃ h', removeWatches head turns left' h = some (h', notices) ∧ h'.Rep s' ∧ SameTops h h' := by
  induction left generalizing h s s' left' notices with
  | zero => cases hrun
  | succ left ih =>
      obtain ⟨left', rfl⟩ : ∃ k, left' = k + 1 := ⟨left' - 1, by omega⟩
      cases hl : list s with
      | none => simp [Evt.removeWatches, hl] at hrun
      | some l =>
          obtain ⟨⟨p, hp, hleads⟩, hall⟩ := hlist h s l hrep hs hl
          cases l with
          | nil =>
              have hnone : p = none := hleads
              simp only [Evt.removeWatches, hl, Option.bind_eq_bind, Option.bind_some,
                Option.some.injEq, Prod.mk.injEq] at hrun
              obtain ⟨rfl, rfl⟩ := hrun
              exact ⟨h, by simp [removeWatches, hp, hnone], hrep, SameTops.refl h⟩
          | cons a rest =>
              obtain ⟨watch, hw, rfl⟩ := hall a (by simp)
              obtain ⟨h₁, s₁, hremove, hremove', hrep₁, htops₁⟩ :=
                removeWatch_rep (J := J) hrep hs hw hturns
              obtain ⟨s₁', heq, hkept⟩ := removeWatch_spec (J := J) hs hw
              rw [hremove'] at heq
              cases heq
              have hlen : s₁.watches.length ≤ turns := by
                rw [hkept.watches]
                exact Nat.le_trans (List.length_filter_le ..) hturns
              rw [Evt.removeWatches, hl] at hrun
              simp only [Option.bind_eq_bind, Option.bind_some, hremove'] at hrun
              obtain ⟨⟨s₂, others⟩, hrest, hout⟩ := Option.bind_eq_some_iff.mp hrun
              cases hout
              have hleft' : left ≤ left' := by omega
              obtain ⟨h₂, hrest', hrep₂, htops₂⟩ := ih hrep₁ hkept.sound hlen hleft' hrest
              refine ⟨h₂, ?_, hrep₂, htops₁.trans htops₂⟩
              have hhead : p = some watch.address := hleads.1
              simp [removeWatches, hp, hhead, hremove, hrest']

theorem eventWatchs_list {a : Nat} {l : List Nat} (hrep : h.Rep s) (hs : s.Sound)
    (hl : Store.eventWatchs a s = some l) :
    (∃ p, eventWatchs a h = some p ∧ Chain.Leads (byEvent.links h.watch) p l) ∧
      ∀ b ∈ l, ∃ watch ∈ s.watches, watch.address = b := by
  obtain ⟨evt, hevent?, rfl⟩ := Option.map_eq_some_iff.mp hl
  obtain ⟨e, hevent, -⟩ := hrep.event_some hevent?
  have hleads := hrep.byEvent a evt hevent?
  rw [eventHead, hevent, Option.bind_some] at hleads
  refine ⟨⟨e.watchs, by simp [eventWatchs, hevent], hleads⟩, ?_⟩
  intro b hb
  obtain ⟨watch, hfound, -⟩ := (mem_eventList hs hevent?).mp hb
  exact ⟨watch, Keyed.search_some hfound⟩

theorem listenerWatchs_list {a : Nat} {l : List Nat} (hrep : h.Rep s) (hs : s.Sound)
    (hl : Store.listenerWatchs a s = some l) :
    (∃ p, listenerWatchs a h = some p ∧ Chain.Leads (byListener.links h.watch) p l) ∧
      ∀ b ∈ l, ∃ watch ∈ s.watches, watch.address = b := by
  obtain ⟨lst, hlistener?, rfl⟩ := Option.map_eq_some_iff.mp hl
  obtain ⟨l, hlistener, -⟩ := hrep.listener_some hlistener?
  have hleads := hrep.byListener a lst hlistener?
  rw [listenerHead, hlistener, Option.bind_some] at hleads
  refine ⟨⟨l.watchs, by simp [listenerWatchs, hlistener], hleads⟩, ?_⟩
  intro b hb
  obtain ⟨watch, hfound, -⟩ := (mem_listenerList hs hlistener?).mp hb
  exact ⟨watch, Keyed.search_some hfound⟩

/-! ## The static lists -/

/-- The heap represents the store, its two static lists included. -/
structure Linked (h : Heap) (s : Store) : Prop where
  rep : h.Rep s
  tops : h.Tops (s.events.map EvtEvent.address) (s.listeners.map Listener.address)

theorem SameTops.linked (hh : SameTops h h') (hl : h.Linked s) (hrep : h'.Rep s')
    (hcatalog : s'.catalog = s.catalog) (hroster : s'.roster = s.roster) : h'.Linked s' := by
  refine ⟨hrep, ?_⟩
  rw [Store.addresses_of_catalog hcatalog, Store.addresses_of_roster hroster]
  exact hh.tops hl.tops

theorem rep_dropEvent (hrep : h.Rep s) (address : Nat) :
    { h with event := Function.update h.event address none }.Rep
      { s with events := s.events.filter fun evt => evt.address ≠ address } := by
  have hfilter : ∀ a, Store.event? { s with events := s.events.filter fun evt =>
      evt.address ≠ address } a = if a = address then none else s.event? a :=
    fun a => Keyed.search_filter_ne address
  refine ⟨hrep.watch, ?_, hrep.listener, ?_, hrep.byListener, hrep.counter, hrep.wrapped⟩
  · intro a
    rw [hfilter]
    show (Function.update h.event address none a).map _ = _
    rw [Function.update_apply]
    split
    · rfl
    · exact hrep.event a
  · intro a evt hevt
    rw [hfilter] at hevt
    split at hevt
    · cases hevt
    · rename_i ha
      show Chain.Leads _ ((Function.update h.event address none a).bind _) evt.watchs
      rw [Function.update_of_ne ha]
      exact hrep.byEvent a evt hevt

theorem rep_dropListener (hrep : h.Rep s) (address : Nat) :
    { h with listener := Function.update h.listener address none }.Rep
      { s with listeners := s.listeners.filter fun listener => listener.address ≠ address } := by
  have hfilter : ∀ a, Store.listener? { s with listeners := s.listeners.filter fun listener =>
      listener.address ≠ address } a = if a = address then none else s.listener? a :=
    fun a => Keyed.search_filter_ne address
  refine ⟨hrep.watch, hrep.event, ?_, hrep.byEvent, ?_, hrep.counter, hrep.wrapped⟩
  · intro a
    rw [hfilter]
    show (Function.update h.listener address none a).map _ = _
    rw [Function.update_apply]
    split
    · rfl
    · exact hrep.listener a
  · intro a listener hl
    rw [hfilter] at hl
    split at hl
    · cases hl
    · rename_i ha
      show Chain.Leads _ ((Function.update h.listener address none a).bind _) listener.watchs
      rw [Function.update_of_ne ha]
      exact hrep.byListener a listener hl

/-- Unlinking an event from the static list shows in no represented field. -/
theorem rep_unlinkEvent (hrep : h.Rep s) {address : Nat} {nodes : List Nat} {head : Option Nat}
    {event : Nat → Option EventStruct}
    (hun : Chain.Unlinked eventNext address nodes h.event head event) :
    { h with events := head, event := event }.Rep s := by
  refine ⟨hrep.watch, ?_, hrep.listener, ?_, hrep.byListener, hrep.counter, hrep.wrapped⟩
  · intro a
    rw [← hrep.event a]
    exact hun.view (fun _ _ => rfl) a
  · intro a evt hevt
    have hhead : (event a).bind EventStruct.watchs = h.eventHead a := by
      rcases hun.same a with hsame | ⟨e, next, he, he'⟩
      · rw [hsame]
        rfl
      · rw [eventHead, he, he']
        rfl
    show Chain.Leads _ ((event a).bind EventStruct.watchs) evt.watchs
    rw [hhead]
    exact hrep.byEvent a evt hevt

theorem rep_unlinkListener (hrep : h.Rep s) {address : Nat} {nodes : List Nat} {head : Option Nat}
    {listener : Nat → Option ListenerStruct}
    (hun : Chain.Unlinked listenerNext address nodes h.listener head listener) :
    { h with listeners := head, listener := listener }.Rep s := by
  refine ⟨hrep.watch, hrep.event, ?_, hrep.byEvent, ?_, hrep.counter, hrep.wrapped⟩
  · intro a
    rw [← hrep.listener a]
    exact hun.view (fun _ _ => rfl) a
  · intro a lst hl
    have hhead : (listener a).bind ListenerStruct.watchs = h.listenerHead a := by
      rcases hun.same a with hsame | ⟨l, next, he, he'⟩
      · rw [hsame]
        rfl
      · rw [listenerHead, he, he']
        rfl
    show Chain.Leads _ ((listener a).bind ListenerStruct.watchs) lst.watchs
    rw [hhead]
    exact hrep.byListener a lst hl

theorem leads_free {W : Type} {field : Chain.Field W} {mem : Nat → Option W} {head : Option Nat}
    {nodes : List Nat} {address : Nat} (hleads : Chain.Leads (field.links mem) head nodes)
    (hout : address ∉ nodes) :
    Chain.Leads (field.links (Function.update mem address none)) head nodes := by
  apply hleads.congr
  intro a ha
  have hne : a ≠ address := fun heq => hout (heq ▸ ha)
  simp [Chain.Field.links, Function.update_of_ne hne]

/-- `evt_destroy` of a live event on a linked heap. -/
theorem evtDestroy_linked (hl : h.Linked s) (hs : s.Sound) {event turns : Nat} {id : Int32}
    {name : CString} (hevent : (event, id, name) ∈ s.catalog)
    (hturns : s.watches.length + s.events.length < turns) :
    ∃ h' s' notices, h.evtDestroy (J := J) turns event = some (h', notices) ∧
      Evt.evtDestroy (J := J) event s = some (s', notices) ∧ h'.Linked s' ∧ s'.Sound ∧
      h'.listenerKeys = h.listenerKeys := by
  obtain ⟨s', notices, hdestroy, hsound, hcatalog, hroster, -⟩ := evtDestroy_spec (J := J) hs hevent
  obtain ⟨evt, hevt, hsame⟩ := List.mem_map.mp hevent
  obtain ⟨haddress, -⟩ := Prod.mk.inj hsame
  have hfound : s.event? event = some evt := haddress ▸ Keyed.search_mem hs.eventAddresses hevt
  have hlive : event ∈ s.events.map EvtEvent.address := haddress ▸ List.mem_map_of_mem hevt
  have hlong : (s.events.map EvtEvent.address).length ≤ turns := by
    rw [List.length_map]
    omega
  obtain ⟨head, mem, -, hunlink, hun⟩ := Chain.unlink_spec eventNext hl.tops.events
    hs.eventAddresses hlive hlong
  have hrep₁ := rep_unlinkEvent hl.rep hun
  -- the list level removes the watches first and then drops the event
  have hsteps := hdestroy
  simp only [Evt.evtDestroy, hfound, Option.bind_eq_bind] at hsteps
  obtain ⟨⟨s₁, notices'⟩, hremove, hout⟩ := Option.bind_eq_some_iff.mp hsteps
  cases hout
  have hlength := (eventList_nodup hs hfound).2
  have hleft : evt.watchs.length + 1 ≤ turns := by omega
  have hturns' : s.watches.length ≤ turns := by omega
  obtain ⟨h₂, hremove', hrep₂, htops₂⟩ := removeWatches_rep
    (fun _ _ _ hrep hs hl => eventWatchs_list hrep hs hl) hrep₁ hs hturns' hleft hremove
  have htops := htops₂.tops ⟨hun.leads, hl.tops.listeners⟩
  refine ⟨{ h₂ with event := Function.update h₂.event event none }, _, _, ?_, hdestroy,
    ⟨rep_dropEvent hrep₂ event, ?_, ?_⟩, hsound, htops₂.keys⟩
  · simp [evtDestroy, hunlink, hremove']
  · have hnodup : (s.catalog.map Prod.fst).Nodup := by
      rw [Store.catalog_addresses]
      exact hs.eventAddresses
    rw [← Store.catalog_addresses, hcatalog, Keyed.map_filter_ne hnodup, Store.catalog_addresses]
    exact leads_free htops.events (hs.eventAddresses.not_mem_erase)
  · rw [Store.addresses_of_roster hroster]
    exact htops.listeners

/-! ## Listeners -/

theorem rep_setRefcount (hrep : h.Rep s) {address : Nat} {l : ListenerStruct}
    (hlistener : h.listener address = some l) (refcount : Int) :
    (h.setListener address { l with refcount := refcount }).Rep
      (s.setRefcount address refcount) := by
  have hfind : ∀ a, (s.setRefcount address refcount).listener? a =
      if a = address then (s.listener? address).map (fun l => { l with refcount := refcount })
      else s.listener? a := fun _ => Keyed.search_modify fun _ => rfl
  refine ⟨hrep.watch, hrep.event, ?_, hrep.byEvent, ?_, hrep.counter, hrep.wrapped⟩
  · intro a
    rw [hfind]
    show (Function.update h.listener address (some { l with refcount := refcount }) a).map _ = _
    rw [Function.update_apply]
    split
    · have hview := hrep.listener address
      rw [hlistener, Option.map_some] at hview
      obtain ⟨lst, hlst, hsame⟩ := Option.map_eq_some_iff.mp hview.symm
      rw [hlst]
      simp only [ListenerStruct.view, Listener.view, Prod.mk.injEq] at hsame
      simp [ListenerStruct.view, Listener.view, hsame]
    · exact hrep.listener a
  · intro a lst hl
    rw [hfind] at hl
    show Chain.Leads _
      ((Function.update h.listener address (some { l with refcount := refcount }) a).bind _) lst.watchs
    rw [Function.update_apply]
    split at hl
    · rename_i ha
      obtain ⟨old, hold, rfl⟩ := Option.map_eq_some_iff.mp hl
      have hleads := hrep.byListener address old hold
      rw [listenerHead, hlistener] at hleads
      rw [if_pos ha]
      exact hleads
    · rename_i ha
      rw [if_neg ha]
      exact hrep.byListener a lst hl

theorem linked_setRefcount (hl : h.Linked s) {address : Nat} {l : ListenerStruct}
    (hlistener : h.listener address = some l) (refcount : Int) :
    (h.setListener address { l with refcount := refcount }).Linked
        (s.setRefcount address refcount) ∧
      SameTops h (h.setListener address { l with refcount := refcount }) := by
  have htops : SameTops h (h.setListener address { l with refcount := refcount }) :=
    ⟨rfl, rfl, rfl, map_update hlistener rfl, map_update hlistener rfl⟩
  exact ⟨htops.linked hl (rep_setRefcount hl.rep hlistener refcount) rfl
    (Keyed.map_modify fun _ => rfl), htops⟩

theorem afbEvtListenerAddref_linked (hl : h.Linked s) (hs : s.Sound) {address : Nat}
    {lst : Listener} (hlst : s.listener? address = some lst) :
    ∃ h' s', h.afbEvtListenerAddref address = some h' ∧
      Evt.afbEvtListenerAddref address s = some s' ∧ h'.Linked s' ∧ s'.Sound ∧
      h'.listenerKeys = h.listenerKeys := by
  obtain ⟨l, hlistener, -, -, hrefcount⟩ := hl.rep.listener_some hlst
  obtain ⟨hlinked, htops⟩ := linked_setRefcount hl hlistener (l.refcount + 1)
  refine ⟨_, _, by simp [afbEvtListenerAddref, hlistener], ?_, hlinked,
    hs.setRefcount address _, htops.keys⟩
  simp [Evt.afbEvtListenerAddref, hlst, hrefcount]

/-- `afb_evt_listener_unref` of a live listener on a linked heap. -/
theorem afbEvtListenerUnref_linked (hl : h.Linked s) (hs : s.Sound) {address turns : Nat}
    {lst : Listener} (hlst : s.listener? address = some lst)
    (hturns : s.watches.length + s.listeners.length < turns) :
    ∃ h' s' notices, h.afbEvtListenerUnref (J := J) turns address = some (h', notices) ∧
      Evt.afbEvtListenerUnref (J := J) address s = some (s', notices) ∧ h'.Linked s' ∧ s'.Sound ∧
      ∀ a key, h'.listenerKeys a = some key → h.listenerKeys a = some key := by
  obtain ⟨hmem, rfl⟩ := Keyed.search_some hlst
  obtain ⟨l, hlistener, -, -, hrefcount⟩ := hl.rep.listener_some hlst
  obtain ⟨hlinked, htops⟩ := linked_setRefcount hl hlistener (l.refcount - 1)
  by_cases hlast : lst.refcount - 1 = 0
  · -- the last reference: the watches go, then the listener
    obtain ⟨s₁, notices, hremove, hkept⟩ :=
      removeListenerWatches_spec (J := J) hs hmem (lst.refcount - 1)
    have hlength := (listenerList_nodup hs hlst).2
    have hleft : lst.watchs.length + 1 ≤ turns := by omega
    have hturns' : (s.setRefcount lst.address (lst.refcount - 1)).watches.length ≤ turns := by
      show s.watches.length ≤ turns
      omega
    rw [hrefcount] at hlinked htops
    obtain ⟨h₁, hremove', hrep₁, htops₁⟩ := removeWatches_rep
      (fun _ _ _ hrep hs hl => listenerWatchs_list hrep hs hl) hlinked.rep
      (hs.setRefcount lst.address _) hturns' hleft hremove
    have htops' := (htops.trans htops₁).tops hl.tops
    have hlong : (s.listeners.map Listener.address).length ≤ turns := by
      rw [List.length_map]
      omega
    obtain ⟨head, mem, hunlink, -, hun⟩ := Chain.unlink_spec listenerNext htops'.listeners
      hs.listenerAddresses (List.mem_map_of_mem hmem) hlong
    have hrep₂ := rep_dropListener (rep_unlinkListener hrep₁ hun) lst.address
    have hroster : s₁.roster = s.roster := hkept.roster.trans (Keyed.map_modify fun _ => rfl)
    have hunwatched : ∀ watch ∈ s₁.watches, watch.listener ≠ lst.address := by
      intro watch hw
      rw [hkept.watches, List.mem_filter] at hw
      have hpair : watch.pair.1 ≠ lst.address := by simpa using hw.2
      exact hpair
    refine ⟨_, _, notices, ?_, ?_, ⟨hrep₂, ?_, ?_⟩, hkept.sound.dropListener hunwatched, ?_⟩
    · have hlast' : l.refcount - 1 = 0 := by rw [hrefcount, hlast]
      rw [hlast] at hremove'
      simp [afbEvtListenerUnref, hlistener, hlast', hremove', hunlink]
    · simp only [Evt.afbEvtListenerUnref, hlst, hlast, Option.bind_eq_bind, Option.bind_some,
        ne_eq, not_true_eq_false, if_false]
      rw [hlast] at hremove
      simp [hremove]
    · rw [Store.addresses_of_catalog (s := s) hkept.catalog]
      exact htops'.events
    · have haddresses : (s₁.listeners.filter fun other => other.address ≠ lst.address).map
          Listener.address = (s.listeners.map Listener.address).erase lst.address := by
        have hnodup : (s₁.listeners.map Listener.address).Nodup := hkept.sound.listenerAddresses
        rw [Keyed.map_filter_ne hnodup, Store.addresses_of_roster hroster]
      rw [haddresses]
      exact leads_free hun.leads hs.listenerAddresses.not_mem_erase
    · intro a key hkey
      rw [← (htops.trans htops₁).keys, listenerKeys, ← hun.view (fun _ _ => rfl) a]
      have hkey' : (Function.update mem lst.address none a).map (fun l => (l.itf, l.closure)) =
          some key := hkey
      rw [Function.update_apply] at hkey'
      split at hkey'
      · cases hkey'
      · exact hkey'
  · refine ⟨_, _, [], by simp [afbEvtListenerUnref, hlistener, hrefcount, hlast], ?_,
      hrefcount ▸ hlinked, hs.setRefcount lst.address _, ?_⟩
    · simp [Evt.afbEvtListenerUnref, hlst, hlast]
    · intro a key hkey
      rw [← htops.keys, hrefcount]
      exact hkey

/-- Adding an object at a free address keeps a chain that does not lead through it. -/
theorem leads_new {W : Type} {field : Chain.Field W} {mem : Nat → Option W} {head : Option Nat}
    {nodes : List Nat} {address : Nat} (hleads : Chain.Leads (field.links mem) head nodes)
    (hfree : mem address = none) (w : W) :
    Chain.Leads (field.links (Function.update mem address (some w))) head nodes := by
  apply hleads.congr
  intro a ha
  have hne : a ≠ address := by
    rintro rfl
    obtain ⟨next, hnext⟩ := hleads.allocated ha
    simp [Chain.Field.links, hfree] at hnext
  simp [Chain.Field.links, Function.update_of_ne hne]

theorem Rep.listener_none (hrep : h.Rep s) {address : Nat} (hfree : h.listener address = none) :
    s.listener? address = none := by
  have hview := hrep.listener address
  rw [hfree] at hview
  exact Option.map_eq_none_iff.mp hview.symm

theorem Rep.event_none (hrep : h.Rep s) {address : Nat} (hfree : h.event address = none) :
    s.event? address = none := by
  have hview := hrep.event address
  rw [hfree] at hview
  exact Option.map_eq_none_iff.mp hview.symm

theorem Rep.watch_none (hrep : h.Rep s) {address : Nat} (hfree : h.watch address = none) :
    s.watch? address = none := by
  have hview := hrep.watch address
  rw [hfree] at hview
  exact Option.map_eq_none_iff.mp hview.symm

theorem findListener (hl : h.Linked s) (hs : s.Sound) (itf : EvtItf) (closure : Nat) {turns : Nat}
    (hturns : s.listeners.length < turns) :
    Chain.lookup (listenerNext.links h.listener)
        (fun a => (h.listener a).map fun l => decide (l.itf = itf ∧ l.closure = closure)) turns
        h.listeners =
      some ((s.listeners.find? fun listener => listener.itf = itf ∧ listener.closure = closure).map
        Listener.address) := by
  have htest : ∀ lst ∈ s.listeners, (h.listener lst.address).map
      (fun l => decide (l.itf = itf ∧ l.closure = closure)) =
        some (decide (lst.itf = itf ∧ lst.closure = closure)) := by
    intro lst hlst
    obtain ⟨l, hlistener, hitf, hclosure, -⟩ :=
      hl.rep.listener_some (Keyed.search_mem hs.listenerAddresses hlst)
    rw [hlistener, Option.map_some, hitf, hclosure]
  rw [Chain.lookup_spec hl.tops.listeners, List.find?_map]
  · congr 2
    apply List.find?_congr
    intro lst hlst
    simp only [Function.comp_apply, htest lst hlst, Option.some.injEq, decide_eq_true_eq]
  · intro a ha
    obtain ⟨lst, hlst, rfl⟩ := List.mem_map.mp ha
    rw [htest lst hlst]
    rfl
  · rwa [List.length_map]

/-- The pairs of an interface and a closure identify the listeners. -/
def KeysDistinct (h : Heap) : Prop :=
  ∀ a b key, h.listenerKeys a = some key → h.listenerKeys b = some key → a = b

/-- The heap with a new listener, the first of the static list. -/
def addListener (h : Heap) (address : Nat) (itf : EvtItf) (closure : Nat) : Heap :=
  { h.setListener address ⟨h.listeners, itf, closure, none, 1⟩ with listeners := some address }

theorem linked_addListener (hl : h.Linked s) {address : Nat} (hnew : h.listener address = none)
    (itf : EvtItf) (closure : Nat) :
    (h.addListener address itf closure).Linked
      { s with listeners := ⟨address, itf, closure, [], 1⟩ :: s.listeners } := by
  refine ⟨⟨hl.rep.watch, hl.rep.event, ?_, hl.rep.byEvent, ?_, hl.rep.counter, hl.rep.wrapped⟩,
    hl.tops.events, ?_⟩
  · intro a
    show (Function.update h.listener address (some ⟨h.listeners, itf, closure, none, 1⟩)
      a).map _ = (Keyed.search _ (_ :: s.listeners) a).map _
    rw [Function.update_apply, Keyed.search_cons]
    by_cases ha : a = address
    · rw [if_pos ha, if_pos ha.symm]
      rfl
    · rw [if_neg ha, if_neg (Ne.symm ha)]
      exact hl.rep.listener a
  · intro a lst hlst
    have hlst' : Keyed.search Listener.address
      (⟨address, itf, closure, [], 1⟩ :: s.listeners) a = some lst := hlst
    rw [Keyed.search_cons] at hlst'
    show Chain.Leads _ ((Function.update h.listener address
      (some ⟨h.listeners, itf, closure, none, 1⟩) a).bind _) _
    rw [Function.update_apply]
    by_cases ha : a = address
    · rw [if_pos ha.symm, Option.some.injEq] at hlst'
      rw [if_pos ha, ← hlst']
      rfl
    · rw [if_neg (Ne.symm ha)] at hlst'
      rw [if_neg ha]
      exact hl.rep.byListener a lst hlst'
  · have hchain := leads_new hl.tops.listeners hnew ⟨h.listeners, itf, closure, none, 1⟩
    apply hchain.cons
    simp [Chain.Field.links, listenerNext]

/-- No listener has a pair that the search does not find. -/
theorem listenerKeys_unused (hl : h.Linked s) {itf : EvtItf} {closure : Nat}
    (hfound : (s.listeners.find? fun listener =>
      listener.itf = itf ∧ listener.closure = closure) = none) (a : Nat) :
    h.listenerKeys a ≠ some (itf, closure) := by
  intro ha
  obtain ⟨l, hl', hkey⟩ := Option.map_eq_some_iff.mp ha
  cases hold : s.listener? a with
  | none =>
      have hview := hl.rep.listener a
      rw [hold, hl'] at hview
      cases hview
  | some lst =>
      obtain ⟨l', hlistener, hitf, hclosure, -⟩ := hl.rep.listener_some hold
      rw [hl'] at hlistener
      cases hlistener
      have hno := List.find?_eq_none.mp hfound lst (Keyed.search_some hold).1
      rw [Prod.mk.injEq] at hkey
      simp [← hitf, ← hclosure, hkey] at hno

theorem keysDistinct_addListener (hdistinct : h.KeysDistinct) {itf : EvtItf} {closure : Nat}
    (hunused : ∀ a, h.listenerKeys a ≠ some (itf, closure)) (address : Nat) :
    (h.addListener address itf closure).KeysDistinct := by
  have hkeys : ∀ a, (h.addListener address itf closure).listenerKeys a =
      if a = address then some (itf, closure) else h.listenerKeys a := by
    intro a
    show (Function.update h.listener address _ a).map _ = _
    rw [Function.update_apply]
    split
    · rfl
    · rfl
  intro a b key ha hb
  rw [hkeys] at ha hb
  split at ha
  case isTrue ha' =>
    cases ha
    split at hb
    case isTrue hb' => rw [ha', hb']
    case isFalse => exact absurd hb (hunused b)
  case isFalse =>
    split at hb
    case isTrue =>
      cases hb
      exact absurd ha (hunused a)
    case isFalse => exact hdistinct a b key ha hb

/-- `afb_evt_listener_create` at a free address. -/
theorem afbEvtListenerCreate_linked (hl : h.Linked s) (hs : s.Sound) (itf : EvtItf) (closure : Nat)
    {allocated : Option Nat} (hfree : ∀ a, allocated = some a → h.listener a = none) {turns : Nat}
    (hturns : s.listeners.length < turns) :
    ∃ result h' s', h.afbEvtListenerCreate turns itf closure allocated = some (result, h') ∧
      Evt.afbEvtListenerCreate itf closure allocated s = (result, s') ∧ h'.Linked s' ∧ s'.Sound ∧
      (h.KeysDistinct → h'.KeysDistinct) := by
  have hfind := findListener hl hs itf closure hturns
  cases hfound : s.listeners.find? fun listener => listener.itf = itf ∧ listener.closure = closure with
  | some lst =>
      have hlst : s.listener? lst.address = some lst :=
        Keyed.search_mem hs.listenerAddresses (List.mem_of_find?_eq_some hfound)
      obtain ⟨h', s', haddref, haddref', hlinked, hsound, hkeys⟩ :=
        afbEvtListenerAddref_linked hl hs hlst
      refine ⟨some lst.address, h', s', ?_, ?_, hlinked, hsound, ?_⟩
      · rw [hfound] at hfind
        simp only [afbEvtListenerCreate, hfind, haddref, Option.bind_eq_bind, Option.bind_some,
          Option.map_some]
      · simp only [Evt.afbEvtListenerAddref, hlst, Option.bind_eq_bind, Option.bind_some,
          Option.some.injEq] at haddref'
        simp only [Evt.afbEvtListenerCreate, hfound, haddref']
      · intro hdistinct a b key
        rw [hkeys]
        exact hdistinct a b key
  | none =>
      rw [hfound] at hfind
      cases allocated with
      | none =>
          refine ⟨none, h, s, ?_, ?_, hl, hs, fun h => h⟩
          · simp only [afbEvtListenerCreate, hfind, Option.bind_eq_bind, Option.bind_some,
              Option.map_none]
          · simp only [Evt.afbEvtListenerCreate, hfound]
      | some address =>
          have hnew := hfree address rfl
          have hfresh : address ∉ s.listeners.map Listener.address :=
            Keyed.search_none.mp (hl.rep.listener_none hnew)
          refine ⟨some address, h.addListener address itf closure, _, ?_, ?_,
            linked_addListener hl hnew itf closure, hs.addListener hfresh itf closure 1, ?_⟩
          · simp only [afbEvtListenerCreate, hfind, Option.bind_eq_bind, Option.bind_some,
              Option.map_none]
            rfl
          · simp only [Evt.afbEvtListenerCreate, hfound]
          · intro hdistinct
            exact keysDistinct_addListener hdistinct (listenerKeys_unused hl hfound) address

/-! ## Creating an event -/

theorem findEventId (hl : h.Linked s) (hs : s.Sound) (id : Int32) {turns : Nat}
    (hturns : s.events.length < turns) :
    Chain.lookup (eventNext.links h.event) (fun a => (h.event a).map fun e => decide (e.id = id))
        turns h.events =
      some ((Keyed.search EvtEvent.id s.events id).map EvtEvent.address) := by
  have htest : ∀ evt ∈ s.events, (h.event evt.address).map (fun e => decide (e.id = id)) =
      some (decide (evt.id = id)) := by
    intro evt hevt
    obtain ⟨e, hevent, hid, -⟩ := hl.rep.event_some (Keyed.search_mem hs.eventAddresses hevt)
    rw [hevent, Option.map_some, hid]
  rw [Chain.lookup_spec hl.tops.events, List.find?_map]
  · congr 2
    apply List.find?_congr
    intro evt hevt
    simp only [Function.comp_apply, htest evt hevt, Option.some.injEq, decide_eq_true_eq]
  · intro a ha
    obtain ⟨evt, hevt, rfl⟩ := List.mem_map.mp ha
    rw [htest evt hevt]
    rfl
  · rwa [List.length_map]

theorem allocateId_eq (hl : h.Linked s) (hs : s.Sound) {turns : Nat}
    (hturns : s.events.length < turns) (left : Nat) (counter : Int32 × Bool) :
    allocateId turns h left counter = doWhile nextEventId (eventIdUsed s.events) left counter := by
  induction left generalizing counter with
  | zero => rfl
  | succ left ih =>
      have hfind := findEventId hl hs (nextEventId counter).1 hturns
      rw [allocateId, doWhile]
      cases hwrapped : (nextEventId counter).2 with
      | false => simp [eventIdUsed, hwrapped]
      | true =>
          rw [hfind]
          cases hsearch : Keyed.search EvtEvent.id s.events (nextEventId counter).1 with
          | none => simp [eventIdUsed, hwrapped, hsearch]
          | some evt => simpa [eventIdUsed, hwrapped, hsearch] using ih (nextEventId counter)

/-- A new event at a free address. -/
theorem linked_addEvent (hl : h.Linked s) {address : Nat} (hfree : h.event address = none)
    (name : CString) (counter : Int32) (wrapped : Bool) :
    Heap.Linked
      { h.setEvent address ⟨h.events, none, counter, name⟩ with
        events := some address, eventIdCounter := counter, eventIdWrapped := wrapped }
      { s with
        events := ⟨address, [], counter, name⟩ :: s.events
        eventIdCounter := counter
        eventIdWrapped := wrapped } := by
  refine ⟨⟨hl.rep.watch, ?_, hl.rep.listener, ?_, hl.rep.byListener, rfl, rfl⟩, ?_,
    hl.tops.listeners⟩
  · intro a
    show (Function.update h.event address (some ⟨h.events, none, counter, name⟩) a).map _ =
      (Keyed.search _ (_ :: s.events) a).map _
    rw [Function.update_apply, Keyed.search_cons]
    by_cases ha : a = address
    · rw [if_pos ha, if_pos ha.symm]
      rfl
    · rw [if_neg ha, if_neg (Ne.symm ha)]
      exact hl.rep.event a
  · intro a evt hevt
    have hevt' : Keyed.search EvtEvent.address (⟨address, [], counter, name⟩ :: s.events) a =
        some evt := hevt
    rw [Keyed.search_cons] at hevt'
    show Chain.Leads _ ((Function.update h.event address
      (some ⟨h.events, none, counter, name⟩) a).bind _) _
    rw [Function.update_apply]
    by_cases ha : a = address
    · rw [if_pos ha.symm, Option.some.injEq] at hevt'
      rw [if_pos ha, ← hevt']
      rfl
    · rw [if_neg (Ne.symm ha)] at hevt'
      rw [if_neg ha]
      exact hl.rep.byEvent a evt hevt'
  · have hchain := leads_new hl.tops.events hfree ⟨h.events, none, counter, name⟩
    refine hchain.cons ?_
    simp [Chain.Field.links, eventNext]

/-- `afb_evt_create_event` at a free address, when its loop ends. -/
theorem afbEvtCreateEvent_linked (hl : h.Linked s) (hs : s.Sound) {name : CString}
    {allocated : Option Nat} (hfree : ∀ a, allocated = some a → h.event a = none)
    {result : Option AfbEvent} {turns : Nat}
    (hcreate : h.afbEvtCreateEvent turns name allocated = some (result, h')) :
    ∃ s', h'.Linked s' ∧ s'.Sound ∧ h'.listenerKeys = h.listenerKeys := by
  rw [afbEvtCreateEvent, Option.bind_eq_bind, Option.bind_eq_some_iff] at hcreate
  obtain ⟨⟨counter, wrapped⟩, -, hcreate⟩ := hcreate
  cases allocated with
  | none =>
      cases hcreate
      refine ⟨{ s with eventIdCounter := counter, eventIdWrapped := wrapped },
        ⟨⟨hl.rep.watch, hl.rep.event, hl.rep.listener, hl.rep.byEvent, hl.rep.byListener, rfl, rfl⟩,
          hl.tops.events, hl.tops.listeners⟩, ?_, rfl⟩
      exact ⟨hs.watchAddresses, hs.pairs, hs.eventAddresses, hs.listenerAddresses, hs.byEvent,
        hs.byListener, hs.live⟩
  | some address =>
      simp only at hcreate
      split at hcreate
      case isFalse => cases hcreate
      case isTrue =>
        cases hcreate
        have hnew := hfree address rfl
        have hfresh : address ∉ s.events.map EvtEvent.address :=
          Keyed.search_none.mp (hl.rep.event_none hnew)
        exact ⟨_, linked_addEvent hl hnew name counter wrapped,
          hs.addEvent hfresh counter name counter wrapped, rfl⟩

/-- What `afb_evt_create_event` gives in the store, it gives in the heap. -/
theorem afbEvtCreateEvent_refines (hl : h.Linked s) (hs : s.Sound) {name : CString}
    {allocated : Option Nat} (hfree : ∀ a, allocated = some a → h.event a = none)
    {result : Option AfbEvent} {turns : Nat} (hturns : s.events.length < turns)
    (hcreate : Evt.afbEvtCreateEvent name allocated s = some (result, s')) :
    ∃ h', h.afbEvtCreateEvent turns name allocated = some (result, h') ∧ h'.Linked s' := by
  rw [Evt.afbEvtCreateEvent, Option.bind_eq_bind, Option.bind_eq_some_iff] at hcreate
  obtain ⟨⟨counter, wrapped⟩, hloop, hcreate⟩ := hcreate
  have hloop' : allocateId turns h turns (h.eventIdCounter, h.eventIdWrapped) =
      some (counter, wrapped) := by
    rw [allocateId_eq hl hs hturns, hl.rep.counter, hl.rep.wrapped]
    exact doWhile_mono hturns hloop
  cases allocated with
  | none =>
      cases hcreate
      exact ⟨{ h with eventIdCounter := counter, eventIdWrapped := wrapped },
        by simp [afbEvtCreateEvent, hloop'],
        ⟨⟨hl.rep.watch, hl.rep.event, hl.rep.listener, hl.rep.byEvent, hl.rep.byListener, rfl, rfl⟩,
          hl.tops.events, hl.tops.listeners⟩⟩
  | some address =>
      simp only at hcreate
      split at hcreate
      case isFalse => cases hcreate
      case isTrue hpositive =>
        cases hcreate
        refine ⟨{ h.setEvent address ⟨h.events, none, counter, name⟩ with
          events := some address, eventIdCounter := counter, eventIdWrapped := wrapped }, ?_,
          linked_addEvent hl (hfree address rfl) name counter wrapped⟩
        simp only [afbEvtCreateEvent, hloop', if_pos hpositive, Option.bind_eq_bind,
          Option.bind_some]
        rfl

end Heap

end AfbBinder.Evt
