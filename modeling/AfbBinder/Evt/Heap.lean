import AfbBinder.Evt.Store
import AfbBinder.Lib.Chain

/-!
# Events, listeners and watches in memory

The same functions of `afb-evt.c` at the level of the pointers: the listeners and the
events are chained from two static variables, and each watch is threaded on the list of
its event and on the list of its listener.  The loops are bounded by a number of turns;
a function gives `none` when a loop exceeds it, reads NULL, or reads freed memory.
-/

namespace AfbBinder.Evt

open Lib

/-- `struct afb_evt_listener` -/
structure ListenerStruct where
  next : Option Nat
  itf : EvtItf
  closure : Nat
  watchs : Option Nat
  refcount : Int

/-- `struct afb_evt_event` -/
structure EventStruct where
  next : Option Nat
  watchs : Option Nat
  id : Int32
  name : CString

/-- `struct afb_evt_watch` -/
structure WatchStruct where
  event : Nat
  nextByEvent : Option Nat
  listener : Nat
  nextByListener : Option Nat
  activity : Nat

/-- The allocated objects and the static variables. -/
structure Heap where
  listener : Nat → Option ListenerStruct
  event : Nat → Option EventStruct
  watch : Nat → Option WatchStruct
  listeners : Option Nat
  events : Option Nat
  eventIdCounter : Int32
  eventIdWrapped : Bool

namespace Heap

def init : Heap :=
  { listener := fun _ => none, event := fun _ => none, watch := fun _ => none, listeners := none,
    events := none, eventIdCounter := 0, eventIdWrapped := false }

/-! ## The four chains -/

def byEvent : Chain.Field WatchStruct where
  get := WatchStruct.nextByEvent
  set := fun next watch => { watch with nextByEvent := next }
  get_set := fun _ _ => rfl

def byListener : Chain.Field WatchStruct where
  get := WatchStruct.nextByListener
  set := fun next watch => { watch with nextByListener := next }
  get_set := fun _ _ => rfl

def eventNext : Chain.Field EventStruct where
  get := EventStruct.next
  set := fun next evt => { evt with next := next }
  get_set := fun _ _ => rfl

def listenerNext : Chain.Field ListenerStruct where
  get := ListenerStruct.next
  set := fun next listener => { listener with next := next }
  get_set := fun _ _ => rfl

def setEvent (address : Nat) (evt : EventStruct) (h : Heap) : Heap :=
  { h with event := Function.update h.event address (some evt) }

def setListener (address : Nat) (listener : ListenerStruct) (h : Heap) : Heap :=
  { h with listener := Function.update h.listener address (some listener) }

def setWatch (address : Nat) (watch : WatchStruct) (h : Heap) : Heap :=
  { h with watch := Function.update h.watch address (some watch) }

variable {J : Type}

/-! ## Removing watches -/

/-- The first unlinking of `remove_watch`. -/
def unlinkByEvent (turns event address : Nat) (h : Heap) : Option Heap := do
  let evt ← h.event event
  let (watchs, watch) ← byEvent.unlink turns address evt.watchs h.watch
  some { h.setEvent event { evt with watchs := watchs } with watch := watch }

/-- The second unlinking of `remove_watch`. -/
def unlinkByListener (turns listener address : Nat) (h : Heap) : Option Heap := do
  let lst ← h.listener listener
  let (watchs, watch) ← byListener.unlink turns address lst.watchs h.watch
  some { h.setListener listener { lst with watchs := watchs } with watch := watch }

/-- `remove_watch` -/
def removeWatch (turns address : Nat) (h : Heap) : Option (Heap × List (Notice J)) := do
  let watch ← h.watch address
  let evt ← h.event watch.event
  let listener ← h.listener watch.listener
  let notices :=
    if watch.activity ≠ 0 ∧ listener.itf.remove then [.remove watch.listener evt.name evt.id]
    else []
  let h ← h.unlinkByEvent turns watch.event address
  let h ← h.unlinkByListener turns watch.listener address
  some ({ h with watch := Function.update h.watch address none }, notices)

/-- `while (watchs != NULL) remove_watch(watchs)` -/
def removeWatches (watchs : Heap → Option (Option Nat)) (turns : Nat) :
    Nat → Heap → Option (Heap × List (Notice J))
  | 0, _ => none
  | left + 1, h => do
      match ← watchs h with
      | none => some (h, [])
      | some address =>
          let (h, notices) ← h.removeWatch turns address
          let (h, others) ← removeWatches watchs turns left h
          some (h, notices ++ others)

/-! ## Events -/

def eventWatchs (address : Nat) (h : Heap) : Option (Option Nat) :=
  (h.event address).map EventStruct.watchs

/-- `evt_destroy` of an event that is not NULL.  The first loop has a test for the end. -/
def evtDestroy (turns address : Nat) (h : Heap) : Option (Heap × List (Notice J)) := do
  match ← eventNext.unlinkOrEnd turns address h.events h.event with
  | none => some (h, [])
  | some (events, event) =>
      let h := { h with events := events, event := event }
      let (h, notices) ← removeWatches (eventWatchs address) turns turns h
      some ({ h with event := Function.update h.event address none }, notices)

/-- The loop of `afb_evt_create_event` that allocates the identifier. -/
def allocateId (turns : Nat) (h : Heap) : Nat → Int32 × Bool → Option (Int32 × Bool)
  | 0, _ => none
  | left + 1, counter =>
      let counter := nextEventId counter
      if !counter.2 then some counter
      else do
        let found ← Chain.lookup (eventNext.links h.event)
          (fun a => (h.event a).map fun e => e.id = counter.1) turns h.events
        match found with
        | none => some counter
        | some _ => allocateId turns h left counter

/-- `afb_evt_create_event` -/
def afbEvtCreateEvent (turns : Nat) (name : CString) (allocated : Option Nat) (h : Heap) :
    Option (Option AfbEvent × Heap) := do
  let (counter, wrapped) ← allocateId turns h turns (h.eventIdCounter, h.eventIdWrapped)
  let h := { h with eventIdCounter := counter, eventIdWrapped := wrapped }
  match allocated with
  | none => some (none, h)
  | some address =>
      if counter > 0 then
        some (some ⟨true, address⟩,
          { h.setEvent address ⟨h.events, none, counter, name⟩ with events := some address })
      else none

/-! ## Watching -/

/-- The search of the watch of an event among the watches of a listener. -/
def findWatch (turns event : Nat) (watchs : Option Nat) (h : Heap) : Option (Option Nat) :=
  Chain.lookup (byListener.links h.watch) (fun a => (h.watch a).map fun w => w.event = event)
    turns watchs

/-- `afb_evt_add_watch`, with the address of a new watch. -/
def afbEvtAddWatch (turns listener : Nat) (event : AfbEvent) (allocated : Option Nat) (h : Heap) :
    Option (Int × Heap × List (Notice J)) := do
  let lst ← h.listener listener
  if !event.ours || !lst.itf.push then some (-1, h, [])
  else
    let found ← h.findWatch turns event.closure lst.watchs
    match found, allocated with
    | some address, _ => activate address event.closure listener h
    | none, none => some (-1, h, [])
    | none, some address =>
        let evt ← h.event event.closure
        let h := h.setWatch address ⟨event.closure, evt.watchs, listener, lst.watchs, 0⟩
        let h := h.setEvent event.closure { evt with watchs := some address }
        let h := h.setListener listener { lst with watchs := some address }
        activate address event.closure listener h
where
  /-- The end of the function, at the label `found`. -/
  activate (address event listener : Nat) (h : Heap) : Option (Int × Heap × List (Notice J)) := do
    let watch ← h.watch address
    let evt ← h.event event
    let lst ← h.listener listener
    some (0, h.setWatch address { watch with activity := watch.activity + 1 },
      if watch.activity = 0 ∧ lst.itf.add then [.add listener evt.name evt.id] else [])

/-- `afb_evt_remove_watch` -/
def afbEvtRemoveWatch (turns listener : Nat) (event : AfbEvent) (h : Heap) :
    Option (Int × Heap × List (Notice J)) := do
  let lst ← h.listener listener
  if !event.ours then some (-1, h, [])
  else
    match ← h.findWatch turns event.closure lst.watchs with
    | none => some (-1, h, [])
    | some address =>
        let watch ← h.watch address
        if watch.activity = 0 then some (0, h, [])
        else
          let evt ← h.event event.closure
          some (0, h.setWatch address { watch with activity := watch.activity - 1 },
            if watch.activity - 1 = 0 ∧ lst.itf.remove then [.remove listener evt.name evt.id]
            else [])

/-! ## Listeners -/

def listenerWatchs (address : Nat) (h : Heap) : Option (Option Nat) :=
  (h.listener address).map ListenerStruct.watchs

/-- `afb_evt_listener_addref` -/
def afbEvtListenerAddref (address : Nat) (h : Heap) : Option Heap := do
  let lst ← h.listener address
  some (h.setListener address { lst with refcount := lst.refcount + 1 })

/-- `afb_evt_listener_unref` -/
def afbEvtListenerUnref (turns address : Nat) (h : Heap) : Option (Heap × List (Notice J)) := do
  let lst ← h.listener address
  let h := h.setListener address { lst with refcount := lst.refcount - 1 }
  if lst.refcount - 1 ≠ 0 then some (h, [])
  else
    let (h, notices) ← removeWatches (listenerWatchs address) turns turns h
    let (listeners, listener) ← listenerNext.unlink turns address h.listeners h.listener
    some ({ h with
      listeners := listeners
      listener := Function.update listener address none }, notices)

/-- `afb_evt_listener_create` -/
def afbEvtListenerCreate (turns : Nat) (itf : EvtItf) (closure : Nat) (allocated : Option Nat)
    (h : Heap) : Option (Option Nat × Heap) := do
  let test := fun a => (h.listener a).map fun l => decide (l.itf = itf ∧ l.closure = closure)
  match ← Chain.lookup (listenerNext.links h.listener) test turns h.listeners, allocated with
  | some address, _ => (h.afbEvtListenerAddref address).map fun h => (some address, h)
  | none, none => some (none, h)
  | none, some address =>
      some (some address,
        { h.setListener address ⟨h.listeners, itf, closure, none, 1⟩ with
          listeners := some address })

/-! ## More turns -/

section

variable {turns turns' : Nat}

theorem removeWatch_mono (hle : turns ≤ turns') (address : Nat) (h : Heap) :
    Extends (h.removeWatch (J := J) turns address) (h.removeWatch turns' address) := by
  apply (Extends.refl _).bind
  intro watch
  apply (Extends.refl _).bind
  intro evt
  apply (Extends.refl _).bind
  intro listener
  apply ((Extends.refl _).bind fun _ => (byEvent.unlink_mono hle).bind fun _ => Extends.refl _).bind
  intro h
  apply ((Extends.refl _).bind fun _ =>
    (byListener.unlink_mono hle).bind fun _ => Extends.refl _).bind
  exact fun _ => Extends.refl _

theorem removeWatches_mono (hle : turns ≤ turns') (watchs : Heap → Option (Option Nat))
    {left left' : Nat} (hleft : left ≤ left') (h : Heap) :
    Extends (removeWatches (J := J) watchs turns left h)
      (removeWatches watchs turns' left' h) := by
  induction left generalizing left' h with
  | zero => exact fun _ h => by cases h
  | succ left ih =>
      obtain ⟨left', rfl⟩ : ∃ k, left' = k + 1 := ⟨left' - 1, by omega⟩
      apply (Extends.refl (watchs h)).bind
      intro head
      cases head with
      | none => exact Extends.refl _
      | some address =>
          apply (removeWatch_mono hle address h).bind
          intro removed
          exact (ih (by omega) removed.1).bind fun _ => Extends.refl _

theorem evtDestroy_mono (hle : turns ≤ turns') (address : Nat) (h : Heap) :
    Extends (h.evtDestroy (J := J) turns address) (h.evtDestroy turns' address) := by
  apply (eventNext.unlinkOrEnd_mono hle).bind
  intro unlinked
  cases unlinked with
  | none => exact Extends.refl _
  | some unlinked => exact (removeWatches_mono hle _ hle _).bind fun _ => Extends.refl _

theorem allocateId_mono (hle : turns ≤ turns') (h : Heap) {left left' : Nat} (hleft : left ≤ left')
    (counter : Int32 × Bool) :
    Extends (allocateId turns h left counter) (allocateId turns' h left' counter) := by
  induction left generalizing left' counter with
  | zero => exact fun _ h => by cases h
  | succ left ih =>
      obtain ⟨left', rfl⟩ : ∃ k, left' = k + 1 := ⟨left' - 1, by omega⟩
      rw [allocateId, allocateId]
      split
      · exact Extends.refl _
      · apply (Chain.lookup_mono hle).bind
        intro found
        cases found with
        | none => exact Extends.refl _
        | some _ => exact ih (by omega) (nextEventId counter)

theorem afbEvtCreateEvent_mono (hle : turns ≤ turns') (name : CString) (allocated : Option Nat)
    (h : Heap) :
    Extends (h.afbEvtCreateEvent turns name allocated) (h.afbEvtCreateEvent turns' name allocated) :=
  (allocateId_mono hle h hle _).bind fun _ => Extends.refl _

theorem afbEvtAddWatch_mono (hle : turns ≤ turns') (listener : Nat) (event : AfbEvent)
    (allocated : Option Nat) (h : Heap) :
    Extends (h.afbEvtAddWatch (J := J) turns listener event allocated)
      (h.afbEvtAddWatch turns' listener event allocated) := by
  apply (Extends.refl _).bind
  intro lst
  split
  · exact Extends.refl _
  · exact (Chain.lookup_mono hle).bind fun _ => Extends.refl _

theorem afbEvtRemoveWatch_mono (hle : turns ≤ turns') (listener : Nat) (event : AfbEvent)
    (h : Heap) :
    Extends (h.afbEvtRemoveWatch (J := J) turns listener event)
      (h.afbEvtRemoveWatch turns' listener event) := by
  apply (Extends.refl _).bind
  intro lst
  split
  · exact Extends.refl _
  · exact (Chain.lookup_mono hle).bind fun _ => Extends.refl _

theorem afbEvtListenerUnref_mono (hle : turns ≤ turns') (address : Nat) (h : Heap) :
    Extends (h.afbEvtListenerUnref (J := J) turns address)
      (h.afbEvtListenerUnref turns' address) := by
  apply (Extends.refl _).bind
  intro lst
  dsimp only
  split
  · exact Extends.refl _
  · apply (removeWatches_mono hle _ hle _).bind
    intro removed
    exact (listenerNext.unlink_mono hle).bind fun _ => Extends.refl _

theorem afbEvtListenerCreate_mono (hle : turns ≤ turns') (itf : EvtItf) (closure : Nat)
    (allocated : Option Nat) (h : Heap) :
    Extends (h.afbEvtListenerCreate turns itf closure allocated)
      (h.afbEvtListenerCreate turns' itf closure allocated) :=
  (Chain.lookup_mono hle).bind fun _ => Extends.refl _

end

end Heap

end AfbBinder.Evt
