import AfbBinder.Evt.Refinement
import AfbBinder.Lib.Run

/-!
# The shape of the memory

Watching and its undoing on a heap that represents a sound store, and what follows for
any sequence of calls on live objects: the lists of watches lead through the watches of
their owner, each once, and the loops that unlink find what they look for.
-/

namespace AfbBinder.Evt

open Lib

variable {J : Type} {h h' : Heap} {s s' : Store}

namespace Heap

/-! ## Watching -/

theorem findWatch_rep (hrep : h.Rep s) (hs : s.Sound) {listener : Nat} {lst : Listener}
    (hlst : s.listener? listener = some lst) {l : ListenerStruct}
    (hlistener : h.listener listener = some l) (event : Nat) {turns : Nat}
    (hturns : s.watches.length < turns) :
    h.findWatch turns event l.watchs =
      some ((Keyed.search Watch.pair s.watches (listener, event)).map Watch.address) := by
  have hleads := hrep.byListener listener lst hlst
  rw [listenerHead, hlistener, Option.bind_some] at hleads
  have hlength := (listenerList_nodup hs hlst).2
  have htest : ∀ watch ∈ s.watches, (h.watch watch.address).map
      (fun w => decide (w.event = event)) = some (decide (watch.event = event)) := by
    intro watch hw
    obtain ⟨w, hwatch, hevent, -⟩ := hrep.watch_some (Keyed.search_mem hs.watchAddresses hw)
    rw [hwatch, Option.map_some, hevent]
  rw [findWatch, Chain.lookup_spec hleads]
  · obtain ⟨hmem, rfl⟩ := Keyed.search_some hlst
    rw [hs.byListener lst hmem, Store.watchsOfListener, List.find?_map, List.find?_filter]
    congr 2
    apply List.find?_congr
    intro watch hw
    simp only [Function.comp_apply, htest watch hw]
    simp [Watch.pair, Prod.ext_iff]
  · intro a ha
    obtain ⟨watch, hfound, -⟩ := (mem_listenerList hs hlst).mp ha
    obtain ⟨hw, rfl⟩ := Keyed.search_some hfound
    rw [htest watch hw]
    rfl
  · omega

theorem linked_setActivity (hl : h.Linked s) {address : Nat} {w : WatchStruct}
    (hwatch : h.watch address = some w) (activity : Nat) :
    (h.setWatch address { w with activity := activity }).Linked
      (s.setActivity address activity) := by
  have hlinks : ∀ field : Chain.Field WatchStruct,
      (field.get { w with activity := activity } = field.get w) →
      field.links (h.setWatch address { w with activity := activity }).watch =
        field.links h.watch := fun field hfield => map_update hwatch hfield
  refine ⟨⟨?_, hl.rep.event, hl.rep.listener, ?_, ?_, hl.rep.counter, hl.rep.wrapped⟩,
    hl.tops.events, hl.tops.listeners⟩
  · intro a
    have hfind : (s.setActivity address activity).watch? a = if a = address then
        (s.watch? address).map (fun w => { w with activity := activity }) else s.watch? a :=
      Keyed.search_modify fun _ => rfl
    rw [hfind]
    show (Function.update h.watch address (some { w with activity := activity }) a).map _ = _
    rw [Function.update_apply]
    split
    · have hview := hl.rep.watch address
      rw [hwatch, Option.map_some] at hview
      obtain ⟨watch, hfound, hsame⟩ := Option.map_eq_some_iff.mp hview.symm
      rw [hfound]
      simp only [WatchStruct.view, Watch.view, Prod.mk.injEq] at hsame
      simp [WatchStruct.view, Watch.view, hsame]
    · exact hl.rep.watch a
  · intro a evt hevt
    rw [hlinks Heap.byEvent rfl]
    exact hl.rep.byEvent a evt hevt
  · intro a lst hlst
    rw [hlinks Heap.byListener rfl]
    exact hl.rep.byListener a lst hlst

/-- A new object put first in the chain of one owner leaves every owner's chain led through. -/
theorem leads_first {W O V : Type} {field : Chain.Field W} {mem : Nat → Option W}
    {owners : Nat → Option O} {head : O → Option Nat} {find : Nat → Option V} {nodes : V → List Nat}
    (hleads : ∀ a v, find a = some v →
      Chain.Leads (field.links mem) ((owners a).bind head) (nodes v))
    {owner : Nat} {o o' : O} {v₀ : V} (howner : owners owner = some o)
    (hfound : find owner = some v₀) {address : Nat} (hfree : mem address = none) {w : W}
    (hnext : field.get w = head o) (hhead : head o' = some address) {change : V → V}
    (hchange : nodes (change v₀) = address :: nodes v₀) {a : Nat} {v : V}
    (hv : (if a = owner then (find owner).map change else find a) = some v) :
    Chain.Leads (field.links (Function.update mem address (some w)))
      ((Function.update owners owner (some o') a).bind head) (nodes v) := by
  by_cases ha : a = owner
  · rw [if_pos ha, hfound, Option.map_some, Option.some.injEq] at hv
    have hold := hleads owner v₀ hfound
    rw [howner, Option.bind_some] at hold
    rw [ha, Function.update_self, Option.bind_some, hhead, ← hv, hchange]
    apply (leads_new hold hfree w).cons
    simp [Chain.Field.links, hnext]
  · rw [if_neg ha] at hv
    rw [Function.update_of_ne ha]
    exact leads_new (hleads a v hv) hfree w

/-- The heap after a watch is made for an event and a listener. -/
def withWatch (h : Heap) (event : Nat) (e : EventStruct) (listener : Nat) (l : ListenerStruct)
    (address : Nat) : Heap :=
  ((h.setWatch address ⟨event, e.watchs, listener, l.watchs, 0⟩).setEvent event
    { e with watchs := some address }).setListener listener { l with watchs := some address }

theorem linked_addWatch (hl : h.Linked s) {event : Nat} {evt : EvtEvent}
    (hevt : s.event? event = some evt) {listener : Nat} {lst : Listener}
    (hlst : s.listener? listener = some lst) {e : EventStruct} (hevent : h.event event = some e)
    {l : ListenerStruct} (hlistener : h.listener listener = some l) {address : Nat}
    (hfree : h.watch address = none) :
    (h.withWatch event e listener l address).Linked
      (s.relink event (address :: evt.watchs) listener (address :: lst.watchs)
        (⟨address, event, listener, 0⟩ :: s.watches)) := by
  have htops : SameTops h (h.withWatch event e listener l address) :=
    ⟨rfl, rfl, map_update hevent rfl, map_update hlistener rfl, map_update hlistener rfl⟩
  apply htops.linked hl _ (Store.relink_catalog ..) (Store.relink_roster ..)
  refine ⟨?_, ?_, ?_, ?_, ?_, hl.rep.counter, hl.rep.wrapped⟩
  · intro a
    show (Function.update h.watch address (some ⟨event, e.watchs, listener, l.watchs, 0⟩) a).map _ =
      (Keyed.search Watch.address (⟨address, event, listener, 0⟩ :: s.watches) a).map _
    rw [Function.update_apply, Keyed.search_cons]
    by_cases ha : a = address
    · rw [if_pos ha, if_pos ha.symm]
      rfl
    · rw [if_neg ha, if_neg (Ne.symm ha)]
      exact hl.rep.watch a
  · intro a
    rw [Store.relink_event?]
    show (Function.update h.event event (some { e with watchs := some address }) a).map _ = _
    apply view_update hl.rep.event hevent
    · rfl
    · exact fun _ => rfl
  · intro a
    rw [Store.relink_listener?]
    show (Function.update h.listener listener (some { l with watchs := some address }) a).map _ = _
    apply view_update hl.rep.listener hlistener
    · rfl
    · exact fun _ => rfl
  · intro a evt' hevt'
    rw [Store.relink_event?] at hevt'
    show Chain.Leads (Heap.byEvent.links (Function.update h.watch address _))
      ((Function.update h.event event (some { e with watchs := some address }) a).bind _) evt'.watchs
    exact leads_first hl.rep.byEvent hevent hevt hfree rfl rfl rfl hevt'
  · intro a lst' hlst'
    rw [Store.relink_listener?] at hlst'
    show Chain.Leads (Heap.byListener.links (Function.update h.watch address _))
      ((Function.update h.listener listener (some { l with watchs := some address }) a).bind _)
      lst'.watchs
    exact leads_first hl.rep.byListener hlistener hlst hfree rfl rfl rfl hlst'

theorem activate_withWatch (h : Heap) (event : Nat) (e : EventStruct) (listener : Nat)
    (l : ListenerStruct) (address : Nat) :
    afbEvtAddWatch.activate (J := J) address event listener (h.withWatch event e listener l address) =
      some (0, (h.withWatch event e listener l address).setWatch address
          ⟨event, e.watchs, listener, l.watchs, 1⟩,
        if l.itf.add then [.add listener e.name e.id] else []) := by
  simp [afbEvtAddWatch.activate, withWatch, setListener, setEvent, setWatch]

/-- `afb_evt_add_watch` on live objects. -/
theorem afbEvtAddWatch_linked (hl : h.Linked s) (hs : s.Sound) {listener : Nat} {lst : Listener}
    (hlst : s.listener? listener = some lst) {event : AfbEvent}
    (hlive : event.ours = true → ∃ evt, s.event? event.closure = some evt)
    {allocated : Option Nat} (hfree : ∀ a, allocated = some a → h.watch a = none) {turns : Nat}
    (hturns : s.watches.length < turns) :
    ∃ rc h' s' notices, h.afbEvtAddWatch (J := J) turns listener event allocated =
        some (rc, h', notices) ∧
      Evt.afbEvtAddWatch (J := J) listener event allocated s = some (rc, s', notices) ∧
      h'.Linked s' ∧ s'.Sound ∧ h'.listenerKeys = h.listenerKeys := by
  obtain ⟨l, hlistener, hitf, -⟩ := hl.rep.listener_some hlst
  by_cases hrefused : (!event.ours || !lst.itf.push) = true
  · refine ⟨-1, h, s, [], ?_, ?_, hl, hs, rfl⟩
    · simp only [afbEvtAddWatch, hlistener, hitf, hrefused, Option.bind_eq_bind, Option.bind_some,
        if_true]
    · simp only [Evt.afbEvtAddWatch, hlst, hrefused, Option.bind_eq_bind, Option.bind_some, if_true]
  · have haccepted : event.ours = true ∧ lst.itf.push = true := by simpa using hrefused
    obtain ⟨hours, hpush⟩ := haccepted
    obtain ⟨evt, hevt⟩ := hlive hours
    obtain ⟨e, hevent, hid, hname⟩ := hl.rep.event_some hevt
    have hfind := findWatch_rep hl.rep hs hlst hlistener event.closure hturns
    obtain ⟨hmem, rfl⟩ := Keyed.search_some hlst
    obtain ⟨hmem', haddress⟩ := Keyed.search_some hevt
    have hfind' := findWatch_eq hs hmem event.closure
    cases hsearch : Keyed.search Watch.pair s.watches (lst.address, event.closure) with
    | some watch =>
        rw [hsearch] at hfind hfind'
        obtain ⟨hw, -⟩ := Keyed.search_some hsearch
        obtain ⟨w, hwatch, -, -, hactivity⟩ :=
          hl.rep.watch_some (Keyed.search_mem hs.watchAddresses hw)
        refine ⟨0, _, _,
          if w.activity = 0 ∧ lst.itf.add then [.add lst.address evt.name evt.id] else [], ?_, ?_,
          linked_setActivity hl hwatch (w.activity + 1),
          hs.setActivity watch.address (w.activity + 1), rfl⟩
        · simp only [afbEvtAddWatch, afbEvtAddWatch.activate, hlistener, hitf, hours, hpush, hfind,
            hevent, hwatch, hname, hid, Option.bind_eq_bind, Option.bind_some, Option.map_some,
            Bool.not_true, Bool.or_self, Bool.false_eq_true, if_false]
        · simp only [Evt.afbEvtAddWatch, activate, hlst, hours, hpush, hfind', hevt, hactivity,
            Option.bind_eq_bind, Option.bind_some, Bool.not_true, Bool.or_self,
            Bool.false_eq_true, if_false]
    | none =>
        rw [hsearch] at hfind hfind'
        cases allocated with
        | none =>
            refine ⟨-1, h, s, [], ?_, ?_, hl, hs, rfl⟩
            · simp [afbEvtAddWatch, hlistener, hitf, hours, hpush, hfind]
            · simp [Evt.afbEvtAddWatch, hlst, hours, hpush, hfind']
        | some address =>
            have hnew := hfree address rfl
            have hlinked := linked_addWatch hl hevt hlst hevent hlistener hnew
            have hfresh := Keyed.search_none.mp (hl.rep.watch_none hnew)
            have hnone := Keyed.search_none.mp hsearch
            rw [← haddress] at hlinked hnone
            have hsound := (hs.addWatch hmem hpush hmem' hfresh hnone).sound
            have hwatch : (h.withWatch evt.address e lst.address l address).watch address =
                some ⟨evt.address, e.watchs, lst.address, l.watchs, 0⟩ := Function.update_self ..
            refine ⟨0, _, _, if lst.itf.add then [.add lst.address evt.name evt.id] else [], ?_, ?_,
              linked_setActivity hlinked hwatch 1, hsound.setActivity address 1, ?_⟩
            · have hpush' : l.itf.push = true := hitf ▸ hpush
              have hmade := activate_withWatch (J := J) h event.closure e lst.address l address
              rw [withWatch] at hmade
              rw [withWatch, haddress, ← hitf, ← hname, ← hid]
              simp only [afbEvtAddWatch, hlistener, hours, hpush', hfind, hevent, hmade,
                Option.bind_eq_bind, Option.bind_some, Option.map_none, Bool.not_true,
                Bool.or_self, Bool.false_eq_true, if_false]
            · simp only [Evt.afbEvtAddWatch, activate, hlst, hours, hpush, hfind', hevt,
                Option.bind_eq_bind, Option.bind_some, Bool.not_true, Bool.or_self,
                Bool.false_eq_true, if_false, true_and]
            · exact map_update hlistener rfl

/-- `afb_evt_remove_watch` on live objects. -/
theorem afbEvtRemoveWatch_linked (hl : h.Linked s) (hs : s.Sound) {listener : Nat} {lst : Listener}
    (hlst : s.listener? listener = some lst) {event : AfbEvent}
    (hlive : event.ours = true → ∃ evt, s.event? event.closure = some evt) {turns : Nat}
    (hturns : s.watches.length < turns) :
    ∃ rc h' s' notices, h.afbEvtRemoveWatch (J := J) turns listener event = some (rc, h', notices) ∧
      Evt.afbEvtRemoveWatch (J := J) listener event s = some (rc, s', notices) ∧
      h'.Linked s' ∧ s'.Sound ∧ h'.listenerKeys = h.listenerKeys := by
  obtain ⟨l, hlistener, hitf, -⟩ := hl.rep.listener_some hlst
  cases hours : event.ours with
  | false =>
      refine ⟨-1, h, s, [], ?_, ?_, hl, hs, rfl⟩
      · simp [afbEvtRemoveWatch, hlistener, hours]
      · simp [Evt.afbEvtRemoveWatch, hlst, hours]
  | true =>
      obtain ⟨evt, hevt⟩ := hlive hours
      obtain ⟨e, hevent, hid, hname⟩ := hl.rep.event_some hevt
      have hfind := findWatch_rep hl.rep hs hlst hlistener event.closure hturns
      obtain ⟨hmem, rfl⟩ := Keyed.search_some hlst
      have hfind' := findWatch_eq hs hmem event.closure
      cases hsearch : Keyed.search Watch.pair s.watches (lst.address, event.closure) with
      | none =>
          rw [hsearch] at hfind hfind'
          refine ⟨-1, h, s, [], ?_, ?_, hl, hs, rfl⟩
          · simp [afbEvtRemoveWatch, hlistener, hours, hfind]
          · simp [Evt.afbEvtRemoveWatch, hlst, hours, hfind']
      | some watch =>
          rw [hsearch] at hfind hfind'
          obtain ⟨hw, hpair⟩ := Keyed.search_some hsearch
          have hwe : watch.event = event.closure := congrArg Prod.snd hpair
          obtain ⟨w, hwatch, -, -, hactivity⟩ :=
            hl.rep.watch_some (Keyed.search_mem hs.watchAddresses hw)
          by_cases hzero : watch.activity = 0
          · refine ⟨0, h, s, [], ?_, ?_, hl, hs, rfl⟩
            · simp [afbEvtRemoveWatch, hlistener, hours, hfind, hwatch, hactivity, hzero]
            · simp [Evt.afbEvtRemoveWatch, hlst, hours, hfind', hzero]
          · refine ⟨0, _, _, if watch.activity - 1 = 0 ∧ lst.itf.remove then
              [.remove lst.address evt.name evt.id] else [], ?_, ?_,
              linked_setActivity hl hwatch (w.activity - 1),
              hs.setActivity watch.address (w.activity - 1), rfl⟩
            · simp only [afbEvtRemoveWatch, hlistener, hitf, hours, hfind, hevent, hwatch, hactivity,
                hzero, hname, hid, Option.bind_eq_bind, Option.bind_some, Option.map_some,
                Bool.not_true, Bool.false_eq_true, if_false]
            · simp only [Evt.afbEvtRemoveWatch, hlst, hours, hfind', hwe, hevt, hactivity, hzero,
                Option.bind_eq_bind, Option.bind_some, Bool.not_true, Bool.false_eq_true, if_false]

/-! ## Sequences of calls -/

/-- The calls, with the addresses that the allocator gives. -/
inductive Action where
  | createEvent (name : CString) (allocated : Option Nat)
  | dropEvent (event : Nat)
  | listenerCreate (itf : EvtItf) (closure : Nat) (allocated : Option Nat)
  | listenerAddref (listener : Nat)
  | listenerUnref (listener : Nat)
  | addWatch (listener : Nat) (event : AfbEvent) (allocated : Option Nat)
  | removeWatch (listener : Nat) (event : AfbEvent)

/-- The heap that a call leaves when its loops end within the turns. -/
def exec (J : Type) (turns : Nat) (h : Heap) : Action → Option Heap
  | .createEvent name allocated => (h.afbEvtCreateEvent turns name allocated).map Prod.snd
  | .dropEvent event => (h.evtDestroy (J := J) turns event).map Prod.fst
  | .listenerCreate itf closure allocated =>
      (h.afbEvtListenerCreate turns itf closure allocated).map Prod.snd
  | .listenerAddref listener => h.afbEvtListenerAddref listener
  | .listenerUnref listener => (h.afbEvtListenerUnref (J := J) turns listener).map Prod.fst
  | .addWatch listener event allocated =>
      (h.afbEvtAddWatch (J := J) turns listener event allocated).map fun out => out.2.1
  | .removeWatch listener event =>
      (h.afbEvtRemoveWatch (J := J) turns listener event).map fun out => out.2.1

/-- The objects given are live and the addresses allocated are free. -/
def Allowed (h : Heap) : Action → Prop
  | .createEvent _ allocated => ∀ a, allocated = some a → h.event a = none
  | .dropEvent event => (h.event event).isSome
  | .listenerCreate _ _ allocated => ∀ a, allocated = some a → h.listener a = none
  | .listenerAddref listener => (h.listener listener).isSome
  | .listenerUnref listener => (h.listener listener).isSome
  | .addWatch listener event allocated =>
      (h.listener listener).isSome ∧ (event.ours = true → (h.event event.closure).isSome) ∧
        ∀ a, allocated = some a → h.watch a = none
  | .removeWatch listener event =>
      (h.listener listener).isSome ∧ (event.ours = true → (h.event event.closure).isSome)

/-- A call on live objects that returns. -/
def Step (J : Type) (h : Heap) (action : Action) (h' : Heap) : Prop :=
  h.Allowed action ∧ ∃ turns, h.exec J turns action = some h'

theorem exec_mono {turns turns' : Nat} (hle : turns ≤ turns') (h : Heap) (action : Action) :
    Extends (h.exec J turns action) (h.exec J turns' action) := by
  cases action with
  | createEvent name allocated => exact (afbEvtCreateEvent_mono hle name allocated h).map _
  | dropEvent event => exact (evtDestroy_mono hle event h).map _
  | listenerCreate itf closure allocated =>
      exact (afbEvtListenerCreate_mono hle itf closure allocated h).map _
  | listenerAddref listener => exact Extends.refl _
  | listenerUnref listener => exact (afbEvtListenerUnref_mono hle listener h).map _
  | addWatch listener event allocated =>
      exact (afbEvtAddWatch_mono hle listener event allocated h).map _
  | removeWatch listener event => exact (afbEvtRemoveWatch_mono hle listener event h).map _

/-- The heap represents a sound store, and its listeners have distinct keys. -/
structure Sound (h : Heap) (s : Store) : Prop where
  linked : h.Linked s
  sound : s.Sound
  keys : h.KeysDistinct

theorem KeysDistinct.of_sub (hkeys : h.KeysDistinct)
    (hsub : ∀ a key, h'.listenerKeys a = some key → h.listenerKeys a = some key) :
    h'.KeysDistinct :=
  fun a b key ha hb => hkeys a b key (hsub a key ha) (hsub b key hb)

theorem KeysDistinct.of_eq (hkeys : h.KeysDistinct) (heq : h'.listenerKeys = h.listenerKeys) :
    h'.KeysDistinct :=
  hkeys.of_sub fun a key ha => by rwa [heq] at ha

theorem Rep.event_live (hrep : h.Rep s) {a : Nat} (hlive : (h.event a).isSome) :
    ∃ evt, s.event? a = some evt := by
  cases hevt : s.event? a with
  | some evt => exact ⟨evt, rfl⟩
  | none =>
      have hview := hrep.event a
      rw [hevt, Option.map_none, Option.map_eq_none_iff] at hview
      rw [hview] at hlive
      cases hlive

theorem Rep.listener_live (hrep : h.Rep s) {a : Nat} (hlive : (h.listener a).isSome) :
    ∃ lst, s.listener? a = some lst := by
  cases hlst : s.listener? a with
  | some lst => exact ⟨lst, rfl⟩
  | none =>
      have hview := hrep.listener a
      rw [hlst, Option.map_none, Option.map_eq_none_iff] at hview
      rw [hview] at hlive
      cases hlive

/-- Every call on live objects but the creation of an event returns, and leaves a heap
that represents a sound store. -/
theorem exec_sound (hs : h.Sound s) {action : Action} (hallowed : h.Allowed action)
    (hcreate : ∀ name allocated, action ≠ .createEvent name allocated) :
    ∃ turns h' s', h.exec J turns action = some h' ∧ h'.Sound s' := by
  cases action with
  | createEvent name allocated => exact absurd rfl (hcreate name allocated)
  | dropEvent event =>
      obtain ⟨evt, hevt⟩ := hs.linked.rep.event_live hallowed
      obtain ⟨hmem, rfl⟩ := Keyed.search_some hevt
      obtain ⟨h', s', notices, hrun, -, hlinked, hsound, hkeys⟩ :=
        evtDestroy_linked (J := J) hs.linked hs.sound (List.mem_map_of_mem hmem) (Nat.lt_succ_self _)
      exact ⟨_, h', s', Option.map_eq_some_iff.mpr ⟨_, hrun, rfl⟩, hlinked, hsound,
        hs.keys.of_eq hkeys⟩
  | listenerCreate itf closure allocated =>
      obtain ⟨result, h', s', hrun, -, hlinked, hsound, hkeys⟩ :=
        afbEvtListenerCreate_linked hs.linked hs.sound itf closure hallowed (Nat.lt_succ_self _)
      exact ⟨_, h', s', Option.map_eq_some_iff.mpr ⟨_, hrun, rfl⟩, hlinked, hsound, hkeys hs.keys⟩
  | listenerAddref listener =>
      obtain ⟨lst, hlst⟩ := hs.linked.rep.listener_live hallowed
      obtain ⟨h', s', hrun, -, hlinked, hsound, hkeys⟩ :=
        afbEvtListenerAddref_linked hs.linked hs.sound hlst
      exact ⟨0, h', s', hrun, hlinked, hsound, hs.keys.of_eq hkeys⟩
  | listenerUnref listener =>
      obtain ⟨lst, hlst⟩ := hs.linked.rep.listener_live hallowed
      obtain ⟨h', s', notices, hrun, -, hlinked, hsound, hkeys⟩ :=
        afbEvtListenerUnref_linked (J := J) hs.linked hs.sound hlst (Nat.lt_succ_self _)
      exact ⟨_, h', s', Option.map_eq_some_iff.mpr ⟨_, hrun, rfl⟩, hlinked, hsound,
        hs.keys.of_sub hkeys⟩
  | addWatch listener event allocated =>
      obtain ⟨hlistener, hlive, hfree⟩ := hallowed
      obtain ⟨lst, hlst⟩ := hs.linked.rep.listener_live hlistener
      obtain ⟨rc, h', s', notices, hrun, -, hlinked, hsound, hkeys⟩ :=
        afbEvtAddWatch_linked (J := J) hs.linked hs.sound hlst
          (fun hours => hs.linked.rep.event_live (hlive hours)) hfree (Nat.lt_succ_self _)
      exact ⟨_, h', s', Option.map_eq_some_iff.mpr ⟨_, hrun, rfl⟩, hlinked, hsound,
        hs.keys.of_eq hkeys⟩
  | removeWatch listener event =>
      obtain ⟨hlistener, hlive⟩ := hallowed
      obtain ⟨lst, hlst⟩ := hs.linked.rep.listener_live hlistener
      obtain ⟨rc, h', s', notices, hrun, -, hlinked, hsound, hkeys⟩ :=
        afbEvtRemoveWatch_linked (J := J) hs.linked hs.sound hlst
          (fun hours => hs.linked.rep.event_live (hlive hours)) (Nat.lt_succ_self _)
      exact ⟨_, h', s', Option.map_eq_some_iff.mpr ⟨_, hrun, rfl⟩, hlinked, hsound,
        hs.keys.of_eq hkeys⟩

theorem step_sound {action : Action} (hs : h.Sound s) (hstep : h.Step J action h') :
    ∃ s', h'.Sound s' := by
  obtain ⟨hallowed, turns, hrun⟩ := hstep
  by_cases hcreate : ∃ name allocated, action = .createEvent name allocated
  · obtain ⟨name, allocated, rfl⟩ := hcreate
    obtain ⟨⟨result, h''⟩, hrun', rfl⟩ := Option.map_eq_some_iff.mp hrun
    obtain ⟨s', hlinked, hsound, hkeys⟩ :=
      afbEvtCreateEvent_linked hs.linked hs.sound hallowed hrun'
    exact ⟨s', hlinked, hsound, hs.keys.of_eq hkeys⟩
  · have hother : ∀ name allocated, action ≠ .createEvent name allocated :=
      fun name allocated heq => hcreate ⟨name, allocated, heq⟩
    obtain ⟨enough, h'', s', hrun', hsound⟩ := exec_sound (J := J) hs hallowed hother
    -- both bounds on the turns are enough, so the results are the same
    have hmore := exec_mono (Nat.le_max_left turns enough) h action h' hrun
    have hmore' := exec_mono (Nat.le_max_right turns enough) h action h'' hrun'
    rw [hmore] at hmore'
    cases hmore'
    exact ⟨s', hsound⟩

theorem init_sound : ∃ s, Heap.init.Sound s := by
  refine ⟨⟨[], [], [], 0, false⟩, ⟨⟨fun _ => rfl, fun _ => rfl, fun _ => rfl, ?_, ?_, rfl, rfl⟩,
    rfl, rfl⟩, ⟨List.nodup_nil, List.nodup_nil, List.nodup_nil, List.nodup_nil, ?_, ?_, ?_⟩, ?_⟩
  · exact fun _ _ hevt => by cases hevt
  · exact fun _ _ hlst => by cases hlst
  · exact fun _ hevt => by cases hevt
  · exact fun _ hlst => by cases hlst
  · exact fun _ hw => by cases hw
  · exact fun _ _ _ ha => by cases ha

/-! ## The shape -/

/-- The representation invariant, in the terms of the memory. -/
structure Shape (h : Heap) : Prop where
  /-- The list of an event leads through its watches, each once, and through nothing else. -/
  byEvent : ∀ a e, h.event a = some e → ∃ nodes,
    Chain.Leads (byEvent.links h.watch) e.watchs nodes ∧
      ∀ b, nodes.count b = if (h.watch b).map WatchStruct.event = some a then 1 else 0
  /-- The list of a listener leads through its watches, each once, and through nothing else. -/
  byListener : ∀ a l, h.listener a = some l → ∃ nodes,
    Chain.Leads (byListener.links h.watch) l.watchs nodes ∧
      ∀ b, nodes.count b = if (h.watch b).map WatchStruct.listener = some a then 1 else 0
  pairs : ∀ a b w w', h.watch a = some w → h.watch b = some w' → w.event = w'.event →
    w.listener = w'.listener → a = b
  live : ∀ a w, h.watch a = some w →
    (h.event w.event).isSome ∧ (h.listener w.listener).isSome
  keys : ∀ a b l l', h.listener a = some l → h.listener b = some l' → l.itf = l'.itf →
    l.closure = l'.closure → a = b
  /-- The two loops of `remove_watch` find the watch. -/
  unlinkWatch : ∀ a w e l, h.watch a = some w → h.event w.event = some e →
    h.listener w.listener = some l → ∃ turns,
      (Chain.seek (Heap.byEvent.links h.watch) a turns .head e.watchs).isSome ∧
        (Chain.seek (Heap.byListener.links h.watch) a turns .head l.watchs).isSome
  /-- The loop of `afb_evt_listener_unref` finds the listener. -/
  unlinkListener : ∀ a, (h.listener a).isSome → ∃ turns,
    (Chain.seek (listenerNext.links h.listener) a turns .head h.listeners).isSome

theorem Rep.watch_iff (hrep : h.Rep s) {β : Type} {field : WatchStruct → β}
    (view : Nat × Nat × Nat → β) (hfield : ∀ w, field w = view w.view) (b : Nat) (value : β) :
    (h.watch b).map field = some value ↔
      ∃ watch, s.watch? b = some watch ∧ view watch.view = value := by
  have hmap : (h.watch b).map field = ((s.watch? b).map Watch.view).map view := by
    rw [← hrep.watch b, Option.map_map]
    congr 1
    exact funext hfield
  rw [hmap, Option.map_map, Option.map_eq_some_iff]
  rfl

theorem Sound.leads_event (hs : h.Sound s) {a : Nat} {e : EventStruct} (he : h.event a = some e) :
    ∃ evt, s.event? a = some evt ∧
      Chain.Leads (Heap.byEvent.links h.watch) e.watchs evt.watchs := by
  obtain ⟨evt, hevt⟩ := hs.linked.rep.event_live (a := a) (by rw [he]; rfl)
  have hleads := hs.linked.rep.byEvent a evt hevt
  rw [eventHead, he, Option.bind_some] at hleads
  exact ⟨evt, hevt, hleads⟩

theorem Sound.leads_listener (hs : h.Sound s) {a : Nat} {l : ListenerStruct}
    (hl : h.listener a = some l) :
    ∃ lst, s.listener? a = some lst ∧
      Chain.Leads (Heap.byListener.links h.watch) l.watchs lst.watchs := by
  obtain ⟨lst, hlst⟩ := hs.linked.rep.listener_live (a := a) (by rw [hl]; rfl)
  have hleads := hs.linked.rep.byListener a lst hlst
  rw [listenerHead, hl, Option.bind_some] at hleads
  exact ⟨lst, hlst, hleads⟩

/-- The watch of the store behind a watch of the heap. -/
theorem Rep.watch_back (hrep : h.Rep s) {a : Nat} {w : WatchStruct} (hw : h.watch a = some w) :
    ∃ watch, s.watch? a = some watch ∧ w.event = watch.event ∧ w.listener = watch.listener := by
  have hview := hrep.watch a
  rw [hw, Option.map_some] at hview
  obtain ⟨watch, hfound, hsame⟩ := Option.map_eq_some_iff.mp hview.symm
  simp only [WatchStruct.view, Watch.view, Prod.mk.injEq] at hsame
  exact ⟨watch, hfound, hsame.1.symm, hsame.2.1.symm⟩

theorem Sound.shape (hs : h.Sound s) : h.Shape where
  byEvent := by
    intro a e he
    obtain ⟨evt, hevt, hleads⟩ := hs.leads_event he
    refine ⟨evt.watchs, hleads, ?_⟩
    intro b
    rw [(eventList_nodup hs.sound hevt).1.count]
    have hmem : b ∈ evt.watchs ↔ (h.watch b).map WatchStruct.event = some a :=
      (mem_eventList hs.sound hevt).trans
        (hs.linked.rep.watch_iff Prod.fst (fun _ => rfl) b a).symm
    simp only [hmem]
  byListener := by
    intro a l hl
    obtain ⟨lst, hlst, hleads⟩ := hs.leads_listener hl
    refine ⟨lst.watchs, hleads, ?_⟩
    intro b
    rw [(listenerList_nodup hs.sound hlst).1.count]
    have hmem : b ∈ lst.watchs ↔ (h.watch b).map WatchStruct.listener = some a :=
      (mem_listenerList hs.sound hlst).trans
        (hs.linked.rep.watch_iff (fun view => view.2.1) (fun _ => rfl) b a).symm
    simp only [hmem]
  pairs := by
    intro a b w w' hw hw' hevent hlistener
    obtain ⟨watch, hfound, he, hl⟩ := hs.linked.rep.watch_back hw
    obtain ⟨watch', hfound', he', hl'⟩ := hs.linked.rep.watch_back hw'
    obtain ⟨hmem, rfl⟩ := Keyed.search_some hfound
    obtain ⟨hmem', rfl⟩ := Keyed.search_some hfound'
    have hpair : watch.pair = watch'.pair := by
      simp only [Watch.pair, Prod.mk.injEq]
      exact ⟨by rw [← hl, ← hl', hlistener], by rw [← he, ← he', hevent]⟩
    have hsearch := Keyed.search_mem hs.sound.pairs hmem
    rw [hpair, Keyed.search_mem hs.sound.pairs hmem'] at hsearch
    cases hsearch
    rfl
  live := by
    intro a w hw
    obtain ⟨watch, hfound, he, hl⟩ := hs.linked.rep.watch_back hw
    obtain ⟨-, ⟨evt, -, -, hevt⟩, lst, -, -, -, hlst⟩ := hs.sound.ends (Keyed.search_some hfound).1
    obtain ⟨e, hevent, -⟩ := hs.linked.rep.event_some hevt
    obtain ⟨l, hlistener, -⟩ := hs.linked.rep.listener_some hlst
    rw [he, hl, hevent, hlistener]
    exact ⟨rfl, rfl⟩
  keys := by
    intro a b l l' hl hl' hitf hclosure
    apply hs.keys a b (l.itf, l.closure)
    · rw [listenerKeys, hl, Option.map_some]
    · rw [listenerKeys, hl', Option.map_some, hitf, hclosure]
  unlinkWatch := by
    intro a w e l hw he hl
    obtain ⟨watch, hfound, hwe, hwl⟩ := hs.linked.rep.watch_back hw
    obtain ⟨evt, hevt, hleads⟩ := hs.leads_event he
    obtain ⟨lst, hlst, hleads'⟩ := hs.leads_listener hl
    have hmem := (mem_eventList hs.sound hevt).mpr ⟨watch, hfound, hwe.symm⟩
    have hmem' := (mem_listenerList hs.sound hlst).mpr ⟨watch, hfound, hwl.symm⟩
    obtain ⟨hnodup, hlength⟩ := eventList_nodup hs.sound hevt
    obtain ⟨hnodup', hlength'⟩ := listenerList_nodup hs.sound hlst
    obtain ⟨cell, hseek, -⟩ := Chain.seek_spec hleads hnodup hmem hlength
    obtain ⟨cell', hseek', -⟩ := Chain.seek_spec hleads' hnodup' hmem' hlength'
    exact ⟨s.watches.length, by rw [hseek]; rfl, by rw [hseek']; rfl⟩
  unlinkListener := by
    intro a hlive
    obtain ⟨lst, hlst⟩ := hs.linked.rep.listener_live hlive
    obtain ⟨hmem, rfl⟩ := Keyed.search_some hlst
    obtain ⟨cell, hseek, -⟩ := Chain.seek_spec hs.linked.tops.listeners hs.sound.listenerAddresses
      (List.mem_map_of_mem hmem) (Nat.le_refl _)
    exact ⟨_, by rw [hseek]; rfl⟩

end Heap

/-- Any sequence of calls on live objects keeps the shape of the memory, and no call but
the creation of an event fails to return. -/
theorem event_graph_shaped {ts : List (Transition Heap Heap.Action)}
    (hrun : Runs (Heap.Step J) Heap.init h ts) :
    h.Shape ∧ ∀ action, h.Allowed action →
      (∀ name allocated, action ≠ .createEvent name allocated) → ∃ h', h.Step J action h' := by
  have hsound : ∃ s, h.Sound s :=
    hrun.invariant (fun h => ∃ s, h.Sound s)
      (fun _ _ _ ⟨_, hs⟩ hstep => Heap.step_sound hs hstep) Heap.init_sound
  obtain ⟨s, hs⟩ := hsound
  refine ⟨hs.shape, ?_⟩
  intro action hallowed hcreate
  obtain ⟨turns, h', s', hrun, -⟩ := Heap.exec_sound (J := J) hs hallowed hcreate
  exact ⟨h', hallowed, turns, hrun⟩

/-- A listener subscribes to an event, which is then dropped. -/
theorem event_graph_shaped_dropped :
    ∃ h ts, Runs (Heap.Step Unit) Heap.init h ts ∧ ts.length = 4 ∧
      (∃ t ∈ ts, (t.before.watch 3).isSome) ∧ h.watch 3 = none ∧ h.Shape := by
  have hcreate : Heap.init.Step Unit (.createEvent ⟨[101], by decide⟩ (some 1)) _ :=
    ⟨fun _ hnew => by cases hnew; rfl, 5, rfl⟩
  have hlisten := Runs.snoc (Runs.single hcreate)
    (show Heap.Step Unit _ (.listenerCreate ⟨0, true, true, true, true⟩ 0 (some 2)) _ from
      ⟨fun _ hnew => by cases hnew; rfl, 5, rfl⟩)
  have hwatch := Runs.snoc hlisten
    (show Heap.Step Unit _ (.addWatch 2 ⟨true, 1⟩ (some 3)) _ from
      ⟨⟨rfl, fun _ => rfl, fun _ hnew => by cases hnew; rfl⟩, 5, rfl⟩)
  have hdrop := Runs.snoc hwatch
    (show Heap.Step Unit _ (.dropEvent 1) _ from ⟨rfl, 5, rfl⟩)
  refine ⟨_, _, hdrop, rfl, ?_, rfl, (event_graph_shaped hdrop).1⟩
  exact ⟨_, List.mem_append_right _ (List.mem_singleton.mpr rfl), rfl⟩

end AfbBinder.Evt
