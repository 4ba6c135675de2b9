import AfbBinder.Evt.Activity
import AfbBinder.Lib.Run

/-!
# Whom a push reaches

The listeners subscribe, unsubscribe and are pushed events in any order.  A push goes
through the watches of the event: it counts them all and calls the listeners of those
that are active.  A watch is active once more at each subscription and stays, inactive,
after the last unsubscription.
-/

namespace AfbBinder.Evt

open Lib

variable {J : Type} {s s' : Store}

/-- The listener whose function `push` is called. -/
def Notice.pushed : Notice J → Option Nat
  | .push listener _ _ _ => some listener
  | _ => none

/-- The listeners that are called by a push. -/
def called (notices : List (Notice J)) : List Nat := notices.filterMap Notice.pushed

/-- A call with what it returned and what it called. -/
inductive Call (J : Type) where
  | addWatch (listener : Nat) (event : AfbEvent) (allocated : Option Nat) (rc : Int)
  | removeWatch (listener : Nat) (event : AfbEvent) (rc : Int)
  | push (event : Nat) (object : Option J) (result : Nat) (notices : List (Notice J))

/-- A call that returns; the allocator gives an address that no watch has. -/
inductive Store.Calls : Store → Call J → Store → Prop
  | addWatch {s s' : Store} {listener : Nat} {event : AfbEvent} {allocated : Option Nat} {rc : Int}
      {notices : List (Notice J)} (hfresh : ∀ a, allocated = some a → a ∉ s.watches.map Watch.address)
      (hadd : afbEvtAddWatch listener event allocated s = some (rc, s', notices)) :
      Calls s (.addWatch listener event allocated rc) s'
  | removeWatch {s s' : Store} {listener : Nat} {event : AfbEvent} {rc : Int}
      {notices : List (Notice J)}
      (hremove : afbEvtRemoveWatch listener event s = some (rc, s', notices)) :
      Calls s (.removeWatch listener event rc) s'
  | push {s : Store} {event : Nat} {object : Option J} {result : Nat} {notices : List (Notice J)}
      (hpush : evtPush event object s = some (result, notices)) :
      Calls s (.push event object result notices) s

/-! ## What one call does -/

theorem afbEvtAddWatch_becomes (h : s.Sound) {listener : Nat} {event : AfbEvent}
    {allocated : Option Nat} {rc : Int} {notices : List (Notice J)}
    (hfresh : ∀ a, allocated = some a → a ∉ s.watches.map Watch.address)
    (hadd : afbEvtAddWatch listener event allocated s = some (rc, s', notices)) :
    ∃ n, s.Becomes (fun listener' event' =>
      if event.ours = true ∧ (listener', event') = (listener, event.closure) then n
      else s.activity listener' event') s' := by
  have hsame : s.Becomes (fun listener' event' =>
      if event.ours = true ∧ (listener', event') = (listener, event.closure) then
        s.activity listener event.closure
      else s.activity listener' event') s := by
    apply h.becomes
    intro listener' event'
    split
    case isTrue hpair =>
      cases hpair.2
      rfl
    case isFalse => rfl
  obtain ⟨ours, closure⟩ := event
  cases hlistener : s.listener? listener with
  | none => simp [afbEvtAddWatch, hlistener] at hadd
  | some lst =>
      cases ours with
      | false =>
          simp only [afbEvtAddWatch, hlistener, Option.bind_eq_bind, Option.bind_some,
            Bool.not_false, Bool.true_or, if_true] at hadd
          cases hadd
          exact ⟨_, hsame⟩
      | true =>
          simp only [true_and] at hsame ⊢
          cases allocated with
          | some address =>
              obtain ⟨lst', -, -, ⟨-, rfl, -⟩ | ⟨evt, -, -, -, hbecomes⟩⟩ :=
                afbEvtAddWatch_cases h (hfresh address rfl) hadd
              · exact ⟨_, hsame⟩
              · exact ⟨_, hbecomes⟩
          | none =>
              obtain ⟨hl, rfl⟩ := Keyed.search_some hlistener
              have hfind := findWatch_eq h hl closure
              cases hpush : lst.itf.push with
              | false =>
                  simp only [afbEvtAddWatch, hlistener, hpush, Option.bind_eq_bind,
                    Option.bind_some, Bool.not_false, Bool.or_true, if_true] at hadd
                  cases hadd
                  exact ⟨_, hsame⟩
              | true =>
                  cases hsearch : Keyed.search Watch.pair s.watches (lst.address, closure) with
                  | none =>
                      rw [hsearch] at hfind
                      simp only [afbEvtAddWatch, hlistener, hpush, hfind, Option.bind_eq_bind,
                        Option.bind_some, Bool.not_true, Bool.or_self, Bool.false_eq_true,
                        if_false] at hadd
                      cases hadd
                      exact ⟨_, hsame⟩
                  | some watch =>
                      rw [hsearch] at hfind
                      obtain ⟨hw, hpair⟩ := Keyed.search_some hsearch
                      simp only [afbEvtAddWatch, hlistener, hpush, hfind, Option.bind_eq_bind,
                        Option.bind_some, Bool.not_true, Bool.or_self, Bool.false_eq_true,
                        if_false] at hadd
                      obtain ⟨evt, -, hout⟩ := Option.bind_eq_some_iff.mp hadd
                      cases hout
                      rw [← hpair]
                      exact ⟨_, setActivity_becomes h hw (watch.activity + 1)⟩

theorem afbEvtRemoveWatch_becomes (h : s.Sound) {listener : Nat} {event : AfbEvent} {rc : Int}
    {notices : List (Notice J)}
    (hremove : afbEvtRemoveWatch listener event s = some (rc, s', notices)) :
    (rc = 0 → event.ours = true) ∧ s.Becomes (fun listener' event' =>
      if event.ours = true ∧ (listener', event') = (listener, event.closure) then
        s.activity listener event.closure - 1
      else s.activity listener' event') s' := by
  obtain ⟨ours, closure⟩ := event
  cases ours with
  | false =>
      have hsame : s.Becomes (fun listener' event' =>
          if false = true ∧ (listener', event') = (listener, closure) then
            s.activity listener closure - 1
          else s.activity listener' event') s := by
        apply h.becomes
        intro listener' event'
        simp
      rw [afbEvtRemoveWatch, Option.bind_eq_bind] at hremove
      obtain ⟨lst, -, hout⟩ := Option.bind_eq_some_iff.mp hremove
      cases hout
      exact ⟨fun hzero => absurd hzero (by decide), hsame⟩
  | true =>
      refine ⟨fun _ => rfl, ?_⟩
      simp only [true_and]
      obtain ⟨rfl, -, hzero⟩ | ⟨lst, -, -, evt, -, -, -, hbecomes⟩ :=
        afbEvtRemoveWatch_cases h hremove
      · apply h.becomes
        intro listener' event'
        split
        case isTrue hpair =>
          cases hpair
          omega
        case isFalse => rfl
      · exact hbecomes

/-- A push counts the watches of the event and calls the listeners of the active ones. -/
theorem evtPush_called (h : s.Sound) {event : Nat} {object : Option J} {result : Nat}
    {notices : List (Notice J)} (hpush : evtPush event object s = some (result, notices)) :
    result = (s.watches.filter fun watch => watch.event = event).length ∧
      called notices = (s.watches.filter fun watch =>
        watch.event = event ∧ watch.activity ≠ 0).map Watch.listener := by
  cases hevent : s.event? event with
  | none => simp [evtPush, hevent] at hpush
  | some evt =>
      obtain ⟨hevt, rfl⟩ := Keyed.search_some hevent
      rw [evtPush_eq h hevt object] at hpush
      cases hpush
      refine ⟨rfl, ?_⟩
      have hone : ∀ watch, (pushNotices evt object watch).filterMap Notice.pushed =
          if watch.activity ≠ 0 then [watch.listener] else [] := by
        intro watch
        rw [pushNotices]
        split
        · rfl
        · rfl
      rw [called, List.filterMap_flatMap]
      simp only [hone]
      induction s.watches with
      | nil => rfl
      | cons watch rest ih =>
          by_cases hsame : watch.event = evt.address
          · by_cases hactive : watch.activity = 0
            · simpa [hsame, hactive] using ih
            · simpa [hsame, hactive] using ih
          · simpa [hsame] using ih

theorem active_of_called (h : s.Sound) {event listener : Nat} {object : Option J} {result : Nat}
    {notices : List (Notice J)} (hpush : evtPush event object s = some (result, notices))
    (hcalled : listener ∈ called notices) : s.activity listener event ≠ 0 := by
  rw [(evtPush_called h hpush).2] at hcalled
  obtain ⟨watch, hmem, rfl⟩ := List.mem_map.mp hcalled
  obtain ⟨hw, hboth⟩ := List.mem_filter.mp hmem
  have hactive : watch.event = event ∧ watch.activity ≠ 0 := by simpa using hboth
  have hpair : watch.pair = (watch.listener, event) := by rw [Watch.pair, hactive.1]
  have hsearch := Keyed.search_mem h.pairs hw
  rw [hpair] at hsearch
  rw [activity_of_search hsearch]
  exact hactive.2

theorem called_nodup (h : s.Sound) {event : Nat} {object : Option J} {result : Nat}
    {notices : List (Notice J)} (hpush : evtPush event object s = some (result, notices)) :
    (called notices).Nodup := by
  rw [(evtPush_called h hpush).2]
  have hpairs : ((s.watches.filter fun watch => watch.event = event ∧ watch.activity ≠ 0).map
      Watch.pair).Nodup := h.pairs.sublist (List.filter_sublist.map Watch.pair)
  apply List.pairwise_map.mpr
  apply (List.pairwise_map.mp hpairs).imp_of_mem
  intro watch other hw hother hne hsame
  have hevent : watch.event = event ∧ watch.activity ≠ 0 := by
    simpa using (List.mem_filter.mp hw).2
  have hevent' : other.event = event ∧ other.activity ≠ 0 := by
    simpa using (List.mem_filter.mp hother).2
  exact hne (Prod.ext hsame (hevent.1.trans hevent'.1.symm))

/-! ## Sequences of calls -/

/-- After `afb_evt_remove_watch` returned 0 and until the next `afb_evt_add_watch` of the
same listener and event, no push of the event calls the listener. -/
def Effective (ts : List (Transition Store (Call J))) : Prop :=
  ∀ front mid back removal push listener event object result notices,
    ts = front ++ removal :: (mid ++ push :: back) →
    removal.action = .removeWatch listener event 0 →
    (∀ t ∈ mid, ∀ allocated rc, t.action ≠ .addWatch listener event allocated rc) →
    push.action = .push event.closure object result notices → listener ∉ called notices

/-- Every push returns the number of listeners it called. -/
def Counted (ts : List (Transition Store (Call J))) : Prop :=
  ∀ t ∈ ts, ∀ event object result notices, t.action = .push event object result notices →
    (called notices).Nodup ∧ result = (called notices).length

/-- The last unsubscription of a listener that has one returned 0. -/
def Unsubscribed (ts : List (Transition Store (Call J))) (listener : Nat) (event : AfbEvent) :
    Prop :=
  ∃ front mid removal, ts = front ++ removal :: mid ∧
    removal.action = .removeWatch listener event 0 ∧
    ∀ t ∈ mid, ∀ allocated rc, t.action ≠ .addWatch listener event allocated rc

/-- The activities are `unsigned`, and no subscription takes one back to zero. -/
def Representable (t : Transition Store (Call J)) : Prop :=
  match t.action with
  | .addWatch listener event _ _ =>
      event.ours = true → t.before.activity listener event.closure + 1 < 2 ^ 32
  | _ => True

/-- An unsubscription is made of at most one subscription. -/
def Single (t : Transition Store (Call J)) : Prop :=
  match t.action with
  | .removeWatch listener event _ =>
      event.ours = true → t.before.activity listener event.closure ≤ 1
  | _ => True

/-- A push is made when all the watches of the event are active. -/
def Attended (t : Transition Store (Call J)) : Prop :=
  match t.action with
  | .push event _ _ _ => ∀ watch ∈ t.before.watches, watch.event = event → watch.activity ≠ 0
  | _ => True

/-- The store and the history of a sequence of calls. -/
structure Tracked (s : Store) (ts : List (Transition Store (Call J))) : Prop where
  sound : s.Sound
  quiet : ∀ listener event, Unsubscribed ts listener event →
    event.ours = true ∧ s.activity listener event.closure = 0
  effective : Effective ts

/-- An unsubscription that holds after one more call is that call, or held before it. -/
theorem Unsubscribed.before {ts : List (Transition Store (Call J))} {t : Transition Store (Call J)}
    {listener : Nat} {event : AfbEvent} (h : Unsubscribed (ts ++ [t]) listener event) :
    t.action = .removeWatch listener event 0 ∨
      Unsubscribed ts listener event ∧
        ∀ allocated rc, t.action ≠ .addWatch listener event allocated rc := by
  obtain ⟨front, mid, removal, hsplit, hremoval, hmid⟩ := h
  rcases snoc_split hsplit with ⟨-, rfl, -⟩ | ⟨mid', rfl, rfl⟩
  · exact Or.inl hremoval
  · have hbefore : ∀ t ∈ mid', ∀ allocated rc, t.action ≠ .addWatch listener event allocated rc :=
      fun u hu => hmid u (List.mem_append_left _ hu)
    exact Or.inr ⟨⟨front, mid', removal, rfl, hremoval, hbefore⟩, hmid t (by simp)⟩

/-- One more call keeps the pushes effective when it is not a push, or calls no listener
that unsubscribed. -/
theorem Effective.snoc {ts : List (Transition Store (Call J))} (h : Effective ts)
    {t : Transition Store (Call J)}
    (hpush : ∀ listener event object result notices,
      t.action = .push event.closure object result notices → Unsubscribed ts listener event →
      listener ∉ called notices) :
    Effective (ts ++ [t]) := by
  intro front mid back removal push listener event object result notices hsplit hremoval hmid haction
  have hsplit' : ts ++ [t] = (front ++ removal :: mid) ++ push :: back := by simpa using hsplit
  rcases snoc_split hsplit' with ⟨-, rfl, rfl⟩ | ⟨back', rfl, rfl⟩
  · exact hpush listener event object result notices haction
      ⟨front, mid, removal, rfl, hremoval, hmid⟩
  · exact h front mid back' removal push listener event object result notices (by simp) hremoval
      hmid haction

theorem Store.Calls.sound {call : Call J} (h : s.Sound) (hcall : s.Calls call s') : s'.Sound := by
  cases hcall with
  | addWatch hfresh hadd =>
      obtain ⟨n, hbecomes⟩ := afbEvtAddWatch_becomes h hfresh hadd
      exact hbecomes.sound
  | removeWatch hremove => exact (afbEvtRemoveWatch_becomes h hremove).2.sound
  | push hpush => exact h

theorem Tracked.step {ts : List (Transition Store (Call J))} {call : Call J} (h : Tracked s ts)
    (hsingle : Single ⟨s, call, s'⟩) (hcall : s.Calls call s') :
    Tracked s' (ts ++ [⟨s, call, s'⟩]) := by
  have hsound := hcall.sound h.sound
  cases hcall with
  | @addWatch _ listener event allocated rc notices hfresh hadd =>
      obtain ⟨n, hbecomes⟩ := afbEvtAddWatch_becomes h.sound hfresh hadd
      refine ⟨hsound, ?_, h.effective.snoc ?_⟩
      · intro listener' event' hunsubscribed
        rcases hunsubscribed.before with hremove | ⟨hbefore, hother⟩
        · cases hremove
        · obtain ⟨hours, hzero⟩ := h.quiet listener' event' hbefore
          refine ⟨hours, ?_⟩
          rw [hbecomes.activity, if_neg, hzero]
          rintro ⟨hours', hpair⟩
          -- the same pair would have been the same call
          obtain ⟨rfl, hclosure⟩ := Prod.mk.inj hpair
          have hsame : event' = event := by
            cases event'
            cases event
            simp only at hours hours' hclosure
            rw [hours, hours', hclosure]
          exact hother allocated rc (by rw [hsame])
      · exact fun _ _ _ _ _ haction => by cases haction
  | @removeWatch _ listener event rc notices hremove =>
      obtain ⟨hours, hbecomes⟩ := afbEvtRemoveWatch_becomes h.sound hremove
      refine ⟨hsound, ?_, h.effective.snoc ?_⟩
      · intro listener' event' hunsubscribed
        rcases hunsubscribed.before with hthis | ⟨hbefore, -⟩
        · cases hthis
          have hone : s.activity listener event.closure ≤ 1 := hsingle (hours rfl)
          refine ⟨hours rfl, ?_⟩
          rw [hbecomes.activity, if_pos ⟨hours rfl, rfl⟩]
          omega
        · obtain ⟨hours', hzero⟩ := h.quiet listener' event' hbefore
          refine ⟨hours', ?_⟩
          rw [hbecomes.activity]
          split
          case isTrue hpair =>
            obtain ⟨rfl, hclosure⟩ := Prod.mk.inj hpair.2
            rw [← hclosure, hzero]
          case isFalse => exact hzero
      · exact fun _ _ _ _ _ haction => by cases haction
  | @push event object result notices hpush =>
      refine ⟨hsound, ?_, h.effective.snoc ?_⟩
      · intro listener' event' hunsubscribed
        rcases hunsubscribed.before with hthis | ⟨hbefore, -⟩
        · cases hthis
        · exact h.quiet listener' event' hbefore
      · intro listener event' object' result' notices' haction hunsubscribed hcalled
        cases haction
        exact active_of_called h.sound hpush hcalled (h.quiet listener event' hunsubscribed).2

/-- When all the watches of an event are active, they are those of the listeners called. -/
theorem Attended.counted {call : Call J} (h : s.Sound) (hattended : Attended ⟨s, call, s'⟩)
    (hcall : s.Calls call s') {event : Nat} {object : Option J} {result : Nat}
    {notices : List (Notice J)} (hpushed : call = .push event object result notices) :
    (called notices).Nodup ∧ result = (called notices).length := by
  cases hcall with
  | addWatch => cases hpushed
  | removeWatch => cases hpushed
  | push hpush =>
      cases hpushed
      obtain ⟨hresult, hcalled⟩ := evtPush_called h hpush
      refine ⟨called_nodup h hpush, ?_⟩
      have hall : ∀ watch ∈ s.watches, watch.event = event → watch.activity ≠ 0 := hattended
      rw [hresult, hcalled, List.length_map]
      congr 1
      apply List.filter_congr
      intro watch hw
      by_cases hevent : watch.event = event
      · simp [hevent, hall watch hw hevent]
      · simp [hevent]

theorem runs_sound {ts : List (Transition Store (Call J))} (hrun : Runs Store.Calls s s' ts)
    (hs : s.Sound) : s'.Sound :=
  hrun.invariant Store.Sound (fun _ _ _ h hcall => hcall.sound h) hs

/-- In a sequence of calls that wrap no activity: unsubscriptions are effective when each is made
of at most one subscription, and the pushes that meet active watches only count the listeners
that they call. -/
theorem unsubscription_effective {ts : List (Transition Store (Call J))} (hs : s.Sound)
    (hrun : Runs Store.Calls s s' ts) :
    ((∀ t ∈ ts, Representable t ∧ Single t) → Effective ts) ∧
      ((∀ t ∈ ts, Representable t ∧ Attended t) → Counted ts) := by
  constructor
  · intro hsingle
    have hstart : Tracked (J := J) s [] := by
      refine ⟨hs, ?_, ?_⟩
      · rintro listener event ⟨front, mid, removal, hsplit, -⟩
        simp at hsplit
      · intro front mid back removal push listener event object result notices hsplit
        simp at hsplit
    have hend : Tracked s' ts := hrun.history_of Tracked Single
      (fun _ _ _ _ htracked hsingle hcall => htracked.step hsingle hcall) hstart
      fun t ht => (hsingle t ht).2
    exact hend.effective
  · intro hattended t ht event object result notices hpushed
    obtain ⟨hcall, us, -, hreached⟩ := hrun.mem_spec ht
    exact (hattended t ht).2.counted (runs_sound hreached hs) hcall hpushed

theorem nulFree_name : (0 : UInt8) ∉ [(101 : UInt8)] := by decide

/-- A listener at 2 that takes all, and an event at 1 that it does not watch yet. -/
def unwatchedStore : Store :=
  { listeners := [⟨2, ⟨0, true, true, true, true⟩, 0, [], 1⟩]
    events := [⟨1, [], 1, ⟨[101], nulFree_name⟩⟩]
    watches := []
    eventIdCounter := 1
    eventIdWrapped := false }

theorem unwatchedStore_sound : unwatchedStore.Sound := by
  refine ⟨by decide, by decide, by decide, by decide, ?_, ?_, ?_⟩
  · intro evt hevt
    cases List.mem_singleton.mp hevt
    rfl
  · intro listener hlistener
    cases List.mem_singleton.mp hlistener
    rfl
  · intro watch hw
    cases hw

/-- A listener subscribes, unsubscribes and is not called by the push; another run pushes
before it unsubscribes. -/
theorem unsubscription_effective_pushed :
    (∃ (s' : Store) (ts : List (Transition Store (Call Unit))),
      Runs Store.Calls unwatchedStore s' ts ∧ ts.length = 3 ∧ Effective ts) ∧
    ∃ (s' : Store) (ts : List (Transition Store (Call Unit))),
      Runs Store.Calls unwatchedStore s' ts ∧ ts.length = 2 ∧ Counted ts := by
  have hadd := Runs.single (show unwatchedStore.Calls (J := Unit)
    (.addWatch 2 ⟨true, 1⟩ (some 3) 0) _ from .addWatch (fun _ _ => List.not_mem_nil) rfl)
  constructor
  · have hremove := Runs.snoc hadd
      (show Store.Calls _ (.removeWatch 2 ⟨true, 1⟩ 0) _ from .removeWatch rfl)
    have hpush := Runs.snoc hremove (show Store.Calls _ (.push 1 none 1 []) _ from .push rfl)
    refine ⟨_, _, hpush, rfl, (unsubscription_effective unwatchedStore_sound hpush).1 ?_⟩
    intro t ht
    simp only [List.nil_append, List.cons_append, List.mem_cons, List.not_mem_nil, or_false] at ht
    obtain rfl | rfl | rfl := ht
    · exact ⟨fun _ => by decide, trivial⟩
    · exact ⟨trivial, fun _ => by decide⟩
    · exact ⟨trivial, trivial⟩
  · have hpush := Runs.snoc hadd
      (show Store.Calls _ (.push 1 none 1 [.push 2 ⟨[101], by decide⟩ 1 none]) _ from .push rfl)
    refine ⟨_, _, hpush, rfl, (unsubscription_effective unwatchedStore_sound hpush).2 ?_⟩
    intro t ht
    simp only [List.nil_append, List.cons_append, List.mem_cons, List.not_mem_nil, or_false] at ht
    obtain rfl | rfl := ht
    · exact ⟨fun _ => by decide, trivial⟩
    · refine ⟨trivial, ?_⟩
      intro watch hw _
      cases List.mem_singleton.mp hw
      decide

/-- A push counts a listener that unsubscribed, and a listener that subscribed twice is
still called after it unsubscribed. -/
theorem unsubscription_fails :
    (∃ (s' : Store) (ts : List (Transition Store (Call Unit))),
      Runs Store.Calls unwatchedStore s' ts ∧ ¬ Counted ts) ∧
    ∃ (s' : Store) (ts : List (Transition Store (Call Unit))),
      Runs Store.Calls unwatchedStore s' ts ∧ ¬ Effective ts := by
  have hadd := Runs.single (show unwatchedStore.Calls (J := Unit)
    (.addWatch 2 ⟨true, 1⟩ (some 3) 0) _ from .addWatch (fun _ _ => List.not_mem_nil) rfl)
  constructor
  · have hremove := Runs.snoc hadd
      (show Store.Calls _ (.removeWatch 2 ⟨true, 1⟩ 0) _ from .removeWatch rfl)
    have hpush := Runs.snoc hremove (show Store.Calls _ (.push 1 none 1 []) _ from .push rfl)
    refine ⟨_, _, hpush, ?_⟩
    intro hcounted
    have hresult := (hcounted _ (List.mem_append_right _ (List.mem_singleton.mpr rfl)) 1 none 1 []
      rfl).2
    cases hresult
  · have hagain := Runs.snoc hadd
      (show Store.Calls _ (.addWatch 2 ⟨true, 1⟩ none 0) _ from .addWatch (by simp) rfl)
    have hremove := Runs.snoc hagain
      (show Store.Calls _ (.removeWatch 2 ⟨true, 1⟩ 0) _ from .removeWatch rfl)
    have hpush := Runs.snoc hremove
      (show Store.Calls _ (.push 1 none 1 [.push 2 ⟨[101], by decide⟩ 1 none]) _ from .push rfl)
    refine ⟨_, _, hpush, ?_⟩
    intro heffective
    refine heffective [_, _] [] [] _ _ 2 ⟨true, 1⟩ none 1 [.push 2 ⟨[101], by decide⟩ 1 none] rfl
      rfl ?_ rfl ?_
    · exact fun _ ht => by cases ht
    · exact List.mem_singleton.mpr rfl

end AfbBinder.Evt
