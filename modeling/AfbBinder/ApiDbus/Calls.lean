import AfbBinder.ApiDbus.Lifetime

/-!
# The listener of a call

A call takes the listener that its session keeps for its sender.  When there is none it makes
one, and when the making fails it is as if nothing was tried.
-/

namespace AfbBinder.ApiDbus

open Lib ApiWs

variable {J : Type} (json : JsonC J) {image : Image} {s s' : Server}

/-- The allocator gives addresses that are free. -/
structure Memory.Fresh (memory : Memory) (s : Server) : Prop where
  destination : ∀ a, memory.destination = some a → a ∉ s.destinations.map Destination.address ∧
    ∀ client c, s.store.mem client = some c → ∀ cookie ∈ c.cookies, cookie.key ≠ a
  evtListener : ∀ a, memory.evtListener = some a → a ∉ s.evt.bases.map Evt.Base.address

/-! ## Destinations -/

theorem destinationGet_spec (h : Core image s) (sender : Bytes) {allocated : Option Nat}
    (hfresh : ∀ a, allocated = some a → a ∉ s.destinations.map Destination.address) :
    destinationGet sender allocated s = (none, s) ∨
    ∃ address destinations,
      destinationGet sender allocated s = (some address, { s with destinations }) ∧
      (destinations.map Destination.name).Nodup ∧
      Counted (destinations.map Destination.entry)
        (address :: s.listeners.map Listener.destination) ∧
      (∀ d' ∈ destinations, d'.address = address → d'.name = sender) ∧
      (∀ d' ∈ destinations, d'.address ∈ s.destinations.map Destination.address →
        ∃ d ∈ s.destinations, d.address = d'.address ∧ d.name = d'.name) ∧
      (∀ d' ∈ destinations, d'.address ∈ s.destinations.map Destination.address ∨
        d'.address = address) ∧
      (address ∈ s.destinations.map Destination.address ∨ allocated = some address) := by
  cases hfind : s.destinations.find? fun destination => destination.name = sender with
  | some found =>
      have hmem := List.mem_of_find?_eq_some hfind
      have hname : found.name = sender := by simpa using List.find?_some hfind
      have hin : found.address ∈ s.destinations.map Destination.address := List.mem_map_of_mem hmem
      have hview : ∀ d' ∈ Keyed.modify Destination.address found.address
          (fun destination => { destination with refcount := destination.refcount + 1 })
          s.destinations, ∃ d ∈ s.destinations, d.address = d'.address ∧ d.name = d'.name := by
        intro d' hd'
        rcases Keyed.mem_modify.mp hd' with ⟨d, hd, -, rfl⟩ | ⟨hd, -⟩
        · exact ⟨d, hd, rfl, rfl⟩
        · exact ⟨d', hd, rfl, rfl⟩
      refine .inr ⟨found.address, _, by simp only [destinationGet, hfind]; rfl, ?_, ?_, ?_, ?_, ?_,
        .inl hin⟩
      · have hsame : (Keyed.modify Destination.address found.address
            (fun destination => { destination with refcount := destination.refcount + 1 })
            s.destinations).map Destination.name = s.destinations.map Destination.name :=
          Keyed.map_modify fun _ => rfl
        rw [hsame]
        exact h.names
      · rw [adjust_entries]
        apply h.destinations.addref
        rw [entry_addresses]
        exact hin
      · intro d' hd' haddress
        rcases hview d' hd' with ⟨d, hd, hsame, hsame'⟩
        rw [← hsame', Keyed.key_inj h.addresses hd hmem (hsame.trans haddress), hname]
      · exact fun d' hd' _ => hview d' hd'
      · intro d' hd'
        rcases hview d' hd' with ⟨d, hd, hsame, -⟩
        exact .inl (hsame ▸ List.mem_map_of_mem hd)
  | none =>
      cases allocated with
      | none => exact .inl (by simp only [destinationGet, hfind])
      | some address =>
          have hnew := hfresh address rfl
          refine .inr ⟨address, ⟨address, 1, sender⟩ :: s.destinations, by
            simp only [destinationGet, hfind], ?_, ?_, ?_, ?_, ?_, .inr rfl⟩
          · refine List.nodup_cons.mpr ⟨?_, h.names⟩
            intro hin
            rcases List.mem_map.mp hin with ⟨d, hd, hname⟩
            have hnot := List.find?_eq_none.mp hfind d hd
            simp only [decide_eq_true_eq] at hnot
            exact hnot hname
          · apply h.destinations.create
            rw [entry_addresses]
            exact hnew
          · intro d' hd' haddress
            rcases List.mem_cons.mp hd' with rfl | hd'
            · rfl
            · exact absurd (haddress ▸ List.mem_map_of_mem hd') hnew
          · intro d' hd' hin
            rcases List.mem_cons.mp hd' with rfl | hd'
            · exact absurd hin hnew
            · exact ⟨d', hd', rfl, rfl⟩
          · intro d' hd'
            rcases List.mem_cons.mp hd' with rfl | hd'
            · exact .inr rfl
            · exact .inl (List.mem_map_of_mem hd')

/-! ## Event listeners -/

theorem Core.closure_inj (h : Core image s) {base base' : Evt.Base}
    (hbase : base ∈ s.evt.ofItf image.pushItf) (hbase' : base' ∈ s.evt.ofItf image.pushItf)
    (hsame : base.closure = base'.closure) : base = base' := by
  rcases h.base_iff.mp ⟨base, hbase, rfl⟩ with ⟨l, hl, haddress⟩
  have hdestination := (h.paired base hbase l hl).mp haddress
  have haddress' := (h.paired base' hbase' l hl).mpr (hdestination.trans hsame)
  exact Keyed.key_inj h.evt.baseAddresses (Evt.mem_ofItf.mp hbase).1 (Evt.mem_ofItf.mp hbase').1
    (haddress.symm.trans haddress')

/-- `afb_evt_listener_create` for a destination that is referred to once more. -/
theorem evtListenerCreate_spec (h : Core image s) {destinations : List Destination} {address : Nat}
    {allocated : Option Nat} (hfresh : ∀ a, allocated = some a → a ∉ s.evt.bases.map Evt.Base.address)
    (hnames : (destinations.map Destination.name).Nodup)
    (hcounted : Counted (destinations.map Destination.entry)
      (address :: s.listeners.map Listener.destination)) :
    Evt.afbEvtListenerCreate image.pushItf address allocated s.evt = (none, s.evt) ∨
    ∃ listener evt,
      Evt.afbEvtListenerCreate image.pushItf address allocated s.evt = (some listener, evt) ∧
      Core image { s with
        destinations, evt
        listeners := ⟨s.nextListener, address, listener⟩ :: s.listeners
        nextListener := s.nextListener + 1 } := by
  rcases hmake : Evt.afbEvtListenerCreate image.pushItf address allocated s.evt with ⟨result, evt⟩
  rcases Evt.afbEvtListenerCreate_cases h.evt hfresh hmake with ⟨hevt, hcases⟩
  have hidents : (s.nextListener :: s.listeners.map Listener.ident).Nodup := by
    refine List.nodup_cons.mpr ⟨?_, h.idents⟩
    intro hin
    rcases List.mem_map.mp hin with ⟨l, hl, hident⟩
    exact absurd hident (Nat.ne_of_lt (h.bounded l hl))
  have hbounded : ∀ listener, ∀ l ∈ (⟨s.nextListener, address, listener⟩ :: s.listeners : List Listener),
      l.ident < s.nextListener + 1 := by
    intro listener l hl
    rcases List.mem_cons.mp hl with rfl | hl
    · exact Nat.lt_succ_self _
    · exact Nat.lt_succ_of_lt (h.bounded l hl)
  rcases hcases with ⟨base, hmem, hitf, hclosure, rfl, rfl⟩ | ⟨hnew, ⟨-, rfl, rfl⟩ | ⟨a, hsome, rfl, rfl⟩⟩
  · -- the event listener of the destination is there
    have hbase : base ∈ s.evt.ofItf image.pushItf := Evt.mem_ofItf.mpr ⟨hmem, hitf⟩
    refine .inr ⟨base.address, _, rfl, hevt, hidents, hbounded _, hnames, hcounted, ?_, ?_⟩
    · rw [Evt.Store.ofItf, Evt.setRefcount_bases, Evt.adjust_bases h.evt.baseAddresses hmem]
      apply h.watching.addref
      rw [Evt.entry_addresses]
      exact List.mem_map_of_mem hbase
    · intro b' hb' l hl
      rcases Evt.mem_ofItf_setRefcount hb' with ⟨b, hb, haddress, hsame⟩
      rw [haddress, hsame]
      rcases List.mem_cons.mp hl with rfl | hl
      · constructor
        · intro heq
          rw [← hclosure, Keyed.key_inj h.evt.baseAddresses hmem (Evt.mem_ofItf.mp hb).1 heq]
        · intro heq
          rw [h.closure_inj hbase hb (hclosure.trans heq)]
      · exact h.paired b hb l hl
  · exact .inl rfl
  · have hunused := hfresh a hsome
    have hapart : ∀ base ∈ s.evt.ofItf image.pushItf, base.closure ≠ address := fun base hbase =>
      hnew base (Evt.mem_ofItf.mp hbase).1 (Evt.mem_ofItf.mp hbase).2
    have hcons : Evt.Store.ofItf image.pushItf
        { s.evt with listeners := ⟨a, image.pushItf, address, [], 1⟩ :: s.evt.listeners } =
        ⟨a, image.pushItf, address, 1⟩ :: s.evt.ofItf image.pushItf :=
      List.filter_cons_of_pos (decide_eq_true rfl)
    refine .inr ⟨a, _, rfl, hevt, hidents, hbounded _, hnames, hcounted, ?_, ?_⟩
    · show Counted ((Evt.Store.ofItf image.pushItf _).map Evt.Base.entry) _
      rw [hcons]
      apply h.watching.create
      rw [Evt.entry_addresses]
      intro hin
      rcases List.mem_map.mp hin with ⟨base, hbase, rfl⟩
      exact hunused (List.mem_map_of_mem (Evt.mem_ofItf.mp hbase).1)
    · intro b' hb' l hl
      have hb' : b' ∈ Evt.Store.ofItf image.pushItf
        { s.evt with listeners := ⟨a, image.pushItf, address, [], 1⟩ :: s.evt.listeners } := hb'
      rw [hcons] at hb'
      rcases List.mem_cons.mp hb' with rfl | hb'
      · rcases List.mem_cons.mp hl with rfl | hl
        · exact iff_of_true rfl rfl
        · rcases h.base_iff.mpr ⟨l, hl, rfl⟩ with ⟨base, hbase, haddress⟩
          refine iff_of_false ?_ ?_
          · intro heq
            have hsame : base.address = a := haddress.trans heq
            exact hunused (hsame ▸ List.mem_map_of_mem (Evt.mem_ofItf.mp hbase).1)
          · intro heq
            exact hapart base hbase (((h.paired base hbase l hl).mp haddress.symm).symm.trans heq)
      · rcases List.mem_cons.mp hl with rfl | hl
        · refine iff_of_false ?_ fun heq => hapart b' hb' heq.symm
          intro heq
          have hsame : a = b'.address := heq
          exact hunused (hsame ▸ List.mem_map_of_mem (Evt.mem_ofItf.mp hb').1)
        · exact h.paired b' hb' l hl

/-! ## The listener -/

/-- What `afb_api_dbus_server_listerner_get` leaves, and the listener that it gives. -/
structure Taken (image : Image) (sender : Bytes) (session : Nat) (s s' : Server)
    (result : Option Nat) : Prop where
  now : s'.now = s.now
  requests : s'.requests = s.requests
  nextRequest : s'.nextRequest = s.nextRequest
  answers : s'.answers = s.answers
  next : s'.store.next = s.store.next
  uuids : ∀ client, (s'.store.mem client).map Session.ClientCtx.uuid =
    (s.store.mem client).map Session.ClientCtx.uuid
  marked : ∀ client, ∀ cookie ∈ s.store.marked image.listenerFree client,
    cookie ∈ s'.store.marked image.listenerFree client
  nextListener : s.nextListener ≤ s'.nextListener
  kept : ∀ l ∈ s.listeners, l ∈ s'.listeners
  added : ∀ l ∈ s'.listeners, l ∈ s.listeners ∨
    s.nextListener ≤ l.ident ∧ l.cookie image ∈ s'.store.marked image.listenerFree session
  named : ∀ l ∈ s.listeners, ∀ d' ∈ s'.destinations, d'.address = l.destination →
    ∃ d ∈ s.destinations, d.address = d'.address ∧ d.name = d'.name
  result : ∀ ident, result = some ident → ∃ l ∈ s'.listeners, l.ident = ident ∧
    l.cookie image ∈ s'.store.marked image.listenerFree session ∧
    ∀ d ∈ s'.destinations, d.address = l.destination → d.name = sender

/-- The tables of the events and of the destinations are rewritten for the same listeners. -/
theorem Sound.rewritten (h : Sound image s) {destinations : List Destination} {evt : Evt.Store}
    (sent : List EventMessage) (hnames : (destinations.map Destination.name).Nodup)
    (hcounted : Counted (destinations.map Destination.entry) (s.listeners.map Listener.destination))
    (hevt : evt.Sound)
    (hwatching : Counted ((evt.ofItf image.pushItf).map Evt.Base.entry) (s.listeners.map Listener.listener))
    (hpaired : ∀ base ∈ evt.ofItf image.pushItf, ∀ l ∈ s.listeners,
      (l.listener = base.address ↔ l.destination = base.closure)) :
    Sound image { s with destinations, evt, sent } := by
  constructor
  · exact ⟨hevt, h.core.idents, h.core.bounded, hnames, hcounted, hwatching, hpaired⟩
  · apply h.reserved.mono
    intro key hkey
    have hheld := (hcounted.held key).mpr (entry_addresses destinations ▸ hkey)
    rw [h.core.destination_iff]
    exact List.mem_map.mp hheld
  · exact h.held
  · exact h.once

theorem Taken.rewritten {sender : Bytes} {session : Nat} {destinations : List Destination}
    (evt : Evt.Store) (sent : List EventMessage) {result : Option Nat}
    (hnamed : ∀ l ∈ s.listeners, ∀ d' ∈ destinations, d'.address = l.destination →
      ∃ d ∈ s.destinations, d.address = d'.address ∧ d.name = d'.name)
    (hresult : ∀ ident, result = some ident → ∃ l ∈ s.listeners, l.ident = ident ∧
      l.cookie image ∈ s.store.marked image.listenerFree session ∧
      ∀ d ∈ destinations, d.address = l.destination → d.name = sender) :
    Taken image sender session s { s with destinations, evt, sent } result :=
  ⟨rfl, rfl, rfl, rfl, rfl, fun _ => rfl, fun _ _ hcookie => hcookie, Nat.le_refl _,
    fun _ hl => hl, fun _ hl => .inl hl, hnamed, hresult⟩

theorem Sound.cookieGet (h : Sound image s) {session address : Nat} {c : Session.ClientCtx}
    (hc : s.store.mem session = some c)
    (horigin : address ∈ s.destinations.map Destination.address ∨
      ∀ cookie ∈ c.cookies, cookie.key ≠ address) :
    (∃ l ∈ s.listeners, l.destination = address ∧
      l.cookie image ∈ s.store.marked image.listenerFree session ∧
      Session.ctxClientCookieGet address c = some l.ident) ∨
    address ∉ c.cookies.map Session.Cookie.key ∧ Session.ctxClientCookieGet address c = none := by
  cases hfind : c.cookies.find? fun cookie => cookie.key = address with
  | none =>
      refine .inr ⟨?_, by rw [Session.ctxClientCookieGet, hfind]; rfl⟩
      intro hin
      rcases List.mem_map.mp hin with ⟨cookie, hcookie, hkey⟩
      have hnot := List.find?_eq_none.mp hfind cookie hcookie
      simp only [decide_eq_true_eq] at hnot
      exact hnot hkey
  | some cookie =>
      have hmem := List.mem_of_find?_eq_some hfind
      have hkey : cookie.key = address := by simpa using List.find?_some hfind
      rcases horigin with hin | hnone
      · have hfree := h.reserved.own session c hc cookie hmem (hkey.symm ▸ hin)
        have hmarked : cookie ∈ s.store.marked image.listenerFree session := by
          rw [Session.marked_of_mem hc]
          exact Session.mem_marked.mpr ⟨hmem, hfree⟩
        rcases h.held session cookie hmarked with ⟨l, hl, rfl⟩
        exact .inl ⟨l, hl, hkey, hmarked, by rw [Session.ctxClientCookieGet, hfind]; rfl⟩
      · exact absurd hkey (hnone cookie hmem)

/-- The destination and the event listener that a new listener is made of. -/
structure Prepared (image : Image) (s : Server) (sender : Bytes) (c : Session.ClientCtx)
    (destinations : List Destination) (evt : Evt.Store) (address listener : Nat) : Prop where
  core : Core image { s with
    destinations, evt
    listeners := ⟨s.nextListener, address, listener⟩ :: s.listeners
    nextListener := s.nextListener + 1 }
  key : address ∉ c.cookies.map Session.Cookie.key
  own : address ∈ s.destinations.map Destination.address ∨
    ∀ client c, s.store.mem client = some c → ∀ cookie ∈ c.cookies, cookie.key ≠ address
  sender : ∀ d' ∈ destinations, d'.address = address → d'.name = sender
  view : ∀ d' ∈ destinations, d'.address ∈ s.destinations.map Destination.address →
    ∃ d ∈ s.destinations, d.address = d'.address ∧ d.name = d'.name
  split : ∀ d' ∈ destinations, d'.address ∈ s.destinations.map Destination.address ∨
    d'.address = address

section Prepared

variable {sender : Bytes} {session : Nat} {c : Session.ClientCtx}
  {destinations : List Destination} {evt : Evt.Store} {address listener : Nat}

theorem Prepared.named (hprep : Prepared image s sender c destinations evt address listener)
    (h : Sound image s) : ∀ l ∈ s.listeners, ∀ d' ∈ destinations, d'.address = l.destination →
      ∃ d ∈ s.destinations, d.address = d'.address ∧ d.name = d'.name := by
  intro l hl d' hd' haddress
  exact hprep.view d' hd' (haddress ▸ h.core.destination_iff.mpr ⟨l, hl, rfl⟩)

/-- The store of the sessions with the cookie of the new listener. -/
def cookied (image : Image) (s : Server) (session address : Nat) (c : Session.ClientCtx) :
    Session.Store :=
  s.store.put session { c with
    cookies := ⟨address, some s.nextListener, some image.listenerFree⟩ :: c.cookies }

theorem marked_cookied (hc : s.store.mem session = some c) (client : Nat) :
    (cookied image s session address c).marked image.listenerFree client =
      if client = session then ⟨address, some s.nextListener, some image.listenerFree⟩ ::
        s.store.marked image.listenerFree client
      else s.store.marked image.listenerFree client :=
  Session.marked_cookieNew (f := image.listenerFree) hc address (some s.nextListener) client

theorem mem_marked_cookied (hc : s.store.mem session = some c) {client : Nat}
    {cookie : Session.Cookie}
    (hcookie : cookie ∈ (cookied image s session address c).marked image.listenerFree client) :
    (client = session ∧ cookie = ⟨address, some s.nextListener, some image.listenerFree⟩) ∨
      cookie ∈ s.store.marked image.listenerFree client := by
  rw [marked_cookied hc] at hcookie
  split at hcookie
  · rcases List.mem_cons.mp hcookie with hcookie | hcookie
    · exact .inl ⟨by assumption, hcookie⟩
    · exact .inr hcookie
  · exact .inr hcookie

theorem Prepared.sound (hprep : Prepared image s sender c destinations evt address listener)
    (h : Sound image s) (hc : s.store.mem session = some c) :
    Sound image { s with
      destinations, evt
      listeners := ⟨s.nextListener, address, listener⟩ :: s.listeners
      nextListener := s.nextListener + 1
      store := cookied image s session address c } := by
  constructor
  · exact hprep.core.withStore _
  · apply h.reserved.cookieNew hc hprep.key
    intro client c' hc' cookie hcookie hin
    rcases List.mem_map.mp hin with ⟨d', hd', haddress⟩
    rcases hprep.split d' hd' with hold | hsame
    · exact h.reserved.own client c' hc' cookie hcookie (haddress ▸ hold)
    · rcases hprep.own with hold | hfree
      · exact h.reserved.own client c' hc' cookie hcookie (haddress ▸ hsame.symm ▸ hold)
      · exact absurd (haddress.symm.trans hsame) (hfree client c' hc' cookie hcookie)
  · intro client cookie hcookie
    rcases mem_marked_cookied hc hcookie with ⟨-, rfl⟩ | hold
    · exact ⟨_, List.mem_cons_self, rfl⟩
    · rcases h.held client cookie hold with ⟨l, hl, hsame⟩
      exact ⟨l, List.mem_cons_of_mem _ hl, hsame⟩
  · -- the listeners that were there have lower idents
    have hold : ∀ client, ∀ cookie ∈ s.store.marked image.listenerFree client,
        cookie.value ≠ some s.nextListener := by
      intro client cookie hcookie hvalue
      rcases h.held client cookie hcookie with ⟨l, hl, rfl⟩
      exact absurd (Option.some.inj hvalue) (Nat.ne_of_lt (h.core.bounded l hl))
    intro client client' cookie cookie' hcookie hcookie' hvalue
    rcases mem_marked_cookied hc hcookie with ⟨rfl, rfl⟩ | hcookie
    · rcases mem_marked_cookied hc hcookie' with ⟨rfl, -⟩ | hcookie'
      · rfl
      · exact absurd hvalue.symm (hold client' cookie' hcookie')
    · rcases mem_marked_cookied hc hcookie' with ⟨-, rfl⟩ | hcookie'
      · exact absurd hvalue (hold client cookie hcookie)
      · exact h.once client client' cookie cookie' hcookie hcookie' hvalue

theorem Prepared.taken (hprep : Prepared image s sender c destinations evt address listener)
    (h : Sound image s) (hc : s.store.mem session = some c) :
    Taken image sender session s { s with
      destinations, evt
      listeners := ⟨s.nextListener, address, listener⟩ :: s.listeners
      nextListener := s.nextListener + 1
      store := cookied image s session address c } (some s.nextListener) := by
  have hnew : (⟨address, some s.nextListener, some image.listenerFree⟩ : Session.Cookie) ∈
      (cookied image s session address c).marked image.listenerFree session := by
    rw [marked_cookied hc, if_pos rfl]
    exact List.mem_cons_self
  constructor
  · rfl
  · rfl
  · rfl
  · rfl
  · rfl
  · intro client
    rw [cookied, Session.put_mem, Function.update_apply]
    split
    · rename_i hsame
      rw [hsame, hc]
      rfl
    · rfl
  · intro client cookie hcookie
    rw [marked_cookied hc]
    split
    · exact List.mem_cons_of_mem _ hcookie
    · exact hcookie
  · exact Nat.le_succ _
  · exact fun l hl => List.mem_cons_of_mem _ hl
  · intro l hl
    rcases List.mem_cons.mp hl with rfl | hl
    · exact .inr ⟨Nat.le_refl _, hnew⟩
    · exact .inl hl
  · exact hprep.named h
  · rintro _ ⟨⟩
    exact ⟨_, List.mem_cons_self, rfl, hnew, hprep.sender⟩

/-- Without memory for its cookie, the listener is not made. -/
theorem Prepared.given_back (hprep : Prepared image s sender c destinations evt address listener)
    (h : Sound image s) (session : Nat) :
    ∃ evt' sent destinations',
      evtUnref json image listener { s with destinations, evt } =
        some { s with destinations, evt := evt', sent } ∧
      destinationUnref address { s with destinations, evt := evt', sent } =
        some { s with destinations := destinations', evt := evt', sent } ∧
      Sound image { s with destinations := destinations', evt := evt', sent } ∧
      Taken image sender session s { s with destinations := destinations', evt := evt', sent }
        none := by
  have hunref := @evtUnref_spec J json image { s with destinations, evt } listener _ _
    (Counted.Leaves.head listener (s.listeners.map Listener.listener)) hprep.core.evt
    hprep.core.watching fun base hbase => hprep.core.closure hbase
  rcases hunref with ⟨evt', sent, hevtUnref, hevt, hwatching, hbases⟩
  have hdestination := @destinationUnref_spec { s with destinations, evt := evt', sent } address _ _
    (Counted.Leaves.head address (s.listeners.map Listener.destination)) hprep.core.names
    hprep.core.destinations
  rcases hdestination with ⟨destinations', hrun, hnames, hcounted, hsub⟩
  refine ⟨evt', sent, destinations', hevtUnref, hrun, ?_, ?_⟩
  · apply h.rewritten sent hnames hcounted hevt hwatching
    intro base hbase l hl
    rcases hbases base hbase with ⟨b, hb, haddress, hclosure⟩
    rw [haddress, hclosure]
    exact hprep.core.paired b hb l (List.mem_cons_of_mem _ hl)
  · apply Taken.rewritten
    · intro l hl d' hd' haddress
      rcases hsub d' hd' with ⟨d₁, hd₁, hsame, hname⟩
      rw [hsame, hname]
      exact hprep.named h l hl d₁ hd₁ (hsame.symm.trans haddress)
    · exact fun ident hsome => by cases hsome

theorem listenerStore_spec (h : Sound image s)
    (hprep : Prepared image s sender c destinations evt address listener) {memory : Memory}
    (hc : s.store.mem session = some c) :
    ∃ result s', listenerStore json image memory address listener session c
        { s with destinations, evt } = some (result, s') ∧ Sound image s' ∧
      Taken image sender session s s' result := by
  have hnone : c.cookies.any (fun cookie => decide (cookie.key = address)) = false := by
    rw [List.any_eq_false]
    intro cookie hcookie hsame
    exact hprep.key (of_decide_eq_true hsame ▸ List.mem_map_of_mem hcookie)
  cases hmemory : memory.cookie with
  | true =>
      have hset := Session.modify_cookieNew hc hprep.key (some s.nextListener)
        (some image.listenerFree)
      refine ⟨some s.nextListener, _, ?_, hprep.sound h hc, hprep.taken h hc⟩
      simp only [listenerStore, hmemory, Bool.true_or, if_true, hset]
      rfl
  | false =>
      rcases hprep.given_back json h session with
        ⟨evt', sent, destinations', hevtUnref, hrun, hsound, htaken⟩
      refine ⟨none, _, ?_, hsound, htaken⟩
      simp only [listenerStore, hmemory, hnone, Bool.or_self, Bool.false_eq_true, if_false,
        hevtUnref, Option.bind_eq_bind, Option.bind_some, hrun]

end Prepared

/-- `afb_api_dbus_server_listerner_get` -/
theorem listenerGet_spec (h : Sound image s) {memory : Memory} (hfresh : memory.Fresh s)
    (sender : Bytes) {session : Nat} {c : Session.ClientCtx} (hc : s.store.mem session = some c) :
    ∃ result s', listenerGet json image memory sender session s = some (result, s') ∧
      Sound image s' ∧ Taken image sender session s s' result := by
  rcases destinationGet_spec h.core sender fun a ha => (hfresh.destination a ha).1 with
    hnone | ⟨address, destinations, hget, hnames, hcounted, hsender, hview, hsplit, horigin⟩
  · refine ⟨none, s, by simp only [listenerGet, hnone], h, ?_⟩
    exact Taken.rewritten s.evt s.sent (fun l _ d hd _ => ⟨d, hd, rfl, rfl⟩)
      fun ident hsome => by cases hsome
  have hown : address ∈ s.destinations.map Destination.address ∨
      ∀ client c, s.store.mem client = some c → ∀ cookie ∈ c.cookies, cookie.key ≠ address :=
    horigin.imp_right fun hsome => (hfresh.destination address hsome).2
  have hgoal : ∀ evt, evt = s.evt → ∀ result, (∀ ident, result = some ident → ∃ l ∈ s.listeners,
      l.ident = ident ∧ l.destination = address ∧
      l.cookie image ∈ s.store.marked image.listenerFree session) →
      ∃ s', destinationUnref address { s with destinations, evt } = some s' ∧ Sound image s' ∧
        Taken image sender session s s' result := by
    rintro _ rfl result hresult
    have hunref := @destinationUnref_spec { s with destinations } address _ _
      (Counted.Leaves.head address (s.listeners.map Listener.destination)) hnames hcounted
    rcases hunref with ⟨destinations', hrun, hnames', hcounted', hsub⟩
    refine ⟨{ s with destinations := destinations' }, hrun, ?_, ?_⟩
    · exact h.rewritten s.sent hnames' hcounted' h.core.evt h.core.watching h.core.paired
    · apply Taken.rewritten
      · intro l hl d' hd' haddress
        rcases hsub d' hd' with ⟨d₁, hd₁, hsame, hname⟩
        rw [hsame, hname]
        exact hview d₁ hd₁ (hsame ▸ haddress ▸ h.core.destination_iff.mpr ⟨l, hl, rfl⟩)
      · intro ident hsome
        rcases hresult ident hsome with ⟨l, hl, hident, hdestination, hcookie⟩
        refine ⟨l, hl, hident, hcookie, ?_⟩
        intro d' hd' haddress
        rcases hsub d' hd' with ⟨d₁, hd₁, hsame, hname⟩
        rw [hname]
        exact hsender d₁ hd₁ (hsame.symm.trans (haddress.trans hdestination))
  rcases h.cookieGet hc (hown.imp_right fun hfree => hfree session c hc) with
    ⟨l, hl, hdestination, hcookie, hfound⟩ | ⟨hkey, hnot⟩
  · rcases hgoal s.evt rfl (some l.ident) (by rintro _ ⟨⟩; exact ⟨l, hl, rfl, hdestination, hcookie⟩)
      with ⟨s', hrun, hsound, htaken⟩
    refine ⟨some l.ident, s', ?_, hsound, htaken⟩
    simp only [listenerGet, hget, hc, hfound, Option.bind_eq_bind, Option.bind_some]
    have hrun' : destinationUnref address { s with destinations } = some s' := hrun
    rw [hrun']
    rfl
  · rcases hgoal s.evt rfl none (by rintro _ ⟨⟩) with ⟨s', hrun, hsound, htaken⟩
    have hrun' : destinationUnref address { s with destinations } = some s' := hrun
    cases hmemory : memory.listener with
    | false =>
        refine ⟨none, s', ?_, hsound, htaken⟩
        simp only [listenerGet, hget, hc, hnot, hmemory, Option.bind_eq_bind, Option.bind_some,
          Bool.not_false, if_true]
        rw [hrun']
        rfl
    | true =>
        rcases evtListenerCreate_spec h.core hfresh.evtListener hnames hcounted with
          hfail | ⟨listener, evt, hmake, hcore⟩
        · refine ⟨none, s', ?_, hsound, htaken⟩
          simp only [listenerGet, hget, hc, hnot, hmemory, hfail, Option.bind_eq_bind,
            Option.bind_some, Bool.not_true, Bool.false_eq_true, if_false]
          rw [hrun']
          rfl
        · rcases listenerStore_spec json h ⟨hcore, hkey, hown, hsender, hview, hsplit⟩ hc with
            ⟨result, s'', hstore, hsound', htaken'⟩
          refine ⟨result, s'', ?_, hsound', htaken'⟩
          simp only [listenerGet, hget, hc, hnot, hmemory, hmake, Option.bind_eq_bind,
            Option.bind_some, Bool.not_true, Bool.false_eq_true, if_false]
          exact hstore

end AfbBinder.ApiDbus
