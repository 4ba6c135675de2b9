import AfbBinder.ApiDbus.Server
import AfbBinder.Lib.Run
import Mathlib.Data.List.Nodup

/-!
# The lifetime of destinations

The listeners that the sessions keep are the holders of the destinations and of the event
listeners.  No call of the server, of a session or of the events uses an object that is freed,
but for the requests of a session that is closed.
-/

namespace AfbBinder.ApiDbus

open Lib ApiWs

variable {J : Type} (json : JsonC J) {image : Image} {s s' : Server}

def Destination.entry (destination : Destination) : Nat × Int :=
  (destination.address, destination.refcount)

/-- A listener refers to a destination and to the event listener that has this closure. -/
structure Core (image : Image) (s : Server) : Prop where
  evt : s.evt.Sound
  idents : (s.listeners.map Listener.ident).Nodup
  bounded : ∀ l ∈ s.listeners, l.ident < s.nextListener
  names : (s.destinations.map Destination.name).Nodup
  destinations : Counted (s.destinations.map Destination.entry)
    (s.listeners.map Listener.destination)
  watching : Counted ((s.evt.ofItf image.pushItf).map Evt.Base.entry) (s.listeners.map Listener.listener)
  paired : ∀ base ∈ s.evt.ofItf image.pushItf, ∀ l ∈ s.listeners,
    (l.listener = base.address ↔ l.destination = base.closure)

/-! ## The tables -/

theorem entry_addresses (destinations : List Destination) :
    (destinations.map Destination.entry).map Prod.fst = destinations.map Destination.address := by
  rw [List.map_map]
  rfl

theorem Core.addresses (h : Core image s) : (s.destinations.map Destination.address).Nodup := by
  rw [← entry_addresses]
  exact h.destinations.distinct

theorem Core.destination_iff (h : Core image s) {address : Nat} :
    address ∈ s.destinations.map Destination.address ↔ ∃ l ∈ s.listeners, l.destination = address := by
  rw [← entry_addresses, ← h.destinations.held, List.mem_map]

theorem Core.base_iff (h : Core image s) {address : Nat} :
    (∃ base ∈ s.evt.ofItf image.pushItf, base.address = address) ↔
      ∃ l ∈ s.listeners, l.listener = address := by
  have hheld := h.watching.held address
  rw [Evt.entry_addresses, List.mem_map, List.mem_map] at hheld
  exact hheld.symm

theorem Core.closure (h : Core image s) {base : Evt.Base} (hbase : base ∈ s.evt.ofItf image.pushItf) :
    base.closure ∈ s.destinations.map Destination.address := by
  rcases h.base_iff.mp ⟨base, hbase, rfl⟩ with ⟨l, hl, haddress⟩
  exact h.destination_iff.mpr ⟨l, hl, (h.paired base hbase l hl).mp haddress⟩

theorem Core.destination_some (h : Core image s) {address : Nat}
    (hin : address ∈ s.destinations.map Destination.address) :
    ∃ destination ∈ s.destinations, destination.address = address ∧
      s.destination? address = some destination := by
  rcases List.mem_map.mp hin with ⟨destination, hdestination, rfl⟩
  exact ⟨destination, hdestination, rfl, Keyed.search_mem h.addresses hdestination⟩

theorem adjust_entries (address : Nat) (n : Int) (destinations : List Destination) :
    (Keyed.modify Destination.address address
        (fun destination => { destination with refcount := destination.refcount + n })
        destinations).map Destination.entry =
      Counted.adjust address n (destinations.map Destination.entry) := by
  apply Counted.adjust_modify
  · exact fun _ => rfl
  · exact fun _ => rfl

/-! ## Sending -/

/-- The messages for a call of an interface. -/
def noticeMessages (json : JsonC J) (image : Image) (evt : Evt.Store) (s : Server)
    (notice : Evt.Notice J) : List EventMessage :=
  match evt.listener? notice.listener with
  | none => []
  | some lst =>
      if lst.itf = image.pushItf then
        match s.destination? lst.closure with
        | none => []
        | some destination => noticeMessage json destination.name notice
      else []

theorem tell_eq {evt : Evt.Store} {notices : List (Evt.Notice J)}
    (htold : ∀ notice ∈ notices, notice.listener ∈ evt.bases.map Evt.Base.address)
    (hclosure : ∀ base ∈ evt.ofItf image.pushItf,
      base.closure ∈ s.destinations.map Destination.address) :
    tell json image evt notices s =
      some { s with sent := s.sent ++ notices.flatMap (noticeMessages json image evt s) } := by
  induction notices generalizing s with
  | nil => rw [tell, List.flatMap_nil, List.append_nil]
  | cons notice rest ih =>
      have hrest := fun other hother => htold other (List.mem_cons_of_mem notice hother)
      have hlive := htold notice List.mem_cons_self
      rw [Evt.Store.bases_addresses] at hlive
      rcases Option.isSome_iff_exists.mp (Keyed.search_isSome.mpr hlive) with ⟨lst, hlst⟩
      have hlst' : evt.listener? notice.listener = some lst := hlst
      rw [tell, hlst', Option.bind_eq_bind, Option.bind_some]
      by_cases hours : lst.itf = image.pushItf
      · have hbase : lst.base ∈ evt.ofItf image.pushItf :=
          Evt.mem_ofItf.mpr ⟨List.mem_map_of_mem (Keyed.search_some hlst).1, hours⟩
        rcases Option.isSome_iff_exists.mp (Keyed.search_isSome.mpr (hclosure lst.base hbase)) with
          ⟨destination, hdestination⟩
        have hdestination' : s.destination? lst.closure = some destination := hdestination
        have hsent := @ih { s with sent := s.sent ++ noticeMessage json destination.name notice }
          hrest hclosure
        rw [if_pos hours, hdestination', Option.bind_eq_bind, Option.bind_some, hsent]
        have hhead : noticeMessages json image evt s notice =
            noticeMessage json destination.name notice := by
          simp only [noticeMessages, hlst', if_pos hours, hdestination']
        rw [List.flatMap_cons, hhead, ← List.append_assoc]
        rfl
      · have hhead : noticeMessages json image evt s notice = [] := by
          simp only [noticeMessages, hlst', if_neg hours]
        rw [if_neg hours, ih hrest hclosure, List.flatMap_cons, hhead, List.nil_append]

/-! ## A listener is freed -/

/-- The parts of the server that the destructors leave alone. -/
structure Frame (s s' : Server) : Prop where
  store : s'.store = s.store
  now : s'.now = s.now
  requests : s'.requests = s.requests
  nextRequest : s'.nextRequest = s.nextRequest
  nextListener : s'.nextListener = s.nextListener
  answers : s'.answers = s.answers

theorem Frame.refl (s : Server) : Frame s s := ⟨rfl, rfl, rfl, rfl, rfl, rfl⟩

theorem Frame.trans {s'' : Server} (h : Frame s s') (h' : Frame s' s'') : Frame s s'' :=
  ⟨h'.store.trans h.store, h'.now.trans h.now, h'.requests.trans h.requests,
    h'.nextRequest.trans h.nextRequest, h'.nextListener.trans h.nextListener,
    h'.answers.trans h.answers⟩

theorem destinationUnref_spec {address : Nat} {holders holders' : List Nat}
    (hleaves : Counted.Leaves holders holders' address)
    (hnames : (s.destinations.map Destination.name).Nodup)
    (hcounted : Counted (s.destinations.map Destination.entry) holders) :
    ∃ destinations, destinationUnref address s = some { s with destinations } ∧
      (destinations.map Destination.name).Nodup ∧
      Counted (destinations.map Destination.entry) holders' ∧
      ∀ d' ∈ destinations, ∃ d ∈ s.destinations, d'.address = d.address ∧ d'.name = d.name := by
  have hdistinct : (s.destinations.map Destination.address).Nodup := by
    rw [← entry_addresses]
    exact hcounted.distinct
  have hin := (hcounted.held address).mp hleaves.holds
  rw [entry_addresses] at hin
  rcases List.mem_map.mp hin with ⟨destination, hdestination, haddress⟩
  have hfound : s.destination? address = some destination :=
    haddress ▸ Keyed.search_mem hdistinct hdestination
  have hentry : (address, destination.refcount) ∈ s.destinations.map Destination.entry :=
    List.mem_map.mpr ⟨destination, hdestination, by rw [Destination.entry, haddress]⟩
  by_cases hmore : destination.refcount - 1 ≠ 0
  · refine ⟨Keyed.modify Destination.address address
      (fun destination => { destination with refcount := destination.refcount - 1 }) s.destinations,
      ?_, ?_, ?_, ?_⟩
    · simp only [destinationUnref, hfound, Option.bind_eq_bind, Option.bind_some, if_pos hmore]
    · have hsame : (Keyed.modify Destination.address address
          (fun destination => { destination with refcount := destination.refcount - 1 })
          s.destinations).map Destination.name = s.destinations.map Destination.name :=
        Keyed.map_modify fun _ => rfl
      rw [hsame]
      exact hnames
    · have hadjust := adjust_entries address (-1) s.destinations
      simp only [← Int.sub_eq_add_neg] at hadjust
      rw [hadjust]
      exact hcounted.unref hleaves hentry hmore
    · intro d' hd'
      rcases Keyed.mem_modify.mp hd' with ⟨d, hd, -, rfl⟩ | ⟨hd, -⟩
      · exact ⟨d, hd, rfl, rfl⟩
      · exact ⟨d', hd, rfl, rfl⟩
  · refine ⟨s.destinations.filter fun other => other.address ≠ address, ?_, ?_, ?_, ?_⟩
    · simp only [destinationUnref, hfound, Option.bind_eq_bind, Option.bind_some, if_neg hmore]
    · exact hnames.sublist (List.filter_sublist.map Destination.name)
    · have hfilter : ((s.destinations.filter fun other => other.address ≠ address).map
          Destination.entry) = (s.destinations.map Destination.entry).filter fun entry =>
            entry.1 ≠ address := by
        rw [List.filter_map]
        rfl
      rw [hfilter]
      exact hcounted.last hleaves hentry (by omega)
    · exact fun d' hd' => ⟨d', (List.mem_filter.mp hd').1, rfl, rfl⟩

theorem evtUnref_spec {listener : Nat} {holders holders' : List Nat}
    (hleaves : Counted.Leaves holders holders' listener) (hevt : s.evt.Sound)
    (hcounted : Counted ((s.evt.ofItf image.pushItf).map Evt.Base.entry) holders)
    (hclosure : ∀ base ∈ s.evt.ofItf image.pushItf,
      base.closure ∈ s.destinations.map Destination.address) :
    ∃ evt sent, evtUnref json image listener s = some { s with evt, sent } ∧ evt.Sound ∧
      Counted ((evt.ofItf image.pushItf).map Evt.Base.entry) holders' ∧
      ∀ b' ∈ evt.ofItf image.pushItf, ∃ b ∈ s.evt.ofItf image.pushItf,
        b'.address = b.address ∧ b'.closure = b.closure := by
  rcases Evt.afbEvtListenerUnref_counted (J := J) hevt hleaves hcounted with
    ⟨evt, notices, hunref, hsound, hcounted', hview, htold⟩
  refine ⟨evt, s.sent ++ notices.flatMap (noticeMessages json image s.evt s), ?_, hsound, hcounted',
    hview⟩
  have htell := tell_eq json (fun notice hnotice => (htold notice hnotice).1) hclosure
  simp only [evtUnref, hunref, htell, Option.bind_eq_bind, Option.bind_some]

/-- `afb_api_dbus_server_listener_free` on a listener that is there. -/
theorem listenerFree_spec (h : Core image s) {l : Listener} (hl : l ∈ s.listeners) :
    ∃ s', listenerFree json image l.ident s = some s' ∧ Core image s' ∧ Frame s s' ∧
      s'.listeners = (s.listeners.filter fun other => other.ident ≠ l.ident) ∧
      ∀ d' ∈ s'.destinations, ∃ d ∈ s.destinations, d'.address = d.address ∧ d'.name = d.name := by
  have hfound : s.listener? l.ident = some l := Keyed.search_mem h.idents hl
  have hleft := Counted.leaves_filter Listener.listener h.idents hl
  have hleft' := Counted.leaves_filter Listener.destination h.idents hl
  rcases evtUnref_spec json hleft h.evt h.watching fun base hbase => h.closure hbase with
    ⟨evt, sent, hunref, hevt, hwatching, hbases⟩
  have hdestination := @destinationUnref_spec { s with evt, sent } _ _ _ hleft' h.names h.destinations
  rcases hdestination with ⟨destinations, hdestination, hnames, hcounted, hsub⟩
  refine ⟨{ s with
    evt, sent, destinations, listeners := s.listeners.filter fun other => other.ident ≠ l.ident },
    ?_, ?_, ?_, rfl, hsub⟩
  · rw [listenerFree, hfound, Option.bind_eq_bind, Option.bind_some, hunref, Option.bind_eq_bind,
      Option.bind_some, hdestination]
    rfl
  · constructor
    · exact hevt
    · exact h.idents.sublist (List.filter_sublist.map Listener.ident)
    · exact fun other hother => h.bounded other (List.mem_filter.mp hother).1
    · exact hnames
    · exact hcounted
    · exact hwatching
    · intro b' hb' other hother
      rcases hbases b' hb' with ⟨b, hb, haddress, hclosure⟩
      rw [haddress, hclosure]
      exact h.paired b hb other (List.mem_filter.mp hother).1
  · exact ⟨rfl, rfl, rfl, rfl, rfl, rfl⟩

/-! ## The store of the sessions gives up listeners -/

/-- The calls of the store are for listeners that are there, each once. -/
theorem releaseAll_spec {rs : List Session.Release} (h : Core image s)
    (hnodup : ((Session.freedBy image.listenerFree rs).map Session.Release.value).Nodup)
    (hin : ∀ ident ∈ (Session.freedBy image.listenerFree rs).map Session.Release.value,
      ident ∈ s.listeners.map Listener.ident) :
    ∃ s', releaseAll json image rs s = some s' ∧ Core image s' ∧ Frame s s' ∧
      s'.listeners = (s.listeners.filter fun l => decide (l.ident ∉
        (Session.freedBy image.listenerFree rs).map Session.Release.value)) ∧
      ∀ d' ∈ s'.destinations, ∃ d ∈ s.destinations, d'.address = d.address ∧ d'.name = d.name := by
  induction rs generalizing s with
  | nil =>
      refine ⟨s, rfl, h, Frame.refl s, ?_, fun d hd => ⟨d, hd, rfl, rfl⟩⟩
      symm
      apply List.filter_eq_self.mpr
      intro l _
      rfl
  | cons r rest ih =>
      by_cases hours : r.freeValue = image.listenerFree
      · have hcons : Session.freedBy image.listenerFree (r :: rest) =
            r :: Session.freedBy image.listenerFree rest :=
          List.filter_cons_of_pos (by simpa using hours)
        rw [hcons, List.map_cons] at hnodup hin
        rw [List.nodup_cons] at hnodup
        rcases List.mem_map.mp (hin r.value List.mem_cons_self) with ⟨l, hl, hident⟩
        rcases listenerFree_spec json h hl with ⟨s₁, hfree, hcore, hframe, hlisteners, hsub⟩
        have hin' : ∀ ident ∈ (Session.freedBy image.listenerFree rest).map Session.Release.value,
            ident ∈ s₁.listeners.map Listener.ident := by
          intro ident hrest
          rcases List.mem_map.mp (hin ident (List.mem_cons_of_mem _ hrest)) with ⟨other, hother, rfl⟩
          rw [hlisteners]
          refine List.mem_map_of_mem (List.mem_filter.mpr ⟨hother, ?_⟩)
          have hne : other.ident ≠ l.ident := by
            intro hsame
            rw [hsame, hident] at hrest
            exact hnodup.1 hrest
          simpa using hne
        rcases ih hcore hnodup.2 hin' with ⟨s', hrun, hcore', hframe', hlisteners', hsub'⟩
        refine ⟨s', ?_, hcore', hframe.trans hframe', ?_, ?_⟩
        · rw [releaseAll, if_pos hours, ← hident, hfree, Option.bind_eq_bind, Option.bind_some, hrun]
        · rw [hlisteners', hlisteners, List.filter_filter, hcons]
          apply List.filter_congr
          intro other _
          rw [List.map_cons, ← hident]
          simp only [List.mem_cons, not_or, Bool.decide_and, Bool.and_comm, ne_eq]
        · intro d' hd'
          rcases hsub' d' hd' with ⟨d₁, hd₁, haddress, hname⟩
          rcases hsub d₁ hd₁ with ⟨d, hd, haddress', hname'⟩
          exact ⟨d, hd, haddress.trans haddress', hname.trans hname'⟩
      · have hcons : Session.freedBy image.listenerFree (r :: rest) =
            Session.freedBy image.listenerFree rest :=
          List.filter_cons_of_neg (by simpa using hours)
        rw [hcons] at hnodup hin ⊢
        rw [releaseAll, if_neg hours]
        exact ih h hnodup hin

/-- The cookie of a listener. -/
def Listener.cookie (image : Image) (l : Listener) : Session.Cookie :=
  ⟨l.destination, some l.ident, some image.listenerFree⟩

/-- The cookies of the server are its listeners, each in one session. -/
structure Sound (image : Image) (s : Server) : Prop where
  core : Core image s
  reserved : Session.Reserved image.listenerFree
    (fun key => key ∈ s.destinations.map Destination.address) s.store
  held : ∀ client, ∀ cookie ∈ s.store.marked image.listenerFree client,
    ∃ l ∈ s.listeners, cookie = l.cookie image
  once : ∀ client client' cookie cookie', cookie ∈ s.store.marked image.listenerFree client →
    cookie' ∈ s.store.marked image.listenerFree client' → cookie.value = cookie'.value →
    client = client'

/-- The listeners that the sessions keep. -/
def kept (image : Image) (store : Session.Store) (clients : List Nat) : List Nat :=
  clients.flatMap fun client => (store.marked image.listenerFree client).filterMap Session.Cookie.value

theorem mem_kept {store : Session.Store} {clients : List Nat} {ident : Nat} :
    ident ∈ kept image store clients ↔ ∃ client ∈ clients,
      ∃ cookie ∈ store.marked image.listenerFree client, cookie.value = some ident := by
  simp only [kept, List.mem_flatMap, List.mem_filterMap]

/-- The keys tell the cookies of one session apart. -/
theorem Sound.values_nodup (h : Sound image s) (client : Nat) :
    ((s.store.marked image.listenerFree client).filterMap Session.Cookie.value).Nodup := by
  have hheld := h.held client
  cases hc : s.store.mem client with
  | none =>
      rw [Session.marked_of_none hc]
      exact List.nodup_nil
  | some c =>
      rw [Session.marked_of_mem hc] at hheld ⊢
      have hkeys : ((c.marked image.listenerFree).map Session.Cookie.key).Nodup :=
        (h.reserved.keys client c hc).sublist (List.filter_sublist.map Session.Cookie.key)
      have hinj : ∀ ident cookie cookie', cookie ∈ c.marked image.listenerFree →
          cookie' ∈ c.marked image.listenerFree → cookie.value = some ident →
          cookie'.value = some ident → cookie = cookie' := by
        intro ident cookie cookie' hcookie hcookie' hvalue hvalue'
        rcases hheld cookie hcookie with ⟨l, hl, rfl⟩
        rcases hheld cookie' hcookie' with ⟨l', hl', rfl⟩
        have hident : l.ident = l'.ident := Option.some.inj (hvalue.trans hvalue'.symm)
        rw [Keyed.key_inj h.core.idents hl hl' hident]
      rw [List.filterMap_eq_flatMap_toList, List.nodup_flatMap]
      constructor
      · intro cookie _
        cases cookie.value <;> simp
      · refine (List.Nodup.of_map Session.Cookie.key hkeys).pairwise_of_forall_ne ?_
        intro cookie hcookie cookie' hcookie' hne
        show List.Disjoint cookie.value.toList cookie'.value.toList
        rw [List.disjoint_left]
        intro ident hident hident'
        rw [Option.mem_toList] at hident hident'
        exact hne (hinj ident cookie cookie' hcookie hcookie' hident hident')

theorem Sound.kept_nodup (h : Sound image s) {clients : List Nat} (hnodup : clients.Nodup) :
    (kept image s.store clients).Nodup := by
  induction clients with
  | nil => exact List.nodup_nil
  | cons client rest ih =>
      rw [List.nodup_cons] at hnodup
      have hrest := ih hnodup.2
      rw [kept, List.flatMap_cons, List.nodup_append]
      refine ⟨?_, hrest, ?_⟩
      · exact h.values_nodup client
      · intro ident hident ident' hident' hsame
        rcases List.mem_filterMap.mp hident with ⟨cookie, hcookie, hvalue⟩
        rcases mem_kept.mp hident' with ⟨other, hother, cookie', hcookie', hvalue'⟩
        have hclient := h.once client other cookie cookie' hcookie hcookie'
          (hvalue.trans (hsame ▸ hvalue'.symm))
        exact hnodup.1 (hclient ▸ hother)

/-- What is kept by the sessions of the list, in the terms of the calls of the store. -/
theorem freed_kept {store : Session.Store} {clients : List Nat} {rs : List Session.Release}
    (h : Session.freedBy image.listenerFree rs =
      clients.flatMap fun client => (store.marked image.listenerFree client).flatMap
        Session.Cookie.release) :
    (Session.freedBy image.listenerFree rs).map Session.Release.value =
      kept image store clients := by
  rw [h, List.map_flatMap, kept]
  exact List.flatMap_congr fun client _ => Session.freed_values client

theorem Core.withStore (h : Core image s) (store : Session.Store) :
    Core image { s with store := store } :=
  ⟨h.evt, h.idents, h.bounded, h.names, h.destinations, h.watching, h.paired⟩

/-- What is left when some of the sessions are closed. -/
structure Settled (image : Image) (s s' : Server) (store : Session.Store) (closed : List Nat) :
    Prop where
  frame : Frame { s with store := store } s'
  listeners : s'.listeners = s.listeners.filter fun l => decide (l.ident ∉ kept image s.store closed)
  destinations : ∀ d' ∈ s'.destinations, ∃ d ∈ s.destinations, d'.address = d.address ∧
    d'.name = d.name

theorem settle_spec (h : Sound image s) {store : Session.Store} {closed : List Nat}
    (hreserved : Session.Reserved image.listenerFree
      (fun key => key ∈ s.destinations.map Destination.address) store)
    (hsettles : Session.Settles image.listenerFree s.store store closed) :
    ∃ s', settle json image store s = some s' ∧ Sound image s' ∧
      Settled image s s' store closed := by
  rcases hsettles.released with ⟨rs, hrs, hfreed⟩
  have hdrop : store.released.drop s.store.released.length = rs := by
    rw [hrs, List.drop_left]
  have hkept := freed_kept hfreed
  have hnodup : ((Session.freedBy image.listenerFree rs).map Session.Release.value).Nodup := by
    rw [hkept]
    exact h.kept_nodup hsettles.nodup
  have hin : ∀ ident ∈ (Session.freedBy image.listenerFree rs).map Session.Release.value,
      ident ∈ s.listeners.map Listener.ident := by
    intro ident hident
    rw [hkept] at hident
    rcases mem_kept.mp hident with ⟨client, -, cookie, hcookie, hvalue⟩
    rcases h.held client cookie hcookie with ⟨l, hl, rfl⟩
    rw [← Option.some.inj hvalue]
    exact List.mem_map_of_mem hl
  rcases releaseAll_spec json (h.core.withStore store) hnodup hin with
    ⟨s', hrun, hcore, hframe, hlisteners, hsub⟩
  rw [hkept] at hlisteners
  -- a cookie that is left is one of a session that is not closed
  have hleft : ∀ client, ∀ cookie ∈ s'.store.marked image.listenerFree client,
      client ∉ closed ∧ cookie ∈ s.store.marked image.listenerFree client := by
    intro client cookie hcookie
    rw [show s'.store = store from hframe.store] at hcookie
    have hopen : client ∉ closed := by
      intro hclosed
      rw [(hsettles.closing client hclosed).1] at hcookie
      exact absurd hcookie List.not_mem_nil
    rcases Session.allocated_of_marked hcookie with ⟨c', hc', -, -⟩
    rw [(hsettles.staying client c' hopen hc').1] at hcookie
    exact ⟨hopen, hcookie⟩
  refine ⟨s', ?_, ?_, ?_⟩
  · rw [settle, hdrop, hrun]
  · constructor
    · exact hcore
    · rw [show s'.store = store from hframe.store]
      apply hreserved.mono
      intro key hkey
      rcases List.mem_map.mp hkey with ⟨d', hd', rfl⟩
      rcases hsub d' hd' with ⟨d, hd, haddress, -⟩
      exact haddress ▸ List.mem_map_of_mem hd
    · intro client cookie hcookie
      rcases hleft client cookie hcookie with ⟨hopen, hold⟩
      rcases h.held client cookie hold with ⟨l, hl, rfl⟩
      refine ⟨l, ?_, rfl⟩
      rw [hlisteners]
      refine List.mem_filter.mpr ⟨hl, decide_eq_true ?_⟩
      intro hgone
      rcases mem_kept.mp hgone with ⟨other, hother, cookie', hcookie', hvalue⟩
      exact hopen (h.once client other _ cookie' hold hcookie' hvalue.symm ▸ hother)
    · intro client client' cookie cookie' hcookie hcookie' hvalue
      exact h.once client client' cookie cookie' (hleft client cookie hcookie).2
        (hleft client' cookie' hcookie').2 hvalue
  · exact ⟨hframe, hlisteners, hsub⟩

end AfbBinder.ApiDbus
