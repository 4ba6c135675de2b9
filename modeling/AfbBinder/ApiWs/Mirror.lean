import AfbBinder.ApiWs.Replies
import AfbBinder.ApiWs.RoundTrip
import AfbBinder.Evt.Activity
import AfbBinder.Lib.Bracket

/-!
# The mirroring of events over a binder link

The runs of a server with its events, one link of this server and the client at the
other end.  The listener of the link, at the address `link`, sends a message for each
call of its interface.  No message is lost: the frames are delivered in the order they
are sent, anywhere in the memory of the client.
-/

namespace AfbBinder.ApiWs

open Lib Evt

variable {J : Type} {json : JsonC J} {link : Nat}

/-! ## Runs -/

structure Mirror (J : Type) where
  store : Store
  sent : List (ServerMessage J)
  delivered : Nat
  client : Client J

/-- The message sent by each function of `api_ws_server_evt_itf`. -/
def noticeMessage : Notice J → ServerMessage J
  | .push _ event eventid object => .push event eventid.toUInt32 object
  | .broadcast _ event object => .broadcast event object
  | .add _ event eventid => .add event eventid.toUInt32
  | .remove _ event eventid => .remove event eventid.toUInt32

/-- The messages for the calls that the listener of the link gets. -/
def linkMessages (link : Nat) (notices : List (Notice J)) : List (ServerMessage J) :=
  (noticesOf link notices).map noticeMessage

/-- `api_ws_server_evt_itf` -/
def apiWsServerEvtItf (address : Nat) : EvtItf := ⟨address, true, true, true, true⟩

/-- The messages that are not about an event of the link. -/
def ServerMessage.plain : ServerMessage J → Bool
  | .success .. => true
  | .fail .. => true
  | .send .. => true
  | .broadcast .. => true
  | _ => false

inductive MirrorAction (J : Type) where
  | create (name : CString) (address : Nat)
  | destroy (event : Nat)
  | push (event : Nat) (object : Option J)
  | subscribe (msgid : UInt32) (event address : Nat)
  | unsubscribe (msgid : UInt32) (event : Nat)
  | watch (listener event address : Nat)
  | unwatch (listener event : Nat)
  | reply (message : ServerMessage J)
  | call (req : Nat) (call : Call) (allocated : Bool) (sends : Writebuf → Bool)
  | deliver (width base : Nat) (beyond : Bytes)

namespace Mirror

/-- Sending does not fail: the messages are written. -/
def emit (json : JsonC J) (messages : List (ServerMessage J)) (s : Mirror J) : Option (Mirror J) :=
  if messages.all fun message => (message.encode json).isSome then
    some { s with sent := s.sent ++ messages }
  else none

/-- `api_ws_server_req_subscribe_cb`, with the address of a new watch. -/
def subscribe (json : JsonC J) (link : Nat) (msgid : UInt32) (event address : Nat) (s : Mirror J) :
    Option (Mirror J) := do
  let (rc, store, notices) ← afbEvtAddWatch link ⟨true, event⟩ (some address) s.store
  let s ← { s with store }.emit json (linkMessages link notices)
  if rc < 0 then some s
  else
    let evt ← s.store.event? event
    s.emit json [.subscribe msgid evt.id.toUInt32 evt.name]

/-- `api_ws_server_req_unsubscribe_cb` -/
def unsubscribe (json : JsonC J) (link : Nat) (msgid : UInt32) (event : Nat) (s : Mirror J) :
    Option (Mirror J) := do
  let evt ← s.store.event? event
  let s ← s.emit json [.unsubscribe msgid evt.id.toUInt32 evt.name]
  let (_, store, notices) ← afbEvtRemoveWatch link ⟨true, event⟩ s.store
  { s with store }.emit json (linkMessages link notices)

/-- The client receives the next frame. -/
def deliver (json : JsonC J) (width base : Nat) (beyond : Bytes) (s : Mirror J) :
    Option (Mirror J) := do
  let message ← s.sent[s.delivered]?
  let wb ← message.encode json
  if base + wb.flatten.length < 2 ^ width then
    let rb := Readbuf.ofData width base wb.flatten beyond
    some { s with
      delivered := s.delivered + 1
      client := (apiWsClientOnBinary json s.client rb).1 }
  else none

/-- One step of the server, of the client or of the link.  Watches are also put and
removed by other listeners, the other messages of the link are sent and the client makes
calls.  An allocation gives an address that is free. -/
def step (json : JsonC J) (link : Nat) (s : Mirror J) : MirrorAction J → Option (Mirror J)
  | .create name address =>
      if address ∈ s.store.events.map EvtEvent.address then none
      else do
        let (_, store) ← afbEvtCreateEvent name (some address) s.store
        some { s with store }
  | .destroy event => do
      let (store, notices) ← evtDestroy event s.store
      { s with store }.emit json (linkMessages link notices)
  | .push event object => do
      let (_, notices) ← evtPush event object s.store
      s.emit json (linkMessages link notices)
  | .subscribe msgid event address =>
      if address ∈ s.store.watches.map Watch.address then none
      else s.subscribe json link msgid event address
  | .unsubscribe msgid event => s.unsubscribe json link msgid event
  | .watch listener event address =>
      if address ∈ s.store.watches.map Watch.address then none
      else do
        let (_, store, notices) ← afbEvtAddWatch listener ⟨true, event⟩ (some address) s.store
        { s with store }.emit json (linkMessages link notices)
  | .unwatch listener event => do
      let (_, store, notices) ← afbEvtRemoveWatch listener ⟨true, event⟩ s.store
      { s with store }.emit json (linkMessages link notices)
  | .reply message => if message.plain then s.emit json [message] else none
  | .call req call allocated sends => do
      let (client, _) ← apiWsClientCallCb req call allocated sends s.client
      some { s with client }
  | .deliver width base beyond => s.deliver json width base beyond

end Mirror

/-! ## What a message is to an event -/

/-- What a message does to the event with an identifier and a name. -/
def ServerMessage.mark (key : UInt32 × Bytes) : ServerMessage J → Option Mark
  | .add event eventid => if (eventid, event.bytes) = key then some .opens else none
  | .remove event eventid => if (eventid, event.bytes) = key then some .closes else none
  | .push event eventid _ => if (eventid, event.bytes) = key then some .uses else none
  | .subscribe _ eventid name => if (eventid, name.bytes) = key then some .uses else none
  | _ => none

def marks (key : UInt32 × Bytes) (messages : List (ServerMessage J)) : List Mark :=
  messages.filterMap (ServerMessage.mark key)

theorem marks_append (key : UInt32 × Bytes) (l r : List (ServerMessage J)) :
    marks key (l ++ r) = marks key l ++ marks key r :=
  List.filterMap_append

def entryKey (entry : Nat × Int32 × CString) : UInt32 × Bytes :=
  (entry.2.1.toUInt32, entry.2.2.bytes)

/-- The link has an activity on the event with this identifier and name. -/
def Subscribed (link : Nat) (store : Store) (key : UInt32 × Bytes) : Prop :=
  ∃ entry ∈ store.catalog, entryKey entry = key ∧ store.activity link entry.1 ≠ 0

/-- The messages go with a change of the store. -/
def Announces (link : Nat) (store store' : Store) (messages : List (ServerMessage J)) : Prop :=
  ∀ key opened, (opened = true ↔ Subscribed link store key) →
    Bracketed opened (marks key messages) ∧
      (openAfter opened (marks key messages) = true ↔ Subscribed link store' key)

theorem announces_nothing {store store' : Store} {messages : List (ServerMessage J)}
    (hmarks : ∀ key, marks key messages = [])
    (hsame : ∀ key, Subscribed link store' key ↔ Subscribed link store key) :
    Announces link store store' messages := by
  intro key opened hopened
  rw [hmarks, hsame]
  exact ⟨trivial, hopened⟩

/-! ## The identifiers of events -/

theorem entry_eq_of_key {store : Store} (hids : store.DistinctIds)
    {entry other : Nat × Int32 × CString} (hentry : entry ∈ store.catalog)
    (hother : other ∈ store.catalog) (h : entryKey entry = entryKey other) : entry = other := by
  have hdistinct : (store.catalog.map fun entry => entry.2.1).Nodup := by
    simpa [Store.catalog, Function.comp_def] using hids.distinct
  exact Keyed.key_inj hdistinct hentry hother (Int32.toBitVec.inj
    (congrArg (fun key => UInt32.toBitVec key.1) h))

theorem subscribed_iff {store : Store} (hids : store.DistinctIds) {entry : Nat × Int32 × CString}
    (hentry : entry ∈ store.catalog) :
    Subscribed link store (entryKey entry) ↔ store.activity link entry.1 ≠ 0 := by
  constructor
  · rintro ⟨other, hother, hkey, hactivity⟩
    rwa [entry_eq_of_key hids hother hentry hkey] at hactivity
  · exact fun hactivity => ⟨entry, hentry, rfl, hactivity⟩

/-! ## The operations of the store and their messages -/

/-- The listener of the link is there. -/
def Linked (link : Nat) (store : Store) : Prop :=
  ∃ address, (link, apiWsServerEvtItf address) ∈ store.roster

/-- The marks of a message that is sent under a condition. -/
theorem marks_conditional {message : ServerMessage J} {mark : Mark} {key key' : UInt32 × Bytes}
    (hmark : message.mark key' = if key = key' then some mark else none) (p : Prop) [Decidable p] :
    marks key' (if p then [message] else []) = if key = key' ∧ p then [mark] else [] := by
  by_cases hp : p
  · by_cases hkey : key = key'
    · simp [marks, hmark, hp, hkey]
    · simp [marks, hmark, hkey]
  · simp [marks, hp]

/-- An operation about one event: the others stay, and at most one message about this one
is sent. -/
theorem announces_entry {store store' : Store} {message : ServerMessage J} {mark : Mark}
    {p : Prop} [Decidable p] (hsound : store.Sound) (hids : store.DistinctIds)
    {entry : Nat × Int32 × CString} (hentry : entry ∈ store.catalog)
    (hsub : ∀ other ∈ store'.catalog, other ∈ store.catalog)
    (hkeep : ∀ other ∈ store.catalog, other.1 ≠ entry.1 → other ∈ store'.catalog)
    (hactivity : ∀ event ≠ entry.1, store'.activity link event = store.activity link event)
    (hmark : ∀ key, message.mark key = if entryKey entry = key then some mark else none)
    (hone : ∀ opened, (opened = true ↔ store.activity link entry.1 ≠ 0) →
      Bracketed opened (if p then [mark] else []) ∧
        (openAfter opened (if p then [mark] else []) = true ↔
          Subscribed link store' (entryKey entry))) :
    Announces link store store' (if p then [message] else []) := by
  intro key opened hopened
  rw [marks_conditional (hmark key)]
  by_cases hkey : entryKey entry = key
  · subst hkey
    rw [subscribed_iff hids hentry] at hopened
    simpa using hone opened hopened
  · rw [if_neg fun h => hkey h.1]
    refine ⟨trivial, hopened.trans ?_⟩
    -- an entry with another key is for another event
    have hother : ∀ other ∈ store.catalog, entryKey other = key → other.1 ≠ entry.1 := by
      intro other hmem hother heq
      have hdistinct : (store.catalog.map Prod.fst).Nodup := by
        simpa [Store.catalog, Function.comp_def] using hsound.eventAddresses
      exact hkey ((congrArg entryKey (Keyed.key_inj hdistinct hmem hentry heq)).symm.trans hother)
    constructor
    · rintro ⟨other, hmem, hk, hact⟩
      have hne := hother other hmem hk
      exact ⟨other, hkeep other hmem hne, hk, by rwa [hactivity _ hne]⟩
    · rintro ⟨other, hmem, hk, hact⟩
      have hne := hother other (hsub other hmem) hk
      exact ⟨other, hsub other hmem, hk, by rwa [hactivity _ hne] at hact⟩

theorem catalog_mem {store : Store} {evt : EvtEvent} (h : evt ∈ store.events) :
    (evt.address, evt.id, evt.name) ∈ store.catalog :=
  List.mem_map_of_mem h

/-- The identifiers stay distinct when events go or change their watches. -/
theorem distinctIds_of_sublist {store store' : Store} (h : store.DistinctIds)
    (hcatalog : store'.catalog.Sublist store.catalog)
    (hcounter : store'.eventIdCounter = store.eventIdCounter)
    (hwrapped : store'.eventIdWrapped = store.eventIdWrapped) : store'.DistinctIds where
  distinct := by
    have hids := hcatalog.map fun entry => entry.2.1
    simp only [Store.catalog, List.map_map] at hids
    exact h.distinct.sublist hids
  below := by
    intro hfalse evt hevt
    obtain ⟨old, hold, hsame⟩ := List.mem_map.mp (hcatalog.subset (catalog_mem hevt))
    have hle := h.below (hwrapped ▸ hfalse) old hold
    have hid : old.id = evt.id := congrArg (fun entry => entry.2.1) hsame
    rwa [hcounter, ← hid]
  counter := hcounter ▸ h.counter

/-- The activity of one listener on one event changes, and a message may follow. -/
theorem announces_activity {store store' : Store} {message : ServerMessage J} {mark : Mark}
    {p : Prop} [Decidable p] (hsound : store.Sound) (hids : store.DistinctIds) {evt : EvtEvent}
    (hevt : evt ∈ store.events) {listener : Nat} {activity : Nat}
    (hbecomes : store.Becomes (fun listener' event =>
      if (listener', event) = (listener, evt.address) then activity
      else store.activity listener' event) store')
    (hmark : ∀ key, message.mark key =
      if (evt.id.toUInt32, evt.name.bytes) = key then some mark else none)
    (hlink : listener = link → ∀ opened, (opened = true ↔ store.activity link evt.address ≠ 0) →
      Bracketed opened (if p then [mark] else []) ∧
        (openAfter opened (if p then [mark] else []) = true ↔ activity ≠ 0)) :
    Announces link store store' (if listener = link ∧ p then [message] else []) ∧
      store'.DistinctIds := by
  have hids' : store'.DistinctIds := distinctIds_of_sublist hids (hbecomes.catalog ▸ List.Sublist.refl _)
    hbecomes.counter hbecomes.wrapped
  refine ⟨?_, hids'⟩
  have hentry := catalog_mem hevt
  have hsubscribed : Subscribed link store' (evt.id.toUInt32, evt.name.bytes) ↔
      store'.activity link evt.address ≠ 0 :=
    subscribed_iff hids' (hbecomes.catalog ▸ hentry)
  refine announces_entry hsound hids hentry (by simp [hbecomes.catalog])
    (by simp +contextual [hbecomes.catalog]) ?_ hmark ?_
  · intro event hne
    rw [hbecomes.activity, if_neg]
    exact fun heq => hne (congrArg Prod.snd heq)
  · intro opened hopened
    apply Iff.elim (fun _ h => h) (and_congr_right' (iff_congr Iff.rfl hsubscribed))
    rw [hbecomes.activity]
    by_cases hsame : listener = link
    · subst hsame
      simpa using hlink rfl opened hopened
    · rw [if_neg fun h => hsame h.1, if_neg fun heq => hsame (congrArg Prod.fst heq).symm]
      exact ⟨trivial, hopened⟩

/-- What a step of the server does to the store, told by its messages. -/
structure Served (link : Nat) (store store' : Store) (messages : List (ServerMessage J)) : Prop where
  sound : store'.Sound
  ids : store'.DistinctIds
  linked : Linked link store'
  announces : Announces link store store' messages

theorem linkMessages_conditional (notice : Notice J) (p : Prop) [Decidable p] :
    linkMessages link (if p then [notice] else []) =
      if notice.listener = link ∧ p then [noticeMessage notice] else [] := by
  by_cases hp : p
  · by_cases hlink : notice.listener = link
    · simp [linkMessages, noticesOf, hp, hlink]
    · simp [linkMessages, noticesOf, hp, hlink]
  · simp [linkMessages, noticesOf, hp]

theorem served_same {store : Store} {messages : List (ServerMessage J)} (hsound : store.Sound)
    (hids : store.DistinctIds) (hlinked : Linked link store)
    (hmarks : ∀ key, marks key messages = []) : Served link store store messages :=
  ⟨hsound, hids, hlinked, announces_nothing hmarks fun _ => Iff.rfl⟩

theorem linked_itf {store : Store} (hsound : store.Sound) (hlinked : Linked link store)
    {listener : Listener} (hl : listener ∈ store.listeners) (hlink : listener.address = link) :
    ∃ address, listener.itf = apiWsServerEvtItf address := by
  obtain ⟨address, hmem⟩ := hlinked
  have hlisted : (link, listener.itf) ∈ store.roster :=
    hlink ▸ List.mem_map_of_mem (f := fun listener : Listener => (listener.address, listener.itf)) hl
  have hsearch := hsound.roster_search hmem
  rw [hsound.roster_search hlisted] at hsearch
  exact ⟨address, congrArg Prod.snd (Option.some.inj hsearch)⟩

theorem addWatch_served {store store' : Store} (hsound : store.Sound) (hids : store.DistinctIds)
    (hlinked : Linked link store) {listener event address : Nat} {rc : Int}
    {notices : List (Notice J)} (hfresh : address ∉ store.watches.map Watch.address)
    (hadd : afbEvtAddWatch listener ⟨true, event⟩ (some address) store = some (rc, store', notices)) :
    Served link store store' (linkMessages link notices) ∧
      (listener = link → store'.activity link event ≠ 0) := by
  obtain ⟨lst, hl, rfl, ⟨hpush, rfl, rfl⟩ | ⟨evt, hevt, rfl, rfl, hbecomes⟩⟩ :=
    afbEvtAddWatch_cases hsound hfresh hadd
  · refine ⟨served_same hsound hids hlinked fun _ => rfl, fun hlink => ?_⟩
    obtain ⟨itf, hitf⟩ := linked_itf hsound hlinked hl hlink
    rw [hitf] at hpush
    cases hpush
  · have hmark (key : UInt32 × Bytes) :
        (ServerMessage.add evt.name evt.id.toUInt32 : ServerMessage J).mark key =
          if (evt.id.toUInt32, evt.name.bytes) = key then some .opens else none := rfl
    have hlink (hlink : lst.address = link) (opened : Bool)
        (hopened : opened = true ↔ store.activity link evt.address ≠ 0) :
        Bracketed opened (if store.activity lst.address evt.address = 0 ∧ lst.itf.add = true then
          [.opens] else []) ∧
        (openAfter opened (if store.activity lst.address evt.address = 0 ∧ lst.itf.add = true then
          [.opens] else []) = true ↔ store.activity lst.address evt.address + 1 ≠ 0) := by
      obtain ⟨itf, hitf⟩ := linked_itf hsound hlinked hl hlink
      subst hlink
      have hadds : lst.itf.add = true := by rw [hitf]; rfl
      by_cases hzero : store.activity lst.address evt.address = 0
      · have hclosed : opened = false := by simpa [hzero] using hopened
        simp [hzero, hadds, hclosed, Bracketed, openAfter]
      · have hopen : opened = true := hopened.mpr hzero
        simp [hzero, hopen, Bracketed, openAfter]
    obtain ⟨hannounces, hids'⟩ := announces_activity hsound hids hevt hbecomes hmark hlink
    rw [linkMessages_conditional]
    refine ⟨⟨hbecomes.sound, hids', ?_, hannounces⟩, ?_⟩
    · rw [Linked, hbecomes.roster]
      exact hlinked
    · rintro rfl
      rw [hbecomes.activity, if_pos rfl]
      omega

theorem removeWatch_served {store store' : Store} (hsound : store.Sound) (hids : store.DistinctIds)
    (hlinked : Linked link store) {listener event : Nat} {rc : Int} {notices : List (Notice J)}
    (hremove : afbEvtRemoveWatch listener ⟨true, event⟩ store = some (rc, store', notices)) :
    Served link store store' (linkMessages link notices) := by
  obtain ⟨rfl, rfl, -⟩ | ⟨lst, hl, rfl, evt, hevt, rfl, rfl, hbecomes⟩ :=
    afbEvtRemoveWatch_cases hsound hremove
  · exact served_same hsound hids hlinked fun _ => rfl
  · have hmark (key : UInt32 × Bytes) :
        (ServerMessage.remove evt.name evt.id.toUInt32 : ServerMessage J).mark key =
          if (evt.id.toUInt32, evt.name.bytes) = key then some .closes else none := rfl
    have hlink (hlink : lst.address = link) (opened : Bool)
        (hopened : opened = true ↔ store.activity link evt.address ≠ 0) :
        Bracketed opened (if store.activity lst.address evt.address = 1 ∧ lst.itf.remove = true then
          [.closes] else []) ∧
        (openAfter opened (if store.activity lst.address evt.address = 1 ∧ lst.itf.remove = true then
          [.closes] else []) = true ↔ store.activity lst.address evt.address - 1 ≠ 0) := by
      obtain ⟨itf, hitf⟩ := linked_itf hsound hlinked hl hlink
      subst hlink
      have hremoves : lst.itf.remove = true := by rw [hitf]; rfl
      by_cases hlast : store.activity lst.address evt.address = 1
      · have hopen : opened = true := hopened.mpr (by omega)
        simp [hlast, hremoves, hopen, Bracketed, openAfter]
      · rw [if_neg fun h => hlast h.1]
        refine ⟨trivial, hopened.trans ?_⟩
        omega
    obtain ⟨hannounces, hids'⟩ := announces_activity hsound hids hevt hbecomes hmark hlink
    rw [linkMessages_conditional]
    refine ⟨hbecomes.sound, hids', ?_, hannounces⟩
    rw [Linked, hbecomes.roster]
    exact hlinked

/-- A message that needs a subscription, sent when there is one. -/
theorem announces_use {store : Store} {message : ServerMessage J} {p : Prop} [Decidable p]
    (hsound : store.Sound) (hids : store.DistinctIds) {evt : EvtEvent} (hevt : evt ∈ store.events)
    (hmark : ∀ key, message.mark key =
      if (evt.id.toUInt32, evt.name.bytes) = key then some .uses else none)
    (hp : p → store.activity link evt.address ≠ 0) :
    Announces link store store (if p then [message] else []) := by
  have hentry := catalog_mem hevt
  apply announces_entry hsound hids hentry (fun _ h => h) (fun _ h _ => h) (fun _ _ => rfl) hmark
  intro opened hopened
  rw [subscribed_iff hids hentry]
  by_cases h : p
  · have hopen : opened = true := hopened.mpr (hp h)
    simp [h, hopen, Bracketed, openAfter, hp h]
  · rw [if_neg h]
    exact ⟨trivial, hopened⟩

theorem push_served {store : Store} (hsound : store.Sound) (hids : store.DistinctIds)
    (hlinked : Linked link store) {event result : Nat} {object : Option J} {notices : List (Notice J)}
    (hpush : evtPush event object store = some (result, notices)) :
    Served link store store (linkMessages link notices) := by
  cases hevent : store.event? event with
  | none => simp [evtPush, hevent] at hpush
  | some evt =>
      obtain ⟨hevt, rfl⟩ := Keyed.search_some hevent
      obtain ⟨result', notices', hspec, hnotices⟩ := evtPush_spec hsound hevt object
      cases hspec.symm.trans hpush
      have hmessages : linkMessages link notices = if store.activity link evt.address ≠ 0 then
          [.push evt.name evt.id.toUInt32 object] else [] := by
        rw [linkMessages, hnotices]
        split
        · rfl
        · rfl
      rw [hmessages]
      exact ⟨hsound, hids, hlinked, announces_use hsound hids hevt (fun _ => rfl) fun h => h⟩

theorem destroy_served {store store' : Store} (hsound : store.Sound) (hids : store.DistinctIds)
    (hlinked : Linked link store) {event : Nat} {notices : List (Notice J)}
    (hdestroy : evtDestroy event store = some (store', notices)) :
    Served link store store' (linkMessages link notices) := by
  cases hevent : store.event? event with
  | none =>
      simp only [evtDestroy, hevent] at hdestroy
      cases hdestroy
      exact served_same hsound hids hlinked fun _ => rfl
  | some evt =>
      obtain ⟨hevt, rfl⟩ := Keyed.search_some hevent
      have hentry := catalog_mem hevt
      obtain ⟨made, notices', hspec, hsound', hcatalog, hroster, hcounter, hwrapped, hactivity,
        hnotices⟩ := evtDestroy_spec (J := J) hsound hentry
      cases hspec.symm.trans hdestroy
      obtain ⟨address, hlisted⟩ := hlinked
      have hmessages : linkMessages link notices = if store.activity link evt.address ≠ 0 then
          [.remove evt.name evt.id.toUInt32] else [] := by
        rw [linkMessages, hnotices link _ hlisted]
        simp only [apiWsServerEvtItf, and_true]
        split
        · rfl
        · rfl
      have hids' := distinctIds_of_sublist hids (hcatalog ▸ List.filter_sublist) hcounter hwrapped
      rw [hmessages]
      refine ⟨hsound', hids', ⟨address, hroster ▸ hlisted⟩, ?_⟩
      refine announces_entry hsound hids hentry ?_ ?_ ?_ (fun _ => rfl) ?_
      · intro other hother
        rw [hcatalog] at hother
        exact (List.mem_filter.mp hother).1
      · intro other hother hne
        rw [hcatalog]
        exact List.mem_filter.mpr ⟨hother, by simpa using hne⟩
      · intro other hne
        rw [hactivity, if_neg hne]
      · intro opened hopened
        -- the only event with this key is gone
        have hgone : ¬ Subscribed link store' (entryKey (evt.address, evt.id, evt.name)) := by
          rintro ⟨other, hother, hkey, -⟩
          rw [hcatalog, List.mem_filter] at hother
          have hsame := entry_eq_of_key hids hother.1 hentry hkey
          simp [hsame] at hother
        by_cases hzero : store.activity link evt.address = 0
        · have hclosed : opened = false := by simpa [hzero] using hopened
          simp [hzero, hclosed, hgone, Bracketed, openAfter]
        · have hopen : opened = true := hopened.mpr hzero
          simp [hzero, hopen, hgone, Bracketed, openAfter]

theorem create_served {store store' : Store} (hsound : store.Sound) (hids : store.DistinctIds)
    (hlinked : Linked link store) {name : CString} {address : Nat} {result : Option AfbEvent}
    (hfresh : address ∉ store.events.map EvtEvent.address)
    (hcreate : afbEvtCreateEvent name (some address) store = some (result, store')) :
    Served (J := J) link store store' [] := by
  obtain ⟨id, hsound', hids', hcatalog, hroster, hactivity⟩ :=
    afbEvtCreateEvent_spec hsound hids hfresh hcreate
  refine ⟨hsound', hids', by rwa [Linked, hroster], announces_nothing (fun _ => rfl) fun key => ?_⟩
  have hunwatched : store.activity link address = 0 := by
    apply Store.activity_zero
    intro hmem
    obtain ⟨watch, hw, hpair⟩ := List.mem_map.mp hmem
    obtain ⟨-, rfl⟩ := Prod.mk.inj hpair
    exact hfresh (hsound.live watch hw).1
  constructor
  · rintro ⟨entry, hentry, hkey, hact⟩
    rw [hactivity] at hact
    rw [hcatalog] at hentry
    rcases List.mem_cons.mp hentry with rfl | hentry
    · exact absurd hunwatched hact
    · exact ⟨entry, hentry, hkey, hact⟩
  · rintro ⟨entry, hentry, hkey, hact⟩
    rw [← hactivity] at hact
    exact ⟨entry, hcatalog ▸ List.mem_cons_of_mem _ hentry, hkey, hact⟩

/-! ## What a message does to the client -/

/-- Only the messages that open and close an event change the table of the client. -/
theorem receive_events {message : ServerMessage J} {client client' : Client J}
    (hreceive : message.receive client = some client')
    (hmark : ∀ key, message.mark key ≠ some .opens ∧ message.mark key ≠ some .closes) :
    client'.events = client.events := by
  cases message with
  | add event eventid => exact absurd (if_pos rfl) (hmark (eventid, event.bytes)).1
  | remove event eventid => exact absurd (if_pos rfl) (hmark (eventid, event.bytes)).2
  | broadcast event object =>
      cases hreceive
      rfl
  | success | fail | send | push =>
      simp only [ServerMessage.receive, Option.bind_eq_bind, Option.bind_eq_some_iff] at hreceive
      obtain ⟨found, -, hreceive⟩ := hreceive
      cases hreceive
      rfl
  | subscribe | unsubscribe =>
      simp only [ServerMessage.receive, Option.bind_eq_bind, Option.bind_eq_some_iff] at hreceive
      obtain ⟨memo, -, ev, -, hreceive⟩ := hreceive
      cases hreceive
      rfl

/-- The table of the client holds the events that are open, once each. -/
structure Tracks (client : Client J) (opened : UInt32 × Bytes → Bool) : Prop where
  distinct : (client.events.map ApiWsEvent.key).Nodup
  keys : ∀ key, key ∈ client.events.map ApiWsEvent.key ↔ opened key = true
  once : ∀ ev ∈ client.events, ev.refcount = 1

theorem Tracks.of_events {client client' : Client J} {opened opened' : UInt32 × Bytes → Bool}
    (h : Tracks client opened) (hevents : client'.events = client.events)
    (hopened : ∀ key, opened' key = opened key) : Tracks client' opened' := by
  refine ⟨?_, fun key => ?_, ?_⟩
  · rw [hevents]
    exact h.distinct
  · rw [hevents, hopened]
    exact h.keys key
  · rw [hevents]
    exact h.once

theorem Tracks.createEvent {client : Client J} {opened : UInt32 × Bytes → Bool}
    (h : Tracks client opened) {eventid : UInt32} {name : Bytes}
    (hclosed : opened (eventid, name) = false) :
    Tracks (ApiWs.createEvent eventid name client)
      fun key => if (eventid, name) = key then true else opened key := by
  have hnew : (eventid, name) ∉ client.events.map ApiWsEvent.key := by
    rw [h.keys, hclosed]
    exact Bool.false_ne_true
  have hsearch : apiWsClientEventSearch client.events eventid name = none := Keyed.search_none.mpr hnew
  rw [ApiWs.createEvent, hsearch]
  refine ⟨List.nodup_cons.mpr ⟨hnew, h.distinct⟩, fun key => ?_, ?_⟩
  · simp only [List.map_cons, List.mem_cons, h.keys key, ApiWsEvent.key]
    by_cases hkey : (eventid, name) = key
    · simp [hkey]
    · simp [hkey, Ne.symm hkey]
  · intro ev hev
    rcases List.mem_cons.mp hev with rfl | hev
    · rfl
    · exact h.once ev hev

theorem Tracks.dropEvent {client : Client J} {opened : UInt32 × Bytes → Bool}
    (h : Tracks client opened) {ev : ApiWsEvent} (hev : ev ∈ client.events) :
    Tracks (ApiWs.dropEvent ev client) fun key => if ev.key = key then false else opened key := by
  have hlast : ev.refcount - 1 = 0 := by
    rw [h.once ev hev]
    rfl
  rw [ApiWs.dropEvent, hlast, if_neg (by simp)]
  refine ⟨h.distinct.sublist (List.erase_sublist.map _), fun key => ?_, ?_⟩
  · simp only
    rw [Keyed.erase_eq_filter h.distinct hev]
    by_cases hkey : ev.key = key
    · simp [← hkey]
    · rw [if_neg hkey, ← h.keys key]
      simp only [List.mem_map, List.mem_filter]
      constructor
      · rintro ⟨other, ⟨hother, -⟩, hsame⟩
        exact ⟨other, hother, hsame⟩
      · rintro ⟨other, hother, hsame⟩
        exact ⟨other, ⟨hother, by simpa [hsame] using Ne.symm hkey⟩, hsame⟩
  · intro other hother
    exact h.once other (List.mem_of_mem_erase hother)

/-- A frame of the server keeps the table. -/
theorem Tracks.deliver (hjson : json.Inverse) {message : ServerMessage J} (hfits : message.Fits json)
    {beyond : Bytes} {rb : Readbuf} (hunread : Unread (message.order :: message.fields json) beyond rb)
    {client : Client J} {opened : UInt32 × Bytes → Bool} (h : Tracks client opened)
    (hbracketed : ∀ key, Bracketed (opened key) (message.mark key).toList) :
    Tracks (apiWsClientOnBinary json client rb).1
      fun key => openAfter (opened key) (message.mark key).toList := by
  have hreads := ServerMessage.onBinary_written hjson hfits hunread client
  by_cases hmark : ∀ key, message.mark key ≠ some .opens ∧ message.mark key ≠ some .closes
  · refine h.of_events ?_ fun key => ?_
    · cases hreceive : message.receive client with
      | none =>
          rw [hreceive] at hreads
          exact congrArg Client.events hreads
      | some client' =>
          rw [hreceive] at hreads
          exact (congrArg Client.events hreads.1).trans (receive_events hreceive hmark)
    · obtain ⟨hopens, hcloses⟩ := hmark key
      cases hkey : message.mark key with
      | none => rfl
      | some mark =>
          cases mark with
          | opens => exact absurd hkey hopens
          | closes => exact absurd hkey hcloses
          | uses => rfl
  · cases message with
    | add event eventid =>
        have hkey := hbracketed (eventid, event.bytes)
        simp only [ServerMessage.mark, if_true, Option.toList_some, Bracketed] at hkey
        have hmade := h.createEvent hkey.1
        rw [show (apiWsClientOnBinary json client rb).1 = _ from hreads.1]
        apply hmade.of_events rfl
        intro key
        by_cases hsame : (eventid, event.bytes) = key
        · simp [ServerMessage.mark, hsame, openAfter]
        · simp [ServerMessage.mark, hsame, openAfter]
    | remove event eventid =>
        have hkey := hbracketed (eventid, event.bytes)
        simp only [ServerMessage.mark, if_true, Option.toList_some, Bracketed] at hkey
        obtain ⟨ev, hev, hevkey⟩ := List.mem_map.mp ((h.keys _).mpr hkey.1)
        have hsearch : apiWsClientEventSearch client.events eventid event.bytes = some ev := by
          rw [apiWsClientEventSearch, ← hevkey]
          exact Keyed.search_mem h.distinct hev
        simp only [ServerMessage.receive, hsearch, Option.bind_eq_bind, Option.bind_some] at hreads
        rw [show (apiWsClientOnBinary json client rb).1 = _ from hreads.1]
        apply (h.dropEvent hev).of_events rfl
        intro key
        by_cases hsame : (eventid, event.bytes) = key
        · simp [ServerMessage.mark, hevkey, hsame, openAfter]
        · simp [ServerMessage.mark, hevkey, hsame, openAfter]
    | push | subscribe =>
        refine absurd (fun key => ?_) hmark
        rw [ServerMessage.mark]
        split
        · simp
        · simp
    | _ => exact absurd (fun key => by simp [ServerMessage.mark]) hmark

/-! ## The invariant -/

namespace Mirror

/-- Whether an event is open after some messages. -/
def opened (messages : List (ServerMessage J)) (key : UInt32 × Bytes) : Bool :=
  openAfter false (marks key messages)

/-- The server is at the end of the messages sent, the client at the end of those
delivered. -/
structure Synced (json : JsonC J) (link : Nat) (s : Mirror J) : Prop where
  sound : s.store.Sound
  ids : s.store.DistinctIds
  linked : Linked link s.store
  written : ∀ message ∈ s.sent, (message.encode json).isSome = true
  bracketed : ∀ key, Bracketed false (marks key s.sent)
  server : ∀ key, opened s.sent key = true ↔ Subscribed link s.store key
  progress : s.delivered ≤ s.sent.length
  client : Tracks s.client (opened (s.sent.take s.delivered))

theorem emit_some {s s' : Mirror J} {messages : List (ServerMessage J)}
    (h : s.emit json messages = some s') :
    (∀ message ∈ messages, (message.encode json).isSome = true) ∧
      s' = { s with sent := s.sent ++ messages } := by
  rw [emit] at h
  split at h
  case isTrue hall =>
    cases h
    exact ⟨by simpa using hall, rfl⟩
  case isFalse => cases h

theorem Synced.emit {s s' : Mirror J} {store : Store} {messages : List (ServerMessage J)}
    (h : s.Synced json link) (hserved : Served link s.store store messages)
    (hemit : Mirror.emit json messages { s with store } = some s') : s'.Synced json link := by
  obtain ⟨hwritten, rfl⟩ := emit_some hemit
  have hannounces (key : UInt32 × Bytes) := hserved.announces key _ (h.server key)
  refine ⟨hserved.sound, hserved.ids, hserved.linked, ?_, fun key => ?_, fun key => ?_, ?_, ?_⟩
  · intro message hmem
    rcases List.mem_append.mp hmem with hmem | hmem
    · exact h.written message hmem
    · exact hwritten message hmem
  · rw [marks_append, bracketed_append]
    exact ⟨h.bracketed key, (hannounces key).1⟩
  · rw [opened, marks_append, openAfter_append]
    exact (hannounces key).2
  · have hprogress := h.progress
    simp only [List.length_append]
    omega
  · rw [List.take_append_of_le_length h.progress]
    exact h.client

theorem Synced.subscribe {s s' : Mirror J} (h : s.Synced json link) {msgid : UInt32}
    {event address : Nat} (hfresh : address ∉ s.store.watches.map Watch.address)
    (hstep : s.subscribe json link msgid event address = some s') : s'.Synced json link := by
  simp only [Mirror.subscribe, Option.bind_eq_bind, Option.bind_eq_some_iff] at hstep
  obtain ⟨⟨rc, store, notices⟩, hadd, s₁, hemit, hstep⟩ := hstep
  obtain ⟨hserved, hactive⟩ := addWatch_served h.sound h.ids h.linked hfresh hadd
  have hsynced := h.emit hserved hemit
  split at hstep
  case isTrue =>
    cases hstep
    exact hsynced
  case isFalse =>
    obtain ⟨evt, hevent, hsend⟩ := Option.bind_eq_some_iff.mp hstep
    obtain ⟨hevt, rfl⟩ := Keyed.search_some hevent
    have hstore : s₁.store = store := by rw [(emit_some hemit).2]
    have huse : Announces link s₁.store s₁.store
        (if True then [(ServerMessage.subscribe msgid evt.id.toUInt32 evt.name : ServerMessage J)]
        else []) :=
      announces_use hsynced.sound hsynced.ids hevt (fun _ => rfl) fun _ => hstore ▸ hactive rfl
    rw [if_pos trivial] at huse
    exact hsynced.emit ⟨hsynced.sound, hsynced.ids, hsynced.linked, huse⟩ hsend

theorem Synced.unsubscribe {s s' : Mirror J} (h : s.Synced json link) {msgid : UInt32}
    {event : Nat} (hstep : s.unsubscribe json link msgid event = some s') : s'.Synced json link := by
  simp only [Mirror.unsubscribe, Option.bind_eq_bind, Option.bind_eq_some_iff] at hstep
  obtain ⟨evt, -, s₁, hemit, ⟨rc, store, notices⟩, hremove, hstep⟩ := hstep
  have hsynced := h.emit (served_same h.sound h.ids h.linked fun _ => rfl) hemit
  exact hsynced.emit (removeWatch_served hsynced.sound hsynced.ids hsynced.linked hremove) hstep

theorem marks_singleton (key : UInt32 × Bytes) (message : ServerMessage J) :
    marks key [message] = (message.mark key).toList := by
  rw [marks, List.filterMap_cons, List.filterMap_nil]
  cases message.mark key <;> rfl

/-- The messages up to the next one to deliver are bracketed too. -/
theorem Synced.next {s : Mirror J} (h : s.Synced json link) {message : ServerMessage J}
    (hnext : s.sent[s.delivered]? = some message) :
    s.sent.take (s.delivered + 1) = s.sent.take s.delivered ++ [message] ∧
    ∀ key, Bracketed (opened (s.sent.take s.delivered) key) (message.mark key).toList := by
  have htake : s.sent.take (s.delivered + 1) = s.sent.take s.delivered ++ [message] := by
    rw [List.take_add_one, hnext]
    rfl
  refine ⟨htake, fun key => ?_⟩
  have hall := h.bracketed key
  rw [← List.take_append_drop (s.delivered + 1) s.sent, htake, marks_append, marks_append,
    bracketed_append, bracketed_append, marks_singleton] at hall
  exact hall.1.2

theorem Synced.deliver (hjson : json.Inverse) {s s' : Mirror J} (h : s.Synced json link)
    {width base : Nat} {beyond : Bytes} (hstep : s.deliver json width base beyond = some s') :
    s'.Synced json link := by
  simp only [Mirror.deliver, Option.bind_eq_bind, Option.bind_eq_some_iff] at hstep
  obtain ⟨message, hnext, wb, hencode, hstep⟩ := hstep
  split at hstep
  case isFalse => cases hstep
  case isTrue hroom =>
    cases hstep
    obtain ⟨hlt, -⟩ := List.getElem?_eq_some_iff.mp hnext
    obtain ⟨htake, hbracketed⟩ := h.next hnext
    have hfits : message.Fits json := by
      by_contra hnot
      rw [message.encode_refused json hnot] at hencode
      cases hencode
    obtain ⟨count, vectors, hvectors, hbytes, -⟩ := message.encode_fits json hfits
    cases hvectors.symm.trans hencode
    have hunread := unread_ofData wb.flatten beyond hroom
    rw [hbytes] at hunread
    refine ⟨h.sound, h.ids, h.linked, h.written, h.bracketed, h.server, hlt, ?_⟩
    have htracks := h.client.deliver hjson hfits hunread hbracketed
    rw [← hbytes] at htracks
    apply htracks.of_events rfl
    intro key
    rw [htake, opened, marks_append, openAfter_append, marks_singleton]
    rfl

theorem Synced.step (hjson : json.Inverse) {s s' : Mirror J} {action : MirrorAction J}
    (h : s.Synced json link) (hstep : s.step json link action = some s') : s'.Synced json link := by
  cases action with
  | create name address =>
      simp only [Mirror.step] at hstep
      split at hstep
      case isTrue => cases hstep
      case isFalse hfresh =>
        obtain ⟨⟨result, store⟩, hcreate, hstep⟩ := Option.bind_eq_some_iff.mp hstep
        cases hstep
        have hserved := create_served (J := J) h.sound h.ids h.linked hfresh hcreate
        exact h.emit hserved (by simp [Mirror.emit])
  | destroy event =>
      obtain ⟨⟨store, notices⟩, hdestroy, hstep⟩ := Option.bind_eq_some_iff.mp hstep
      exact h.emit (destroy_served h.sound h.ids h.linked hdestroy) hstep
  | push event object =>
      obtain ⟨⟨result, notices⟩, hpush, hstep⟩ := Option.bind_eq_some_iff.mp hstep
      exact h.emit (push_served h.sound h.ids h.linked hpush) hstep
  | subscribe msgid event address =>
      simp only [Mirror.step] at hstep
      split at hstep
      case isTrue => cases hstep
      case isFalse hfresh => exact h.subscribe hfresh hstep
  | unsubscribe msgid event => exact h.unsubscribe hstep
  | watch listener event address =>
      simp only [Mirror.step] at hstep
      split at hstep
      case isTrue => cases hstep
      case isFalse hfresh =>
        obtain ⟨⟨rc, store, notices⟩, hadd, hstep⟩ := Option.bind_eq_some_iff.mp hstep
        exact h.emit (addWatch_served h.sound h.ids h.linked hfresh hadd).1 hstep
  | unwatch listener event =>
      obtain ⟨⟨rc, store, notices⟩, hremove, hstep⟩ := Option.bind_eq_some_iff.mp hstep
      exact h.emit (removeWatch_served h.sound h.ids h.linked hremove) hstep
  | reply message =>
      simp only [Mirror.step] at hstep
      split at hstep
      case isFalse => cases hstep
      case isTrue hplain =>
        refine h.emit (served_same h.sound h.ids h.linked fun key => ?_) hstep
        cases message <;> first | rfl | cases hplain
  | call req call allocated sends =>
      obtain ⟨⟨client, sent⟩, hcall, hstep⟩ := Option.bind_eq_some_iff.mp hstep
      cases hstep
      refine ⟨h.sound, h.ids, h.linked, h.written, h.bracketed, h.server, h.progress, ?_⟩
      refine h.client.of_events ?_ fun _ => rfl
      rcases callCb_cases hcall with ⟨msgid, -, rfl, -⟩ | ⟨id, effect, -, rfl⟩
      · rfl
      · rfl
  | deliver width base beyond => exact h.deliver hjson hstep

/-- A link that was just made: its listener watches nothing, nothing was sent and the
client knows no event. -/
structure Fresh (link : Nat) (s : Mirror J) : Prop where
  sound : s.store.Sound
  ids : s.store.DistinctIds
  linked : Linked link s.store
  idle : ∀ event, s.store.activity link event = 0
  sent : s.sent = []
  delivered : s.delivered = 0
  events : s.client.events = []

theorem Fresh.synced {s : Mirror J} (h : s.Fresh link) : s.Synced json link := by
  have hnone (key : UInt32 × Bytes) : ¬ Subscribed link s.store key := by
    rintro ⟨entry, -, -, hactivity⟩
    exact hactivity (h.idle entry.1)
  refine ⟨h.sound, h.ids, h.linked, ?_, fun key => ?_, fun key => ?_, ?_, ?_⟩
  · simp [h.sent]
  · simp [h.sent, marks, Bracketed]
  · simp [h.sent, opened, marks, openAfter, hnone]
  · simp [h.sent, h.delivered]
  · refine ⟨?_, fun key => ?_, ?_⟩
    · simp [h.events]
    · simp [h.events, h.sent, opened, marks, openAfter]
    · simp [h.events]

end Mirror

/-- In every run from a link that was just made: the messages for an event open and close
it in turn and use it in between, a message that closes or uses an event is for one that
the client knows when it comes, and when all is delivered the client knows exactly the
events on which the link is active. -/
theorem events_mirrored {J : Type} {json : JsonC J} (hjson : json.Inverse) {link : Nat}
    {start s : Mirror J} {ts : List (Transition (Mirror J) (MirrorAction J))}
    (hstart : start.Fresh link)
    (hrun : Runs (fun s action s' => s.step json link action = some s') start s ts) :
    (∀ key, Bracketed false (marks key s.sent)) ∧
    (∀ message eventid name, s.sent[s.delivered]? = some message →
      message.mark (eventid, name) = some .closes ∨ message.mark (eventid, name) = some .uses →
      (apiWsClientEventSearch s.client.events eventid name).isSome = true) ∧
    (s.delivered = s.sent.length →
      (s.client.events.map ApiWsEvent.key).Nodup ∧
      ∀ key, key ∈ s.client.events.map ApiWsEvent.key ↔
        ∃ evt ∈ s.store.events, (evt.id.toUInt32, evt.name.bytes) = key ∧
          s.store.activity link evt.address ≠ 0) := by
  have hsynced : s.Synced json link :=
    hrun.invariant (Mirror.Synced json link) (fun _ _ _ h hstep => h.step hjson hstep) hstart.synced
  refine ⟨hsynced.bracketed, ?_, fun hall => ⟨hsynced.client.distinct, fun key => ?_⟩⟩
  · intro message eventid name hnext hmark
    have hbracketed := (hsynced.next hnext).2 (eventid, name)
    refine Keyed.search_isSome.mpr ((hsynced.client.keys _).mpr ?_)
    rcases hmark with hmark | hmark
    · rw [hmark] at hbracketed
      exact hbracketed.1
    · rw [hmark] at hbracketed
      exact hbracketed.1
  · rw [hsynced.client.keys, hall, List.take_length, hsynced.server, Subscribed, Store.catalog]
    simp [entryKey]

/-- A link that was just made, for a client whose call 1 is waiting. -/
def newLink : Mirror Empty where
  store := ⟨[⟨1, apiWsServerEvtItf 0, 0, [], 1⟩], [], [], 0, false⟩
  sent := []
  delivered := 0
  client := ⟨1, [⟨1, 0⟩], [], []⟩

/-- The same after the call has subscribed an event, and all is delivered. -/
def oneEventLink : Mirror Empty where
  store := ⟨[⟨1, apiWsServerEvtItf 0, 0, [20], 1⟩], [⟨10, [20], 1, ⟨[101], by decide⟩⟩],
    [⟨20, 10, 1, 1⟩], 1, false⟩
  sent := [.add ⟨[101], by decide⟩ 1, .subscribe 1 1 ⟨[101], by decide⟩]
  delivered := 2
  client := ⟨1, [⟨1, 0⟩], [⟨1, [101], 1⟩], [.createEvent 1 [101], .subscribe 0 1 [101]]⟩

theorem newLink_fresh : newLink.Fresh 1 where
  sound := ⟨by decide, by decide, by decide, by decide, nofun, by
    simp [newLink, Store.watchsOfListener], nofun⟩
  ids := ⟨by decide, nofun, by decide⟩
  linked := ⟨0, by simp [newLink, Store.roster]⟩
  idle := fun _ => rfl
  sent := rfl
  delivered := rfl
  events := rfl

theorem events_mirrored_one :
    (1, [101]) ∈ oneEventLink.client.events.map ApiWsEvent.key ↔
      ∃ evt ∈ oneEventLink.store.events, (evt.id.toUInt32, evt.name.bytes) = (1, [101]) ∧
        oneEventLink.store.activity 1 evt.address ≠ 0 := by
  let created : Mirror Empty := { newLink with
    store := ⟨[⟨1, apiWsServerEvtItf 0, 0, [], 1⟩], [⟨10, [], 1, ⟨[101], by decide⟩⟩], [], 1, false⟩ }
  let subscribed : Mirror Empty := { oneEventLink with delivered := 0, client := newLink.client }
  let known : Mirror Empty := { oneEventLink with
    delivered := 1
    client := ⟨1, [⟨1, 0⟩], [⟨1, [101], 1⟩], [.createEvent 1 [101]]⟩ }
  have hcreate : newLink.step objectless 1 (.create ⟨[101], by decide⟩ 10) = some created := rfl
  have hsubscribe : created.step objectless 1 (.subscribe 1 10 20) = some subscribed := rfl
  have hadd : subscribed.step objectless 1 (.deliver 64 4096 []) = some known := rfl
  have hlast : known.step objectless 1 (.deliver 64 4096 []) = some oneEventLink := rfl
  have hrun : Runs (fun s action s' => Mirror.step objectless 1 s action = some s') newLink
      oneEventLink _ := (((Runs.single hcreate).snoc hsubscribe).snoc hadd).snoc hlast
  have hjson : objectless.Inverse := ⟨fun | none => rfl, rfl⟩
  exact ((events_mirrored hjson newLink_fresh hrun).2.2 rfl).2 (1, [101])

end AfbBinder.ApiWs
