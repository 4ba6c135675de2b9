import AfbBinder.ApiDbus.Calls

/-!
# The requests of the callers

What the binder does with the server, in any order.  A request keeps the listener of its
session, without a reference to it: the session may be closed before the request ends.
-/

namespace AfbBinder.ApiDbus

open Lib ApiWs

variable {J : Type} (json : JsonC J) {image : Image} {s s' : Server}

/-- A session that is not closed. -/
def Server.Open (s : Server) (client : Nat) : Prop :=
  ∃ c, s.store.mem client = some c ∧ c.uuid ≠ []

/-- A request has the listener that its session keeps for its sender. -/
def DbusReq.Attached (image : Image) (s : Server) (client : Nat) (dreq : DbusReq) : Prop :=
  ∃ l ∈ s.listeners, l.ident = dreq.listener ∧
    l.cookie image ∈ s.store.marked image.listenerFree client ∧
    ∀ d ∈ s.destinations, d.address = l.destination → d.name = dreq.sender

/-- The listeners are those of the open sessions, and a request has one or a freed one. -/
structure Served (image : Image) (s : Server) : Prop where
  idents : (s.requests.map DbusReq.ident).Nodup
  bounded : ∀ dreq ∈ s.requests, dreq.ident < s.nextRequest
  listeners : ∀ l ∈ s.listeners, ∃ client, s.Open client ∧
    l.cookie image ∈ s.store.marked image.listenerFree client
  requests : ∀ dreq ∈ s.requests, ∃ client, dreq.context.session = some client ∧
    client < s.store.next ∧ dreq.listener < s.nextListener ∧
    (s.Open client → dreq.Attached image s client) ∧
    (¬ s.Open client → dreq.listener ∉ s.listeners.map Listener.ident)

/-- What the callers keep to.  Objects of the other parts of the binder are not those of the
server, what is allocated is not in use, and a request is used while it is referred to. -/
def Allowed (image : Image) (s : Server) : Action J → Prop
  | .session action => Session.Foreign image.listenerFree
      (fun key => key ∈ s.destinations.map Destination.address) s.store action
  | .evt deed => deed.Fresh s.evt ∧ deed.Foreign image.pushItf s.evt ∧ (deed.exec s.evt).isSome
  | .called incoming memory generated =>
      ∀ request uuid flags, incoming.arguments = some (request, uuid, flags) →
      ∀ context s', connect json image memory generated uuid s = some (context, s') →
        memory.Fresh s'
  | .addref request | .unref request _ | .reply request _ _ _ =>
      request ∈ s.requests.map DbusReq.ident
  | .change request context => ∃ dreq, s.request? request = some dreq ∧
      context.session = dreq.context.session
  | .subscribe request event allocated => ∃ dreq, s.request? request = some dreq ∧
      dreq.listener ∈ s.listeners.map Listener.ident ∧
      (event.ours = true → event.closure ∈ s.evt.events.map Evt.EvtEvent.address) ∧
      ∀ a, allocated = some a → a ∉ s.evt.watches.map Evt.Watch.address
  | .unsubscribe request event => ∃ dreq, s.request? request = some dreq ∧
      dreq.listener ∈ s.listeners.map Listener.ident ∧
      (event.ours = true → event.closure ∈ s.evt.events.map Evt.EvtEvent.address)

/-- The calls give a uuid; the empty one is the uuid of the closed sessions. -/
def Named : Action J → Prop
  | .called incoming _ _ => ∀ request uuid flags,
      incoming.arguments = some (request, uuid, flags) → uuid ≠ []
  | _ => True

/-! ## What is kept -/

/-- The sessions that are left open by `Settles` are those that were. -/
theorem open_iff {store : Session.Store} {closed : List Nat}
    (hsettles : Session.Settles image.listenerFree s.store store closed)
    (hstore : s'.store = store) {client : Nat} (hlt : client < s.store.next) :
    s'.Open client ↔ s.Open client ∧ client ∉ closed := by
  constructor
  · rintro ⟨c', hc', hopen⟩
    rw [hstore] at hc'
    have hnot : client ∉ closed := fun hin => hopen ((hsettles.closing client hin).2 c' hc')
    cases hc : s.store.mem client with
    | none =>
        rw [hsettles.gone client hlt hc] at hc'
        cases hc'
    | some c =>
        have huuid := (hsettles.staying client c' hnot hc').2 c hc
        exact ⟨⟨c, hc, huuid ▸ hopen⟩, hnot⟩
  · rintro ⟨⟨c, hc, hopen⟩, hnot⟩
    cases hc' : store.mem client with
    | none => exact absurd (hsettles.leaving client c hnot hc hc') hopen
    | some c' =>
        have huuid := (hsettles.staying client c' hnot hc').2 c hc
        exact ⟨c', hstore ▸ hc', huuid ▸ hopen⟩

theorem Sound.lt_next (h : Sound image s) {client : Nat} {cookie : Session.Cookie}
    (hcookie : cookie ∈ s.store.marked image.listenerFree client) : client < s.store.next := by
  rcases Session.allocated_of_marked hcookie with ⟨c, hc, -, -⟩
  exact h.reserved.lt_next hc

theorem Served.settled (h : Served image s) (hs : Sound image s) {store : Session.Store}
    {closed : List Nat} (hsettles : Session.Settles image.listenerFree s.store store closed)
    (hsettled : Settled image s s' store closed) : Served image s' := by
  have hstore : s'.store = store := hsettled.frame.store
  have hrequests : s'.requests = s.requests := hsettled.frame.requests
  have hopen : ∀ client, client < s.store.next → (s'.Open client ↔ s.Open client ∧ client ∉ closed) :=
    fun client hlt => open_iff hsettles hstore hlt
  -- a cookie of a session that is not closed stays, with its listener
  have hstays : ∀ client l, l ∈ s.listeners → s'.Open client → client ∉ closed →
      l.cookie image ∈ s.store.marked image.listenerFree client →
      l ∈ s'.listeners ∧ l.cookie image ∈ s'.store.marked image.listenerFree client := by
    intro client l hl hopen' hnot hcookie
    constructor
    · rw [hsettled.listeners]
      refine List.mem_filter.mpr ⟨hl, decide_eq_true ?_⟩
      intro hkept
      rcases mem_kept.mp hkept with ⟨other, hother, cookie, hcookie', hvalue⟩
      have hsame := hs.once client other _ cookie hcookie hcookie' hvalue.symm
      exact hnot (hsame ▸ hother)
    · rcases hopen' with ⟨c', hc', -⟩
      rw [hstore] at hc' ⊢
      rw [(hsettles.staying client c' hnot hc').1]
      exact hcookie
  constructor
  · rw [hrequests]
    exact h.idents
  · rw [hrequests, show s'.nextRequest = s.nextRequest from hsettled.frame.nextRequest]
    exact h.bounded
  · intro l hl
    rw [hsettled.listeners] at hl
    rcases List.mem_filter.mp hl with ⟨hl, hkept⟩
    rcases h.listeners l hl with ⟨client, hclient, hcookie⟩
    have hnot : client ∉ closed := fun hin =>
      of_decide_eq_true hkept (mem_kept.mpr ⟨client, hin, l.cookie image, hcookie, rfl⟩)
    have hopen' := (hopen client (hs.lt_next hcookie)).mpr ⟨hclient, hnot⟩
    exact ⟨client, hopen', (hstays client l hl hopen' hnot hcookie).2⟩
  · intro dreq hdreq
    rw [hrequests] at hdreq
    rcases h.requests dreq hdreq with ⟨client, hsession, hlt, hbound, hattached, hfreed⟩
    refine ⟨client, hsession, ?_, ?_, ?_, ?_⟩
    · rw [hstore]
      exact Nat.lt_of_lt_of_le hlt hsettles.next
    · rw [show s'.nextListener = s.nextListener from hsettled.frame.nextListener]
      exact hbound
    · intro hopen'
      rcases (hopen client hlt).mp hopen' with ⟨hclient, hnot⟩
      rcases hattached hclient with ⟨l, hl, hident, hcookie, hname⟩
      rcases hstays client l hl hopen' hnot hcookie with ⟨hl', hcookie'⟩
      refine ⟨l, hl', hident, hcookie', ?_⟩
      intro d' hd' haddress
      rcases hsettled.destinations d' hd' with ⟨d, hd, hsame, hname'⟩
      rw [hname']
      exact hname d hd (hsame.symm.trans haddress)
    · intro hclosed hin
      rw [hsettled.listeners] at hin
      rcases List.mem_map.mp hin with ⟨l, hl, hident⟩
      rcases List.mem_filter.mp hl with ⟨hl, hkept⟩
      by_cases hclient : s.Open client
      · -- the session is one of those that are closed
        have hclosing : client ∈ closed := by
          by_contra hnot
          exact hclosed ((hopen client hlt).mpr ⟨hclient, hnot⟩)
        rcases hattached hclient with ⟨l', hl', hident', hcookie, -⟩
        have hsame := Keyed.key_inj hs.core.idents hl hl' (hident.trans hident'.symm)
        subst hsame
        exact of_decide_eq_true hkept (mem_kept.mpr ⟨client, hclosing, l.cookie image, hcookie, rfl⟩)
      · exact hfreed hclient (List.mem_map.mpr ⟨l, hl, hident⟩)

theorem Served.taken (h : Served image s) {sender : Bytes} {session : Nat}
    {result : Option Nat} (htaken : Taken image sender session s s' result)
    (hopen : s.Open session) : Served image s' := by
  have hsame : ∀ client, s'.Open client ↔ s.Open client := by
    intro client
    have huuids := htaken.uuids client
    constructor
    · rintro ⟨c', hc', hopen'⟩
      rw [hc'] at huuids
      rcases Option.map_eq_some_iff.mp huuids.symm with ⟨c, hc, huuid⟩
      exact ⟨c, hc, huuid ▸ hopen'⟩
    · rintro ⟨c, hc, hopen'⟩
      rw [hc] at huuids
      rcases Option.map_eq_some_iff.mp huuids with ⟨c', hc', huuid⟩
      exact ⟨c', hc', huuid ▸ hopen'⟩
  constructor
  · rw [htaken.requests]
    exact h.idents
  · rw [htaken.requests, htaken.nextRequest]
    exact h.bounded
  · intro l hl
    rcases htaken.added l hl with hold | ⟨-, hcookie⟩
    · rcases h.listeners l hold with ⟨client, hclient, hcookie⟩
      exact ⟨client, (hsame client).mpr hclient, htaken.marked client _ hcookie⟩
    · exact ⟨session, (hsame session).mpr hopen, hcookie⟩
  · intro dreq hdreq
    rw [htaken.requests] at hdreq
    rcases h.requests dreq hdreq with ⟨client, hsession, hlt, hbound, hattached, hfreed⟩
    refine ⟨client, hsession, ?_, Nat.lt_of_lt_of_le hbound htaken.nextListener, ?_, ?_⟩
    · rw [htaken.next]
      exact hlt
    · intro hclient
      rcases hattached ((hsame client).mp hclient) with ⟨l, hl, hident, hcookie, hname⟩
      refine ⟨l, htaken.kept l hl, hident, htaken.marked client _ hcookie, ?_⟩
      intro d' hd' haddress
      rcases htaken.named l hl d' hd' haddress with ⟨d, hd, hsame', hname'⟩
      rw [← hname']
      exact hname d hd (hsame'.trans haddress)
    · intro hclosed hin
      rcases List.mem_map.mp hin with ⟨l, hl, hident⟩
      rcases htaken.added l hl with hold | ⟨hnew, -⟩
      · exact hfreed (fun hclient => hclosed ((hsame client).mpr hclient))
          (List.mem_map.mpr ⟨l, hold, hident⟩)
      · omega

/-- The sessions, the destinations and the listeners are left alone. -/
structure Alike (s s' : Server) : Prop where
  store : s'.store = s.store
  destinations : s'.destinations = s.destinations
  listeners : s'.listeners = s.listeners
  nextListener : s'.nextListener = s.nextListener

/-- A request is the same but for its flags and its count. -/
structure DbusReq.Same (dreq dreq' : DbusReq) : Prop where
  ident : dreq'.ident = dreq.ident
  session : dreq'.context.session = dreq.context.session
  sender : dreq'.sender = dreq.sender
  listener : dreq'.listener = dreq.listener

theorem DbusReq.Same.refl (dreq : DbusReq) : dreq.Same dreq := ⟨rfl, rfl, rfl, rfl⟩

theorem Core.alike (h : Core image s) (halike : Alike s s') (hevt : s'.evt.Sound)
    (hitf : s'.evt.ofItf image.pushItf = s.evt.ofItf image.pushItf) : Core image s' := by
  constructor
  · exact hevt
  · rw [halike.listeners]
    exact h.idents
  · rw [halike.listeners, halike.nextListener]
    exact h.bounded
  · rw [halike.destinations]
    exact h.names
  · rw [halike.destinations, halike.listeners]
    exact h.destinations
  · rw [hitf, halike.listeners]
    exact h.watching
  · rw [hitf, halike.listeners]
    exact h.paired

theorem Sound.alike (h : Sound image s) (halike : Alike s s') (hevt : s'.evt.Sound)
    (hitf : s'.evt.ofItf image.pushItf = s.evt.ofItf image.pushItf) : Sound image s' := by
  constructor
  · exact h.core.alike halike hevt hitf
  · rw [halike.store, halike.destinations]
    exact h.reserved
  · rw [halike.store, halike.listeners]
    exact h.held
  · rw [halike.store]
    exact h.once

theorem Served.alike (h : Served image s) (halike : Alike s s')
    (hnext : s'.nextRequest = s.nextRequest) (hidents : (s'.requests.map DbusReq.ident).Nodup)
    (hfrom : ∀ dreq' ∈ s'.requests, ∃ dreq ∈ s.requests, dreq.Same dreq') : Served image s' := by
  have hopen : ∀ client, s'.Open client ↔ s.Open client := by
    intro client
    rw [Server.Open, halike.store]
    rfl
  constructor
  · exact hidents
  · intro dreq' hdreq'
    rcases hfrom dreq' hdreq' with ⟨dreq, hdreq, hsame⟩
    rw [hsame.ident, hnext]
    exact h.bounded dreq hdreq
  · intro l hl
    rw [halike.listeners] at hl
    rcases h.listeners l hl with ⟨client, hclient, hcookie⟩
    refine ⟨client, (hopen client).mpr hclient, ?_⟩
    rw [halike.store]
    exact hcookie
  · intro dreq' hdreq'
    rcases hfrom dreq' hdreq' with ⟨dreq, hdreq, hsame⟩
    rcases h.requests dreq hdreq with ⟨client, hsession, hlt, hbound, hattached, hfreed⟩
    refine ⟨client, hsame.session.trans hsession, ?_, ?_, ?_, ?_⟩
    · rw [halike.store]
      exact hlt
    · rw [hsame.listener, halike.nextListener]
      exact hbound
    · intro hclient
      rw [DbusReq.Attached, halike.listeners, halike.store, halike.destinations, hsame.listener,
        hsame.sender]
      exact hattached ((hopen client).mp hclient)
    · rw [hopen, hsame.listener, halike.listeners]
      exact hfreed

theorem Served.received (h : Served image s) {dreq : DbusReq} {client : Nat}
    (hident : dreq.ident = s.nextRequest) (hsession : dreq.context.session = some client)
    (hlt : client < s.store.next) (hbound : dreq.listener < s.nextListener) (hopen : s.Open client)
    (hattached : dreq.Attached image s client) :
    Served image { s with requests := dreq :: s.requests, nextRequest := s.nextRequest + 1 } := by
  constructor
  · refine List.nodup_cons.mpr ⟨?_, h.idents⟩
    intro hin
    rcases List.mem_map.mp hin with ⟨other, hother, hsame⟩
    exact absurd (hsame.trans hident) (Nat.ne_of_lt (h.bounded other hother))
  · intro other hother
    rcases List.mem_cons.mp hother with rfl | hother
    · rw [hident]
      exact Nat.lt_succ_self _
    · exact Nat.lt_succ_of_lt (h.bounded other hother)
  · exact h.listeners
  · intro other hother
    rcases List.mem_cons.mp hother with rfl | hother
    · exact ⟨client, hsession, hlt, hbound, fun _ => hattached, fun hclosed => absurd hopen hclosed⟩
    · exact h.requests other hother

/-! ## Steps -/

/-- A step ends, and keeps what holds. -/
def Kept (image : Image) (s : Server) (named : Prop) (result : Option Server) : Prop :=
  ∃ s', result = some s' ∧ Sound image s' ∧ (named → Served image s → Served image s')

theorem kept_settle (h : Sound image s) (s₀ : Server) (halike : Alike s s₀) (hevt : s₀.evt = s.evt)
    (hserved : Served image s → Served image s₀) {store : Session.Store}
    (hsettles : Session.Reserved image.listenerFree
        (fun key => key ∈ s.destinations.map Destination.address) store ∧
      ∃ closed, Session.Settles image.listenerFree s.store store closed) (named : Prop) :
    Kept image s named (settle json image store s₀) := by
  have hsound : Sound image s₀ := h.alike halike (hevt ▸ h.core.evt) (by rw [hevt])
  rcases hsettles with ⟨hreserved, closed, hsettles⟩
  rw [← halike.destinations] at hreserved
  rw [← halike.store] at hsettles
  rcases settle_spec json hsound hreserved hsettles with ⟨s', hrun, hsound', hsettled⟩
  exact ⟨s', hrun, hsound', fun _ hbefore => (hserved hbefore).settled hsound hsettles hsettled⟩

/-- The calls of the interfaces send messages, and the events are those left by `deed`. -/
theorem tell_deed (h : Sound image s) {deed : Evt.Deed J} (hfresh : deed.Fresh s.evt)
    (hforeign : deed.Foreign image.pushItf s.evt) {evt : Evt.Store} {notices : List (Evt.Notice J)}
    (hexec : deed.exec s.evt = some (evt, notices)) :
    tell json image s.evt notices s =
        some { s with sent := s.sent ++ notices.flatMap (noticeMessages json image s.evt s) } ∧
      evt.Sound ∧ evt.ofItf image.pushItf = s.evt.ofItf image.pushItf := by
  rcases Evt.Deed.exec_foreign h.core.evt hfresh hforeign hexec with ⟨hsound, hitf, htold⟩
  exact ⟨tell_eq json htold fun base hbase => h.core.closure hbase, hsound, hitf⟩

theorem kept_evt (h : Sound image s) {evt : Evt.Store} (sent : List EventMessage) (hevt : evt.Sound)
    (hitf : evt.ofItf image.pushItf = s.evt.ofItf image.pushItf) (named : Prop) :
    Kept image s named (some { s with evt, sent }) :=
  ⟨_, rfl, h.alike ⟨rfl, rfl, rfl, rfl⟩ hevt hitf, fun _ hserved => hserved.alike ⟨rfl, rfl, rfl, rfl⟩
    rfl hserved.idents fun dreq hdreq => ⟨dreq, hdreq, .refl dreq⟩⟩

theorem kept_requests (h : Sound image s) (answers : List Answer) {requests : List DbusReq}
    (hidents : (s.requests.map DbusReq.ident).Nodup → (requests.map DbusReq.ident).Nodup)
    (hfrom : ∀ dreq' ∈ requests, ∃ dreq ∈ s.requests, dreq.Same dreq') (named : Prop) :
    Kept image s named (some { s with requests, answers }) :=
  ⟨_, rfl, h.alike ⟨rfl, rfl, rfl, rfl⟩ h.core.evt rfl, fun _ hserved =>
    hserved.alike ⟨rfl, rfl, rfl, rfl⟩ rfl (hidents hserved.idents) hfrom⟩

theorem request_some {request : Nat} (h : request ∈ s.requests.map DbusReq.ident) :
    ∃ dreq, s.request? request = some dreq :=
  Option.isSome_iff_exists.mp (Keyed.search_isSome.mpr h)

theorem kept_modify (h : Sound image s) {request : Nat} {f : DbusReq → DbusReq}
    (hf : ∀ dreq, s.request? request = some dreq → dreq.Same (f dreq))
    (hident : ∀ dreq, (f dreq).ident = dreq.ident) (named : Prop) :
    Kept image s named (some { s with requests := Keyed.modify DbusReq.ident request f s.requests }) := by
  refine ⟨_, rfl, h.alike ⟨rfl, rfl, rfl, rfl⟩ h.core.evt rfl, fun _ hserved => ?_⟩
  refine hserved.alike ⟨rfl, rfl, rfl, rfl⟩ rfl ?_ ?_
  · show (List.map DbusReq.ident (Keyed.modify DbusReq.ident request f s.requests)).Nodup
    rw [Keyed.map_modify hident]
    exact hserved.idents
  · intro dreq' hdreq'
    rcases Keyed.mem_modify.mp hdreq' with ⟨dreq, hdreq, hsame, rfl⟩ | ⟨hdreq, -⟩
    · exact ⟨dreq, hdreq, hf dreq (hsame ▸ Keyed.search_mem hserved.idents hdreq)⟩
    · exact ⟨dreq', hdreq, .refl dreq'⟩

/-- `dbus_req_unref` -/
theorem kept_unref (h : Sound image s) {request : Nat}
    (hrequest : request ∈ s.requests.map DbusReq.ident) (generated : Bytes) (named : Prop) :
    Kept image s named (dbusReqUnref json image request generated s) := by
  rcases request_some hrequest with ⟨dreq, hdreq⟩
  simp only [dbusReqUnref, hdreq, Option.bind_eq_bind, Option.bind_some]
  split
  · apply kept_modify h
    · exact fun _ _ => ⟨rfl, rfl, rfl, rfl⟩
    · exact fun _ => rfl
  · have hserved : Served image s → Served image { s with
        requests := s.requests.filter fun other => other.ident ≠ request } := fun hserved =>
      hserved.alike ⟨rfl, rfl, rfl, rfl⟩ rfl
        (hserved.idents.sublist (List.filter_sublist.map DbusReq.ident))
        fun other hother => ⟨other, (List.mem_filter.mp hother).1, .refl other⟩
    exact kept_settle json h { s with requests := s.requests.filter fun other => other.ident ≠ request }
      ⟨rfl, rfl, rfl, rfl⟩ rfl hserved
      (Session.settles_disconnect h.reserved generated s.now dreq.context) named

/-- An answer changes nothing else. -/
theorem Sound.replyError (h : Sound image s) (incoming : Incoming) (error : BusError) :
    Sound image (replyError incoming error s) :=
  h.alike ⟨rfl, rfl, rfl, rfl⟩ h.core.evt rfl

theorem Served.replyError (h : Served image s) (incoming : Incoming) (error : BusError) :
    Served image (replyError incoming error s) :=
  h.alike ⟨rfl, rfl, rfl, rfl⟩ rfl h.idents fun dreq hdreq => ⟨dreq, hdreq, .refl dreq⟩

/-- `api_dbus_server_on_object_called` -/
theorem kept_called (h : Sound image s) {incoming : Incoming} {memory : Memory} {generated : Bytes}
    (hfresh : ∀ request uuid flags, incoming.arguments = some (request, uuid, flags) →
      ∀ context s', connect json image memory generated uuid s = some (context, s') →
        memory.Fresh s') :
    Kept image s (∀ request uuid flags, incoming.arguments = some (request, uuid, flags) → uuid ≠ [])
      (onObjectCalled json image incoming memory generated s) := by
  unfold onObjectCalled
  split
  · exact ⟨_, rfl, h.replyError _ _, fun _ hserved => hserved.replyError _ _⟩
  split
  · exact ⟨_, rfl, h.replyError _ _, fun _ hserved => hserved.replyError _ _⟩
  rename_i request uuid flags harguments
  rcases hconnect : Session.afbContextConnect memory.session generated (some uuid) none s.now s.store
    with ⟨context, store⟩
  have hsettles := Session.settles_connect h.reserved memory.session generated (some uuid) none s.now
  rw [hconnect] at hsettles
  rcases hsettles with ⟨hreserved, closed, hsettles⟩
  rcases settle_spec json h hreserved hsettles with ⟨s₁, hrun, hsound, hsettled⟩
  have hserved : Served image s → Served image s₁ := fun hbefore => hbefore.settled h hsettles hsettled
  have hconnected : connect json image memory generated uuid s = some (context, s₁) := by
    simp only [connect, hconnect, hrun, Option.bind_eq_bind, Option.bind_some]
  simp only [hconnected, Option.bind_eq_bind, Option.bind_some]
  cases context with
  | none => exact ⟨_, rfl, hsound.replyError _ _, fun _ hbefore => (hserved hbefore).replyError _ _⟩
  | some context =>
      rcases Session.afbContextConnect_session hconnect with ⟨client, c, hsession, hc, huuid⟩
      rw [← show s₁.store = store from hsettled.frame.store] at hc
      rcases listenerGet_spec json hsound (hfresh request uuid flags harguments _ _ hconnected)
        incoming.sender hc with ⟨result, s₂, hget, hsound', htaken⟩
      simp only [hsession, hget, Option.bind_some]
      have hserved' : uuid ≠ [] → Served image s → Served image s₂ := fun hnamed hbefore =>
        (hserved hbefore).taken htaken ⟨c, hc, huuid ▸ hnamed⟩
      cases result with
      | none =>
          exact ⟨_, rfl, hsound'.replyError _ _, fun hnamed hbefore =>
            (hserved' (hnamed request uuid flags harguments) hbefore).replyError _ _⟩
      | some listener =>
          refine ⟨_, rfl, hsound'.alike ⟨rfl, rfl, rfl, rfl⟩ hsound'.core.evt rfl, ?_⟩
          intro hnamed hbefore
          have hnonempty := hnamed request uuid flags harguments
          rcases htaken.result listener rfl with ⟨l, hl, hident, hcookie, hname⟩
          have hopen : s₂.Open client := by
            have huuids := htaken.uuids client
            rw [hc] at huuids
            rcases Option.map_eq_some_iff.mp huuids with ⟨c', hc', huuid'⟩
            exact ⟨c', hc', huuid'.trans huuid ▸ hnonempty⟩
          apply (hserved' hnonempty hbefore).received rfl hsession (hsound'.lt_next hcookie) _ hopen
          · exact ⟨l, hl, hident, hcookie, hname⟩
          · rw [← hident]
            exact hsound'.core.bounded l hl

/-! ## Subscriptions -/

theorem listener_some {listener : Nat} (h : listener ∈ s.listeners.map Listener.ident) :
    ∃ l ∈ s.listeners, l.ident = listener ∧ s.listener? listener = some l := by
  rcases Option.isSome_iff_exists.mp (Keyed.search_isSome.mpr h) with ⟨l, hl⟩
  rcases Keyed.search_some hl with ⟨hmem, hident⟩
  exact ⟨l, hmem, hident, hl⟩

/-- The event listener of a listener, with its destination as closure. -/
theorem Core.base_of (h : Core image s) {l : Listener} (hl : l ∈ s.listeners) :
    ∃ lst ∈ s.evt.listeners, lst.address = l.listener ∧ lst.itf = image.pushItf ∧
      lst.closure = l.destination := by
  rcases h.base_iff.mpr ⟨l, hl, rfl⟩ with ⟨base, hbase, haddress⟩
  rcases Evt.mem_ofItf.mp hbase with ⟨hmem, hitf⟩
  rcases List.mem_map.mp hmem with ⟨lst, hlst, rfl⟩
  exact ⟨lst, hlst, haddress, hitf, ((h.paired _ hbase l hl).mp haddress.symm).symm⟩

theorem Core.refcount_eq (h : Core image s) {lst : Evt.Listener} (hlst : lst ∈ s.evt.listeners)
    (hitf : lst.itf = image.pushItf) :
    lst.refcount = (s.listeners.map Listener.destination).count lst.closure := by
  have hbase : lst.base ∈ s.evt.ofItf image.pushItf :=
    Evt.mem_ofItf.mpr ⟨List.mem_map_of_mem hlst, hitf⟩
  have hcount := h.watching.count _ (List.mem_map_of_mem (f := Evt.Base.entry) hbase)
  have hsame : (s.listeners.map Listener.listener).count lst.address =
      (s.listeners.map Listener.destination).count lst.closure := by
    rw [List.count_eq_countP, List.count_eq_countP, List.countP_map, List.countP_map]
    apply List.countP_congr
    intro l hl
    show (l.listener == lst.address) = true ↔ (l.destination == lst.closure) = true
    rw [beq_iff_eq, beq_iff_eq]
    exact h.paired lst.base hbase l hl
  rw [← hsame]
  exact hcount

theorem eventSign_some {event : Evt.AfbEvent} {evt : Evt.Store}
    (hevent : event.ours = true → event.closure ∈ evt.events.map Evt.EvtEvent.address) :
    ∃ name eventid, eventSign event evt = some (name, eventid) := by
  unfold eventSign
  split
  · rename_i hours
    rcases Evt.Store.event_some (hevent hours) with ⟨e, he⟩
    exact ⟨e.name.bytes, e.id, by rw [he, Option.map_some]⟩
  · exact ⟨[], 0, rfl⟩

/-- The order for a request goes to the destination of its listener. -/
theorem sendOrder_spec (h : Core image s) (order : UInt8) (dreq : DbusReq) {l : Listener}
    (hl : l ∈ s.listeners) {event : Evt.AfbEvent}
    (hevent : event.ours = true → event.closure ∈ s.evt.events.map Evt.EvtEvent.address) :
    ∃ d ∈ s.destinations, d.address = l.destination ∧ ∃ message, message.destination = d.name ∧
      sendOrder order dreq l event s = some { s with sent := s.sent ++ [message] } := by
  rcases h.destination_some (h.destination_iff.mpr ⟨l, hl, rfl⟩) with ⟨d, hd, haddress, hfound⟩
  rcases eventSign_some hevent with ⟨name, eventid, hsign⟩
  refine ⟨d, hd, haddress, ⟨d.name, order, eventid, name, [], dreq.cookie⟩, rfl, ?_⟩
  simp only [sendOrder, hsign, hfound, Option.bind_eq_bind, Option.bind_some]

theorem noticeMessage_destination {destination : Bytes} {notice : Evt.Notice J} {message : EventMessage}
    (h : message ∈ noticeMessage json destination notice) : message.destination = destination := by
  cases notice with
  | add _ event eventid => rw [List.mem_singleton.mp h]
  | remove _ event eventid => rw [List.mem_singleton.mp h]
  | push _ event eventid object => rw [List.mem_singleton.mp h]
  | broadcast _ _ _ => exact absurd h List.not_mem_nil

/-- The calls for the event listener of `l` make messages to its destination. -/
theorem alone_destination (h : Core image s) {l : Listener} (hl : l ∈ s.listeners) {evt : Evt.Store}
    {notices : List (Evt.Notice J)} (halone : Evt.Alone l.listener s.evt evt notices) :
    ∀ message ∈ notices.flatMap (noticeMessages json image s.evt s),
      ∃ d ∈ s.destinations, d.address = l.destination ∧ message.destination = d.name := by
  intro message hmessage
  rcases List.mem_flatMap.mp hmessage with ⟨notice, hnotice, hin⟩
  rcases h.base_of hl with ⟨lst, hlst, haddress, hitf, hclosure⟩
  rcases h.destination_some (h.destination_iff.mpr ⟨l, hl, rfl⟩) with ⟨d, hd, haddress', hfound⟩
  have hlistener : s.evt.listener? notice.listener = some lst := by
    rw [halone.told notice hnotice, ← haddress]
    exact Keyed.search_mem h.evt.listenerAddresses hlst
  simp only [noticeMessages, hlistener, if_pos hitf, hclosure, hfound] at hin
  exact ⟨d, hd, haddress', noticeMessage_destination json hin⟩

/-- What a subscription, or its end, does: the events are rewritten and messages are sent to the
destination of the listener. -/
def Ordered (image : Image) (s : Server) (l : Listener) (result : Option Server) : Prop :=
  ∃ evt messages, result = some { s with evt, sent := s.sent ++ messages } ∧ evt.Sound ∧
    evt.ofItf image.pushItf = s.evt.ofItf image.pushItf ∧
    ∀ message ∈ messages, ∃ d ∈ s.destinations, d.address = l.destination ∧
      message.destination = d.name

/-- A watch of the listener is changed by a call of `afb-evt.c`. -/
theorem watch_spec (h : Core image s) {l : Listener} (hl : l ∈ s.listeners) {evt : Evt.Store}
    {notices : List (Evt.Notice J)} (halone : Evt.Alone l.listener s.evt evt notices)
    (hevt : evt.Sound) :
    ∃ messages, tell json image s.evt notices s = some { s with sent := s.sent ++ messages } ∧
      Core image { s with evt, sent := s.sent ++ messages } ∧
      evt.ofItf image.pushItf = s.evt.ofItf image.pushItf ∧
      ∀ message ∈ messages, ∃ d ∈ s.destinations, d.address = l.destination ∧
        message.destination = d.name := by
  rcases h.base_of hl with ⟨lst, hlst, haddress, -, -⟩
  have hfound : s.evt.listener? l.listener = some lst := by
    rw [← haddress]
    exact Keyed.search_mem h.evt.listenerAddresses hlst
  have hitf := Evt.ofItf_congr halone.bases image.pushItf
  refine ⟨_, tell_eq json (halone.leaves hfound).told fun base hbase => h.closure hbase, ?_, hitf,
    alone_destination json h hl halone⟩
  exact h.alike ⟨rfl, rfl, rfl, rfl⟩ hevt hitf

theorem subscribe_spec (h : Core image s) {request : Nat} {dreq : DbusReq}
    (hdreq : s.request? request = some dreq) {l : Listener} (hl : l ∈ s.listeners)
    (hlistener : s.listener? dreq.listener = some l) {event : Evt.AfbEvent}
    (hevent : event.ours = true → event.closure ∈ s.evt.events.map Evt.EvtEvent.address)
    {allocated : Option Nat}
    (hfresh : ∀ a, allocated = some a → a ∉ s.evt.watches.map Evt.Watch.address) :
    Ordered image s l (dbusReqSubscribe json image request event allocated s) := by
  rcases h.base_of hl with ⟨lst, hlst, haddress, -, -⟩
  rcases Evt.afbEvtAddWatch_some (J := J) h.evt hlst hevent allocated with ⟨rc, evt, notices, hadd⟩
  rw [haddress] at hadd
  rcases Evt.afbEvtAddWatch_becomes h.evt hfresh hadd with ⟨_, hbecomes⟩
  rcases watch_spec json h hl (Evt.afbEvtAddWatch_alone hadd) hbecomes.sound with
    ⟨told, htell, hcore, hitf, hdestination⟩
  have hevents : evt.events.map Evt.EvtEvent.address = s.evt.events.map Evt.EvtEvent.address := by
    rw [← Evt.Store.catalog_addresses, hbecomes.catalog, Evt.Store.catalog_addresses]
  rcases sendOrder_spec hcore orderSubscribe dreq hl fun hours => hevents ▸ hevent hours with
    ⟨d, hd, haddress', message, hmessage, hsend⟩
  refine ⟨evt, told ++ [message], ?_, hbecomes.sound, hitf, ?_⟩
  · simp only [dbusReqSubscribe, hdreq, hlistener, hadd, htell, hsend, Option.bind_eq_bind,
      Option.bind_some, List.append_assoc]
  · intro other hother
    rcases List.mem_append.mp hother with hother | hother
    · exact hdestination other hother
    · rw [List.mem_singleton.mp hother]
      exact ⟨d, hd, haddress', hmessage⟩

theorem unsubscribe_spec (h : Core image s) {request : Nat} {dreq : DbusReq}
    (hdreq : s.request? request = some dreq) {l : Listener} (hl : l ∈ s.listeners)
    (hlistener : s.listener? dreq.listener = some l) {event : Evt.AfbEvent}
    (hevent : event.ours = true → event.closure ∈ s.evt.events.map Evt.EvtEvent.address) :
    Ordered image s l (dbusReqUnsubscribe json image request event s) := by
  rcases h.base_of hl with ⟨lst, hlst, haddress, -, -⟩
  rcases sendOrder_spec h orderUnsubscribe dreq hl hevent with
    ⟨d, hd, haddress', message, hmessage, hsend⟩
  have hcore : Core image { s with sent := s.sent ++ [message] } :=
    h.alike ⟨rfl, rfl, rfl, rfl⟩ h.evt rfl
  rcases Evt.afbEvtRemoveWatch_some (J := J) h.evt hlst event with ⟨rc, evt, notices, hremove⟩
  rw [haddress] at hremove
  have hbecomes := (Evt.afbEvtRemoveWatch_becomes h.evt hremove).2
  rcases watch_spec json hcore hl (Evt.afbEvtRemoveWatch_alone hremove) hbecomes.sound with
    ⟨told, htell, -, hitf, hdestination⟩
  refine ⟨evt, [message] ++ told, ?_, hbecomes.sound, hitf, ?_⟩
  · simp only [dbusReqUnsubscribe, hdreq, hlistener, hsend, hremove, htell, Option.bind_eq_bind,
      Option.bind_some, List.append_assoc]
  · intro other hother
    rcases List.mem_append.mp hother with hother | hother
    · rw [List.mem_singleton.mp hother]
      exact ⟨d, hd, haddress', hmessage⟩
    · exact hdestination other hother

theorem Ordered.kept (h : Sound image s) {l : Listener} {result : Option Server}
    (hordered : Ordered image s l result) (named : Prop) : Kept image s named result := by
  rcases hordered with ⟨evt, messages, rfl, hevt, hitf, -⟩
  exact kept_evt h _ hevt hitf named

/-- Whatever the binder does, the server uses no object that is freed. -/
theorem exec_kept (h : Sound image s) {act : Action J} (hallowed : Allowed json image s act) :
    Kept image s (Named act) (exec json image s act) := by
  cases act with
  | session action =>
      have hforeign : Session.Foreign image.listenerFree
        (fun key => key ∈ s.destinations.map Destination.address)
        (Session.World.mk s.store (fun _ => 0) s.now).store action := hallowed
      exact kept_settle json h { s with now := (Session.exec ⟨s.store, fun _ => 0, s.now⟩ action).now }
        ⟨rfl, rfl, rfl, rfl⟩ rfl
        (fun hserved => hserved.alike ⟨rfl, rfl, rfl, rfl⟩ rfl hserved.idents
          fun dreq hdreq => ⟨dreq, hdreq, .refl dreq⟩)
        (Session.settles_exec h.reserved hforeign) _
  | evt deed =>
      rcases hallowed with ⟨hfresh, hforeign, hsome⟩
      rcases Option.isSome_iff_exists.mp hsome with ⟨⟨evt, notices⟩, hexec⟩
      rcases tell_deed json h hfresh hforeign hexec with ⟨htell, hevt, hitf⟩
      simp only [exec, hexec, htell, Option.bind_eq_bind, Option.bind_some]
      exact kept_evt h _ hevt hitf _
  | called incoming memory generated => exact kept_called json h hallowed
  | addref request =>
      rcases request_some hallowed with ⟨dreq, hdreq⟩
      simp only [exec, dbusReqAddref, hdreq, Option.bind_eq_bind, Option.bind_some]
      apply kept_modify h
      · exact fun _ _ => ⟨rfl, rfl, rfl, rfl⟩
      · exact fun _ => rfl
  | unref request generated => exact kept_unref json h hallowed generated _
  | change request context =>
      rcases hallowed with ⟨dreq, hdreq, hsession⟩
      simp only [exec, hdreq, Option.bind_eq_bind, Option.bind_some]
      apply kept_modify h
      · intro other hother
        rw [hdreq] at hother
        rw [← Option.some.inj hother]
        exact ⟨rfl, hsession, rfl, rfl⟩
      · exact fun _ => rfl
  | reply request type first second =>
      rcases request_some hallowed with ⟨dreq, hdreq⟩
      simp only [exec, dbusReqReply, hdreq, Option.bind_eq_bind, Option.bind_some]
      exact kept_requests h _ id (fun other hother => ⟨other, hother, .refl other⟩) _
  | subscribe request event allocated =>
      rcases hallowed with ⟨dreq, hdreq, hlistener, hevent, hfresh⟩
      rcases listener_some hlistener with ⟨l, hl, -, hfound⟩
      exact Ordered.kept h (subscribe_spec json h.core hdreq hl hfound hevent hfresh) _
  | unsubscribe request event =>
      rcases hallowed with ⟨dreq, hdreq, hlistener, hevent⟩
      rcases listener_some hlistener with ⟨l, hl, -, hfound⟩
      exact Ordered.kept h (unsubscribe_spec json h.core hdreq hl hfound hevent) _

/-! ## Runs -/

/-- The server before its first call. -/
def Server.init (maxSessionCount : Nat) (timeout : Int) (initok : Bytes) (contextCount timeBits : Nat)
    (now : Int) : Server :=
  { store := Session.ctxStoreInit maxSessionCount timeout initok contextCount timeBits
    now := now
    evt := ⟨[], [], [], 0, false⟩
    destinations := [], listeners := [], nextListener := 0, requests := [], nextRequest := 0
    sent := [], answers := [] }

/-- A step of callers that keep to what is allowed. -/
def Step (image : Image) (s : Server) (act : Action J) (s' : Server) : Prop :=
  Allowed json image s act ∧ exec json image s act = some s'

variable {maxSessionCount contextCount timeBits : Nat} {timeout now : Int} {initok : Bytes}
  {ts : List (Transition Server (Action J))}

theorem sound_init (image : Image) :
    Sound image (Server.init maxSessionCount timeout initok contextCount timeBits now) := by
  constructor
  · constructor
    · exact Evt.Store.sound_empty 0 false
    · exact List.nodup_nil
    · exact fun _ h => absurd h List.not_mem_nil
    · exact List.nodup_nil
    · exact Counted.nil
    · exact Counted.nil
    · exact fun _ h => absurd h List.not_mem_nil
  · constructor
    · exact fun _ _ => rfl
    · exact fun _ _ h => by cases h
    · exact fun _ _ h => by cases h
    · exact fun _ _ h => by cases h
  · exact fun _ _ h => absurd h List.not_mem_nil
  · exact fun _ _ _ _ h => absurd h List.not_mem_nil

theorem served_init (image : Image) :
    Served image (Server.init maxSessionCount timeout initok contextCount timeBits now) := by
  constructor
  · exact List.nodup_nil
  · exact fun _ h => absurd h List.not_mem_nil
  · exact fun _ h => absurd h List.not_mem_nil
  · exact fun _ h => absurd h List.not_mem_nil

theorem step_sound {act : Action J} (h : Sound image s) (hstep : Step json image s act s') :
    Sound image s' := by
  rcases exec_kept json h hstep.1 with ⟨_, hexec, hsound, -⟩
  cases hexec.symm.trans hstep.2
  exact hsound

theorem runs_sound (hrun : Runs (Step json image)
    (Server.init maxSessionCount timeout initok contextCount timeBits now) s ts) : Sound image s :=
  hrun.invariant (Sound image) (fun _ _ _ h hstep => step_sound json h hstep) (sound_init image)

theorem runs_served (hrun : Runs (Step json image)
    (Server.init maxSessionCount timeout initok contextCount timeBits now) s ts)
    (hnamed : ∀ t ∈ ts, Named t.action) : Sound image s ∧ Served image s := by
  refine hrun.invariant_of (fun s => Sound image s ∧ Served image s) (fun t => Named t.action) ?_
    ⟨sound_init image, served_init image⟩ hnamed
  rintro s act s' ⟨hsound, hserved⟩ hact hstep
  rcases exec_kept json hsound hstep.1 with ⟨_, hexec, hsound', hserved'⟩
  cases hexec.symm.trans hstep.2
  exact ⟨hsound', hserved' hact hserved⟩

/-- In every run, the callers have one destination each, which counts the sessions that keep a
listener for it, and so does its one event listener. -/
theorem destinations_counted (hrun : Runs (Step json image)
    (Server.init maxSessionCount timeout initok contextCount timeBits now) s ts) :
    (∀ act, Allowed json image s act → ∃ s', exec json image s act = some s') ∧
    (s.destinations.map Destination.name).Nodup ∧
    (∀ d ∈ s.destinations, 0 < d.refcount ∧
      d.refcount = (s.listeners.map Listener.destination).count d.address ∧
      ∃ lst ∈ s.evt.listeners, lst.itf = image.pushItf ∧ lst.closure = d.address ∧
        lst.refcount = d.refcount ∧ ∀ other ∈ s.evt.listeners, other.itf = image.pushItf →
          other.closure = d.address → other.address = lst.address) ∧
    (∀ l ∈ s.listeners, ∃ d ∈ s.destinations, d.address = l.destination) ∧
    ∀ client, ∀ cookie ∈ s.store.marked image.listenerFree client,
      ∃ l ∈ s.listeners, cookie = l.cookie image ∧
        ∀ other, cookie ∈ s.store.marked image.listenerFree other → other = client := by
  have h := runs_sound json hrun
  refine ⟨?_, h.core.names, ?_, ?_, ?_⟩
  · intro act hallowed
    rcases exec_kept json h hallowed with ⟨s', hexec, -, -⟩
    exact ⟨s', hexec⟩
  · intro d hd
    have hentry : d.entry ∈ s.destinations.map Destination.entry := List.mem_map_of_mem hd
    have hcount := h.core.destinations.count _ hentry
    refine ⟨h.core.destinations.positive hentry, hcount, ?_⟩
    rcases h.core.destination_iff.mp (List.mem_map_of_mem hd) with ⟨l, hl, hdestination⟩
    rcases h.core.base_of hl with ⟨lst, hlst, haddress, hitf, hclosure⟩
    have hsame := h.core.refcount_eq hlst hitf
    rw [hclosure, hdestination] at hsame
    refine ⟨lst, hlst, hitf, hclosure.trans hdestination, hsame.trans hcount.symm, ?_⟩
    intro other hother hitf' hclosure'
    have hbase := h.core.closure_inj (Evt.mem_ofItf.mpr ⟨List.mem_map_of_mem hother, hitf'⟩)
      (Evt.mem_ofItf.mpr ⟨List.mem_map_of_mem hlst, hitf⟩)
      (hclosure'.trans (hclosure.trans hdestination).symm)
    exact congrArg Evt.Base.address hbase
  · intro l hl
    exact List.mem_map.mp (h.core.destination_iff.mpr ⟨l, hl, rfl⟩)
  · intro client cookie hcookie
    rcases h.held client cookie hcookie with ⟨l, hl, hsame⟩
    exact ⟨l, hl, hsame, fun other hother => h.once other client cookie cookie hother hcookie rfl⟩

def sampleImage : Image := ⟨1, 2⟩

def sampleJson : JsonC Unit := ⟨fun _ => nullString, fun _ => none⟩

def sampleInit : Server := Server.init 4 3600 [] 1 64 0

/-- What the allocator gives to the first call. -/
def sampleMemory : Memory := ⟨true, true, some 100, true, some 200, true⟩

def sampleCall : Action Unit := .called ⟨[58, 49], 7, some (nullText, [97], 0)⟩ sampleMemory [98]

def sampleServed : Server := (exec sampleJson sampleImage sampleInit sampleCall).getD sampleInit

theorem sample_called : Step sampleJson sampleImage sampleInit sampleCall sampleServed := by
  refine ⟨?_, rfl⟩
  intro request uuid flags harguments context s' hconnect
  cases harguments
  have hrun : connect sampleJson sampleImage sampleMemory [98] [97] sampleInit =
      some ((connect sampleJson sampleImage sampleMemory [98] [97] sampleInit).getD
        (none, sampleInit)) := rfl
  cases hrun.symm.trans hconnect
  constructor
  · intro a ha
    cases ha
    refine ⟨List.not_mem_nil, ?_⟩
    intro client c hc cookie hcookie
    have hmem : Function.update (fun _ => none) 0
        (some (Session.freshCtx [98] (some [97]) 3600 0 sampleInit.store)) client = some c := hc
    rw [Function.update_apply] at hmem
    split at hmem
    · cases hmem
      exact absurd hcookie List.not_mem_nil
    · cases hmem
  · exact fun a _ => List.not_mem_nil

/-- The session of the first call is closed. -/
def sampleClosed : Server :=
  (exec sampleJson sampleImage sampleServed (.session (.close 0))).getD sampleServed

theorem sample_closed : Step sampleJson sampleImage sampleServed (.session (.close 0)) sampleClosed :=
  ⟨trivial, rfl⟩

theorem destinations_counted_called :
    (∀ d ∈ sampleServed.destinations, 0 < d.refcount ∧
      d.refcount = (sampleServed.listeners.map Listener.destination).count d.address ∧
      ∃ lst ∈ sampleServed.evt.listeners, lst.itf = sampleImage.pushItf ∧ lst.closure = d.address ∧
        lst.refcount = d.refcount ∧ ∀ other ∈ sampleServed.evt.listeners,
          other.itf = sampleImage.pushItf → other.closure = d.address →
            other.address = lst.address) ∧
    sampleServed.destinations = [⟨100, 1, [58, 49]⟩] ∧ sampleClosed.destinations = [] :=
  ⟨(destinations_counted sampleJson (Runs.single sample_called)).2.2.1, rfl, rfl⟩

/-! ## Subscriptions and sessions -/

/-- An order for a request whose session is open goes to its sender. -/
theorem DbusReq.Attached.ordered {dreq : DbusReq} {client : Nat}
    (hattached : dreq.Attached image s client) (hs : Sound image s) {l : Listener}
    (hl : s.listener? dreq.listener = some l)
    {result : Option Server} (hordered : Ordered image s l result) :
    ∃ s' messages, result = some s' ∧ s'.sent = s.sent ++ messages ∧
      ∀ message ∈ messages, message.destination = dreq.sender := by
  rcases hordered with ⟨evt, messages, rfl, -, -, hdestination⟩
  refine ⟨_, messages, rfl, rfl, ?_⟩
  intro message hmessage
  rcases hattached with ⟨l', hl', hident, -, hname⟩
  have hsame : l = l' := by
    have hfound : s.listener? l'.ident = some l' := Keyed.search_mem hs.core.idents hl'
    rw [hident, hl] at hfound
    exact Option.some.inj hfound
  rcases hdestination message hmessage with ⟨d, hd, haddress, hmessage'⟩
  rw [hmessage', hname d hd (hsame ▸ haddress)]

/-- When the calls give a uuid, the listeners are those of the open sessions.  A request may
subscribe, and unsubscribe, exactly while its session is open: then its sender is told, and
after that its listener is a freed one. -/
theorem subscription_safe_iff (hrun : Runs (Step json image)
    (Server.init maxSessionCount timeout initok contextCount timeBits now) s ts)
    (hnamed : ∀ t ∈ ts, Named t.action) :
    (∀ l ∈ s.listeners, ∃ client, s.Open client ∧
      l.cookie image ∈ s.store.marked image.listenerFree client) ∧
    ∀ dreq ∈ s.requests, ∃ client, dreq.context.session = some client ∧
      ∀ event allocated act,
        (event.ours = true → event.closure ∈ s.evt.events.map Evt.EvtEvent.address) →
        (∀ a, allocated = some a → a ∉ s.evt.watches.map Evt.Watch.address) →
        act = .subscribe dreq.ident event allocated ∨ act = .unsubscribe dreq.ident event →
        (s.Open client → ∃ s' messages, exec json image s act = some s' ∧
          s'.sent = s.sent ++ messages ∧ ∀ message ∈ messages, message.destination = dreq.sender) ∧
        (¬ s.Open client → exec json image s act = none) := by
  rcases runs_served json hrun hnamed with ⟨hsound, hserved⟩
  refine ⟨hserved.listeners, ?_⟩
  intro dreq hdreq
  rcases hserved.requests dreq hdreq with ⟨client, hsession, -, -, hattached, hfreed⟩
  refine ⟨client, hsession, ?_⟩
  intro event allocated act hevent hfresh hact
  have hfound : s.request? dreq.ident = some dreq := Keyed.search_mem hserved.idents hdreq
  constructor
  · intro hopen
    rcases hattached hopen with ⟨l, hl, hident, -, -⟩
    have hlistener : s.listener? dreq.listener = some l := hident ▸ Keyed.search_mem hsound.core.idents hl
    apply (hattached hopen).ordered hsound hlistener
    rcases hact with rfl | rfl
    · exact subscribe_spec json hsound.core hfound hl hlistener hevent hfresh
    · exact unsubscribe_spec json hsound.core hfound hl hlistener hevent
  · intro hclosed
    have hnone : s.listener? dreq.listener = none := Keyed.search_none.mpr (hfreed hclosed)
    rcases hact with rfl | rfl
    · simp only [exec, dbusReqSubscribe, hfound, hnone, Option.bind_eq_bind, Option.bind_some,
        Option.bind_none]
    · simp only [exec, dbusReqUnsubscribe, hfound, hnone, Option.bind_eq_bind, Option.bind_some,
        Option.bind_none]

/-- A request that outlives its session subscribes with a listener that is freed. -/
theorem subscription_safe_iff_closed :
    ∃ dreq ∈ sampleClosed.requests,
      exec sampleJson sampleImage sampleClosed (.subscribe dreq.ident ⟨false, 0⟩ none) = none := by
  have hrun := Runs.snoc (Runs.single sample_called) sample_closed
  have hnamed : ∀ t ∈ [⟨sampleInit, sampleCall, sampleServed⟩] ++
      [(⟨sampleServed, .session (.close 0), sampleClosed⟩ : Transition Server (Action Unit))],
      Named t.action := by
    intro t ht
    rcases List.mem_cons.mp ht with rfl | ht
    · rintro request uuid flags ⟨⟩
      exact List.cons_ne_nil _ _
    · rw [List.mem_singleton.mp ht]
      trivial
  have hsafe := (subscription_safe_iff sampleJson hrun hnamed).2
  have hdreq : ∃ dreq, dreq ∈ sampleClosed.requests ∧ dreq.context.session = some 0 :=
    ⟨_, List.mem_cons_self, rfl⟩
  rcases hdreq with ⟨dreq, hdreq, hsession⟩
  rcases hsafe dreq hdreq with ⟨client, hsession', hiff⟩
  cases hsession.symm.trans hsession'
  refine ⟨dreq, hdreq, (hiff ⟨false, 0⟩ none _ (fun h => by cases h) (fun _ h => by cases h)
    (.inl rfl)).2 ?_⟩
  rintro ⟨c, hc, hopen⟩
  have hblank : (sampleClosed.store.mem 0).map Session.ClientCtx.uuid = some [] := rfl
  rw [hc] at hblank
  exact hopen (Option.some.inj hblank)

end AfbBinder.ApiDbus
