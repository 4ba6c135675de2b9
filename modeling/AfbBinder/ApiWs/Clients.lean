import AfbBinder.ApiWs.Server
import AfbBinder.Evt.Owners
import AfbBinder.Lib.Run
import AfbBinder.Session.Context
import AfbBinder.Session.Lifetime

/-!
# The clients of a binder link

The server part of `afb-api-ws.c`, as far as it allocates and frees.  A client is referred to
by its websocket, until this one hangs up, and by its requests; it has an event listener of its
own.  Clients have the addresses that the allocator gives, a request is identified by its
allocation.  A function gives `none` when it would use an object that is not allocated.
-/

namespace AfbBinder.ApiWs

open Lib

/-- `struct api_ws_client`, less its websocket. -/
structure ApiWsClient where
  address : Nat
  fd : Int
  refcount : Int
  listener : Nat
deriving DecidableEq, Repr

/-- `struct api_ws_server_req` -/
structure ApiWsServerReq where
  ident : Nat
  client : Nat
  context : Session.Context
  call : ServerCall
  refcount : Int
deriving DecidableEq, Repr

/-- The server, with the sessions and the events of the binder.  The clients of `links` have a
websocket that has not hung up; `sent` is what the websockets took. -/
structure Service where
  store : Session.Store
  now : Int
  evt : Evt.Store
  clients : List ApiWsClient
  links : List Nat
  requests : List ApiWsServerReq
  nextRequest : Nat
  sent : List (Nat × Writebuf)

variable {J : Type} (json : JsonC J) (itf : Evt.EvtItf)

namespace Service

def client? (s : Service) (address : Nat) : Option ApiWsClient :=
  Keyed.search ApiWsClient.address s.clients address

def request? (s : Service) (ident : Nat) : Option ApiWsServerReq :=
  Keyed.search ApiWsServerReq.ident s.requests ident

/-- `afb_ws_binary_v` on the websocket of a client, when the message is written. -/
def send (client : Nat) (wb : Option Writebuf) (s : Service) : Service :=
  match wb with
  | none => s
  | some wb => if client ∈ s.links then { s with sent := s.sent ++ [(client, wb)] } else s

end Service

/-- `api_ws_server_event_add`, `_remove`, `_push` and `_broadcast` -/
def noticeWritebuf : Evt.Notice J → Option Writebuf
  | .add _ event eventid => apiWsServerEventAdd event eventid.toUInt32
  | .remove _ event eventid => apiWsServerEventRemove event eventid.toUInt32
  | .push _ event eventid object => apiWsServerEventPush json event eventid.toUInt32 object
  | .broadcast _ event object => apiWsServerEventBroadcast json event object

/-- The calls of the interfaces of the listeners, which were those of `evt`.  The closure of a
listener of the interface `api_ws_server_evt_itf` is a client. -/
def tellClients (evt : Evt.Store) : List (Evt.Notice J) → Service → Option Service
  | [], s => some s
  | notice :: rest, s => do
      let listener ← evt.listener? notice.listener
      if listener.itf = itf then
        let client ← s.client? listener.closure
        tellClients evt rest (s.send client.address (noticeWritebuf json notice))
      else tellClients evt rest s

/-- `afb_evt_listener_unref` on the listener of a client. -/
def listenerUnref (listener : Nat) (s : Service) : Option Service := do
  let (evt, notices) ← Evt.afbEvtListenerUnref listener s.evt
  let s' ← tellClients json itf s.evt notices s
  some { s' with evt := evt }

/-- `api_ws_server_client_unref` -/
def apiWsServerClientUnref (address : Nat) (s : Service) : Option Service := do
  let client ← s.client? address
  if client.refcount - 1 ≠ 0 then
    some { s with
      clients := Keyed.modify ApiWsClient.address address
        (fun client => { client with refcount := client.refcount - 1 }) s.clients }
  else
    let s ← listenerUnref json itf client.listener s
    some { s with clients := s.clients.filter fun other => other.address ≠ address }

/-- What the allocator and the sockets give to `api_ws_server_accept`. -/
structure Accepting where
  client : Option Nat
  evtListener : Option Nat
  fd : Int
  ws : Bool

/-- `api_ws_server_accept` -/
def apiWsServerAccept (accepting : Accepting) (s : Service) : Option Service :=
  match accepting.client with
  | none => some s
  | some address =>
      match Evt.afbEvtListenerCreate itf address accepting.evtListener s.evt with
      | (none, evt) => some { s with evt }
      | (some listener, evt) =>
          if 0 ≤ accepting.fd ∧ accepting.ws then
            some { s with
              evt
              clients := ⟨address, accepting.fd, 1, listener⟩ :: s.clients
              links := address :: s.links }
          else listenerUnref json itf listener { s with evt }

/-- What the allocator gives to `api_ws_server_called`. -/
structure Calling where
  request : Bool
  session : Bool

/-- `api_ws_server_on_binary` with `api_ws_server_called`, up to the call of the API. -/
def apiWsServerOnBinary (address : Nat) (rb : Readbuf) (calling : Calling) (generated : Bytes)
    (s : Service) : Option Service := do
  let _ ← s.client? address
  let s := { s with
    clients := Keyed.modify ApiWsClient.address address
      (fun client => { client with refcount := client.refcount + 1 }) s.clients }
  if !calling.request then apiWsServerClientUnref json itf address s
  else
    match apiWsServerCalled rb with
    | none => apiWsServerClientUnref json itf address s
    | some (call, _) =>
        match Session.afbContextConnect calling.session generated (some call.uuid) none s.now
            s.store with
        | (none, store) => apiWsServerClientUnref json itf address { s with store }
        | (some context, store) =>
            some { s with
              store
              requests := ⟨s.nextRequest, address, context, call, 1⟩ :: s.requests
              nextRequest := s.nextRequest + 1 }

/-- `api_ws_server_on_hangup` -/
def apiWsServerOnHangup (address : Nat) (s : Service) : Option Service := do
  let _ ← s.client? address
  apiWsServerClientUnref json itf address { s with
    clients := Keyed.modify ApiWsClient.address address
      (fun client => { client with fd := if 0 ≤ client.fd then -1 else client.fd }) s.clients
    links := s.links.filter fun other => other ≠ address }

/-! ## Requests -/

/-- `api_ws_server_req_addref_cb` -/
def apiWsServerReqAddref (ident : Nat) (s : Service) : Option Service := do
  let _ ← s.request? ident
  some { s with
    requests := Keyed.modify ApiWsServerReq.ident ident
      (fun wreq => { wreq with refcount := wreq.refcount + 1 }) s.requests }

/-- `api_ws_server_req_unref`, with the token that may be made. -/
def apiWsServerReqUnref (ident : Nat) (generated : Bytes) (s : Service) : Option Service := do
  let wreq ← s.request? ident
  if wreq.refcount - 1 ≠ 0 then
    some { s with
      requests := Keyed.modify ApiWsServerReq.ident ident
        (fun wreq => { wreq with refcount := wreq.refcount - 1 }) s.requests }
  else
    apiWsServerClientUnref json itf wreq.client { s with
      store := (Session.afbContextDisconnect generated s.now wreq.context s.store).2
      requests := s.requests.filter fun other => other.ident ≠ ident }

/-- What the replies have in common: a message for the client of the request. -/
def reqWrite (ident : Nat) (write : ServerCall → Option Writebuf) (s : Service) :
    Option Service := do
  let wreq ← s.request? ident
  let client ← s.client? wreq.client
  some (s.send client.address (write wreq.call))

/-- `api_ws_server_req_success_cb` -/
def reqSuccess (ident : Nat) (object : Option J) (info : Option CString) :
    Service → Option Service :=
  reqWrite ident fun call => apiWsServerReqSuccess json call.msgid call.flags object info

/-- `api_ws_server_req_fail_cb` -/
def reqFail (ident : Nat) (status : CString) (info : Option CString) : Service → Option Service :=
  reqWrite ident fun call => apiWsServerReqFail call.msgid call.flags status info

/-- `api_ws_server_req_send_cb` -/
def reqSend (ident : Nat) (buffer : Bytes) : Service → Option Service :=
  reqWrite ident fun call => apiWsServerReqSend call.msgid call.flags buffer

/-- `api_ws_server_req_subscribe_cb`, with the address of a new watch. -/
def reqSubscribe (ident : Nat) (event : Evt.AfbEvent) (allocated : Option Nat) (s : Service) :
    Option Service := do
  let wreq ← s.request? ident
  let client ← s.client? wreq.client
  let (rc, evt, notices) ← Evt.afbEvtAddWatch client.listener event allocated s.evt
  let s' ← tellClients json itf s.evt notices s
  if rc < 0 then some { s' with evt := evt }
  else
    let e ← evt.event? event.closure
    some (Service.send client.address
      (apiWsServerReqSubscribe wreq.call.msgid e.id.toUInt32 e.name) { s' with evt := evt })

/-- `api_ws_server_req_unsubscribe_cb`; the name of an event of another interface is NULL. -/
def reqUnsubscribe (ident : Nat) (event : Evt.AfbEvent) (s : Service) : Option Service := do
  let wreq ← s.request? ident
  let client ← s.client? wreq.client
  if event.ours then
    let e ← s.evt.event? event.closure
    let s := s.send client.address (apiWsServerReqUnsubscribe wreq.call.msgid e.id.toUInt32 e.name)
    let (_, evt, notices) ← Evt.afbEvtRemoveWatch client.listener event s.evt
    let s' ← tellClients json itf s.evt notices s
    some { s' with evt := evt }
  else none

/-! ## What is kept -/

variable {itf} {s s' : Service} {holders holders' : List Nat} {address : Nat}

def ApiWsClient.entry (client : ApiWsClient) : Nat × Int := (client.address, client.refcount)

/-- The clients and their event listeners, `holders` being what refers to the clients. -/
structure Table (itf : Evt.EvtItf) (holders : List Nat) (s : Service) : Prop where
  evt : s.evt.Sound
  clients : Counted (s.clients.map ApiWsClient.entry) holders
  watching : Counted ((s.evt.ofItf itf).map Evt.Base.entry) (s.clients.map ApiWsClient.listener)
  paired : ∀ base ∈ s.evt.ofItf itf, ∀ c ∈ s.clients,
    (c.listener = base.address ↔ c.address = base.closure)

theorem client_addresses (clients : List ApiWsClient) :
    (clients.map ApiWsClient.entry).map Prod.fst = clients.map ApiWsClient.address := by
  rw [List.map_map]
  rfl

theorem Table.addresses (h : Table itf holders s) : (s.clients.map ApiWsClient.address).Nodup := by
  rw [← client_addresses]
  exact h.clients.distinct

theorem Table.client_some (h : Table itf holders s) (hin : address ∈ holders) :
    ∃ c ∈ s.clients, c.address = address ∧ s.client? address = some c := by
  have hthere := (h.clients.held address).mp hin
  rw [client_addresses] at hthere
  rcases List.mem_map.mp hthere with ⟨c, hc, rfl⟩
  exact ⟨c, hc, rfl, Keyed.search_mem h.addresses hc⟩

theorem Table.base_iff (h : Table itf holders s) {listener : Nat} :
    (∃ base ∈ s.evt.ofItf itf, base.address = listener) ↔ ∃ c ∈ s.clients, c.listener = listener := by
  have hheld := h.watching.held listener
  rw [Evt.entry_addresses, List.mem_map, List.mem_map] at hheld
  exact hheld.symm

theorem Table.closure (h : Table itf holders s) {base : Evt.Base} (hbase : base ∈ s.evt.ofItf itf) :
    base.closure ∈ s.clients.map ApiWsClient.address := by
  rcases h.base_iff.mp ⟨base, hbase, rfl⟩ with ⟨c, hc, hlistener⟩
  rw [← (h.paired base hbase c hc).mp hlistener]
  exact List.mem_map_of_mem hc

theorem send_eq (client : Nat) (wb : Option Writebuf) (s : Service) :
    ∃ sent, s.send client wb = { s with sent } := by
  unfold Service.send
  split
  · exact ⟨s.sent, rfl⟩
  · split
    · exact ⟨_, rfl⟩
    · exact ⟨s.sent, rfl⟩

theorem tellClients_eq {evt : Evt.Store} {notices : List (Evt.Notice J)}
    (htold : ∀ notice ∈ notices, notice.listener ∈ evt.bases.map Evt.Base.address)
    (hclosure : ∀ base ∈ evt.ofItf itf, base.closure ∈ s.clients.map ApiWsClient.address) :
    ∃ sent, tellClients json itf evt notices s = some { s with sent } := by
  induction notices generalizing s with
  | nil => exact ⟨s.sent, rfl⟩
  | cons notice rest ih =>
      have hrest := fun other hother => htold other (List.mem_cons_of_mem notice hother)
      have hlive := htold notice List.mem_cons_self
      rw [Evt.Store.bases_addresses] at hlive
      rcases Option.isSome_iff_exists.mp (Keyed.search_isSome.mpr hlive) with ⟨lst, hlst⟩
      have hlst' : evt.listener? notice.listener = some lst := hlst
      rw [tellClients, hlst', Option.bind_eq_bind, Option.bind_some]
      by_cases hours : lst.itf = itf
      · have hbase : lst.base ∈ evt.ofItf itf :=
          Evt.mem_ofItf.mpr ⟨List.mem_map_of_mem (Keyed.search_some hlst).1, hours⟩
        rcases Option.isSome_iff_exists.mp (Keyed.search_isSome.mpr (hclosure lst.base hbase)) with
          ⟨client, hclient⟩
        have hclient' : s.client? lst.closure = some client := hclient
        rcases send_eq client.address (noticeWritebuf json notice) s with ⟨sent, hsent⟩
        rw [if_pos hours, hclient', Option.bind_eq_bind, Option.bind_some, hsent]
        exact @ih { s with sent } hrest hclosure
      · rw [if_neg hours]
        exact ih hrest hclosure

/-- An event listener has one holder less. -/
theorem listenerUnref_spec {listener : Nat} {listeners listeners' : List Nat} (hevt : s.evt.Sound)
    (hleaves : Counted.Leaves listeners listeners' listener)
    (hwatching : Counted ((s.evt.ofItf itf).map Evt.Base.entry) listeners)
    (htell : ∀ notices : List (Evt.Notice J),
      (∀ notice ∈ notices, notice.listener ∈ s.evt.bases.map Evt.Base.address ∧
        notice ∈ (Evt.farewell s.evt listener : List (Evt.Notice J))) →
      ∃ sent, tellClients json itf s.evt notices s = some { s with sent }) :
    ∃ evt sent, listenerUnref json itf listener s = some { s with evt, sent } ∧ evt.Sound ∧
      Counted ((evt.ofItf itf).map Evt.Base.entry) listeners' ∧
      ∀ b' ∈ evt.ofItf itf, ∃ b ∈ s.evt.ofItf itf,
        b'.address = b.address ∧ b'.closure = b.closure := by
  rcases Evt.afbEvtListenerUnref_counted (J := J) hevt hleaves hwatching with
    ⟨evt, notices, hunref, hsound, hcounted, hview, htold⟩
  rcases htell notices htold with ⟨sent, hsent⟩
  refine ⟨evt, sent, ?_, hsound, hcounted, hview⟩
  simp only [listenerUnref, hunref, hsent, Option.bind_eq_bind, Option.bind_some]

theorem Table.relist (h : Table itf holders s) {change : ApiWsClient → ApiWsClient}
    (hchange : ∀ c, (change c).address = c.address ∧ (change c).listener = c.listener)
    (hcounted : Counted ((Keyed.modify ApiWsClient.address address change s.clients).map
      ApiWsClient.entry) holders') :
    Table itf holders' { s with clients := Keyed.modify ApiWsClient.address address change s.clients } := by
  constructor
  · exact h.evt
  · exact hcounted
  · have hsame : (Keyed.modify ApiWsClient.address address change s.clients).map ApiWsClient.listener =
        s.clients.map ApiWsClient.listener := Keyed.map_modify fun c => (hchange c).2
    show Counted _ ((Keyed.modify ApiWsClient.address address change s.clients).map ApiWsClient.listener)
    rw [hsame]
    exact h.watching
  · intro base hbase c' hc'
    rcases Keyed.mem_modify.mp hc' with ⟨c, hc, -, rfl⟩ | ⟨hc, -⟩
    · rw [(hchange c).1, (hchange c).2]
      exact h.paired base hbase c hc
    · exact h.paired base hbase c' hc

theorem adjust_clients (address : Nat) (n : Int) (clients : List ApiWsClient) :
    (Keyed.modify ApiWsClient.address address
        (fun client => { client with refcount := client.refcount + n }) clients).map ApiWsClient.entry =
      Counted.adjust address n (clients.map ApiWsClient.entry) := by
  apply Counted.adjust_modify
  · exact fun _ => rfl
  · exact fun _ => rfl

/-- `api_ws_server_client_unref`: the last reference takes the client and its listener away. -/
theorem clientUnref_spec (h : Table itf holders s) (hleaves : Counted.Leaves holders holders' address) :
    ∃ clients evt sent,
      apiWsServerClientUnref json itf address s = some { s with clients, evt, sent } ∧
      Table itf holders' { s with clients, evt, sent } := by
  rcases h.client_some hleaves.holds with ⟨c, hc, rfl, hfound⟩
  have hentry : (c.address, c.refcount) ∈ s.clients.map ApiWsClient.entry := List.mem_map_of_mem hc
  by_cases hmore : c.refcount - 1 ≠ 0
  · refine ⟨Keyed.modify ApiWsClient.address c.address
      (fun client => { client with refcount := client.refcount - 1 }) s.clients, s.evt, s.sent, ?_, ?_⟩
    · simp only [apiWsServerClientUnref, hfound, Option.bind_eq_bind, Option.bind_some, if_pos hmore]
    · apply h.relist
      · exact fun _ => ⟨rfl, rfl⟩
      · have hadjust := adjust_clients c.address (-1) s.clients
        simp only [← Int.sub_eq_add_neg] at hadjust
        rw [hadjust]
        exact h.clients.unref hleaves hentry hmore
  · have hlistener := Counted.leaves_filter ApiWsClient.listener h.addresses hc
    rcases listenerUnref_spec json h.evt hlistener h.watching (fun notices htold =>
      tellClients_eq json (fun notice hnotice => (htold notice hnotice).1)
        fun base hbase => h.closure hbase) with ⟨evt, sent, hunref, hevt, hwatching, hview⟩
    refine ⟨s.clients.filter fun other => other.address ≠ c.address, evt, sent, ?_, ?_⟩
    · simp only [apiWsServerClientUnref, hfound, Option.bind_eq_bind, Option.bind_some, if_neg hmore,
        hunref]
    · constructor
      · exact hevt
      · have hfilter : ((s.clients.filter fun other => other.address ≠ c.address).map
            ApiWsClient.entry) = (s.clients.map ApiWsClient.entry).filter fun entry =>
              entry.1 ≠ c.address := by
          rw [List.filter_map]
          rfl
        show Counted ((s.clients.filter fun other => other.address ≠ c.address).map _) _
        rw [hfilter]
        exact h.clients.last hleaves hentry (by omega)
      · exact hwatching
      · intro b' hb' other hother
        rcases hview b' hb' with ⟨b, hb, haddress, hclosure⟩
        rw [haddress, hclosure]
        exact h.paired b hb other (List.mem_filter.mp hother).1

end AfbBinder.ApiWs
