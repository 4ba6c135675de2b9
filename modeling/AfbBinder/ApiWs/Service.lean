import AfbBinder.ApiWs.Clients
import Mathlib.Data.List.Nodup

/-!
# The server of a binder link

The clients of the server in every run: what refers to them is their websocket and their
requests, so that a request is answered, or subscribed, also after its client has hung up.
-/

namespace AfbBinder.ApiWs

open Lib

variable {J : Type} (json : JsonC J) {itf : Evt.EvtItf} {s s' : Service} {holders holders' : List Nat}
  {address : Nat}

/-! ## The server -/

/-- The websockets that are up and the requests refer to the clients. -/
structure Service.Sound (itf : Evt.EvtItf) (s : Service) : Prop where
  table : Table itf (s.links ++ s.requests.map ApiWsServerReq.client) s
  links : s.links.Nodup
  idents : (s.requests.map ApiWsServerReq.ident).Nodup
  bounded : ∀ wreq ∈ s.requests, wreq.ident < s.nextRequest

/-- A step ends, and keeps what holds. -/
def Done (itf : Evt.EvtItf) (result : Option Service) : Prop :=
  ∃ s', result = some s' ∧ s'.Sound itf

/-- The sessions and the messages are not part of what is kept. -/
theorem Table.withStore (h : Table itf holders s) (store : Session.Store) :
    Table itf holders { s with store } := ⟨h.evt, h.clients, h.watching, h.paired⟩

theorem Table.withRequests (h : Table itf holders s) (requests : List ApiWsServerReq)
    (nextRequest : Nat) (links : List Nat) :
    Table itf holders { s with requests, nextRequest, links } :=
  ⟨h.evt, h.clients, h.watching, h.paired⟩

theorem Table.withEvt (h : Table itf holders s) {evt : Evt.Store} (sent : List (Nat × Writebuf))
    (hevt : evt.Sound) (hitf : evt.ofItf itf = s.evt.ofItf itf) :
    Table itf holders { s with evt, sent } := by
  constructor
  · exact hevt
  · exact h.clients
  · show Counted ((evt.ofItf itf).map Evt.Base.entry) _
    rw [hitf]
    exact h.watching
  · show ∀ base ∈ evt.ofItf itf, _
    rw [hitf]
    exact h.paired

theorem Service.Sound.withEvt (h : s.Sound itf) {evt : Evt.Store} (sent : List (Nat × Writebuf))
    (hevt : evt.Sound) (hitf : evt.ofItf itf = s.evt.ofItf itf) :
    Service.Sound itf { s with evt, sent } :=
  ⟨h.table.withEvt sent hevt hitf, h.links, h.idents, h.bounded⟩

theorem Service.Sound.linked (h : s.Sound itf) (hin : address ∈ s.links) :
    ∃ c ∈ s.clients, c.address = address ∧ s.client? address = some c :=
  h.table.client_some (List.mem_append_left _ hin)

/-! ## A new client -/

/-- The events with a new listener, which is for the client at `address`. -/
def withListener (itf : Evt.EvtItf) (a address : Nat) (evt : Evt.Store) : Evt.Store :=
  { evt with listeners := ⟨a, itf, address, [], 1⟩ :: evt.listeners }

theorem withListener_ofItf (itf : Evt.EvtItf) (a address : Nat) (evt : Evt.Store) :
    (withListener itf a address evt).ofItf itf = ⟨a, itf, address, 1⟩ :: evt.ofItf itf :=
  List.filter_cons_of_pos (decide_eq_true rfl)

theorem farewell_new {evt : Evt.Store} (hevt : evt.Sound) {a : Nat}
    (hunused : a ∉ evt.bases.map Evt.Base.address) (itf : Evt.EvtItf) (address : Nat) :
    (Evt.farewell (withListener itf a address evt) a : List (Evt.Notice J)) = [] := by
  have hnone : (evt.watches.filter fun watch => watch.listener = a) = [] := by
    rw [List.filter_eq_nil_iff]
    intro watch hwatch hsame
    rcases (hevt.live watch hwatch).2 with ⟨itf, hroster, -⟩
    rcases List.mem_map.mp hroster with ⟨old, hold, heq⟩
    have haddress : old.address = a := by
      rw [← of_decide_eq_true hsame]
      exact congrArg Prod.fst heq
    rw [Evt.Store.bases_addresses] at hunused
    exact hunused (haddress ▸ List.mem_map_of_mem hold)
  rw [Evt.farewell, withListener, hnone]
  rfl

theorem base_ne {a : Nat} (hunused : a ∉ s.evt.bases.map Evt.Base.address) {base : Evt.Base}
    (hbase : base ∈ s.evt.ofItf itf) : base.address ≠ a := by
  rintro rfl
  exact hunused (List.mem_map_of_mem (Evt.mem_ofItf.mp hbase).1)

theorem Table.watching_new (h : Table itf holders s) {a : Nat}
    (hunused : a ∉ s.evt.bases.map Evt.Base.address) (address : Nat) :
    Counted (((withListener itf a address s.evt).ofItf itf).map Evt.Base.entry)
      (a :: s.clients.map ApiWsClient.listener) := by
  rw [withListener_ofItf]
  apply h.watching.create
  rw [Evt.entry_addresses]
  intro hin
  rcases List.mem_map.mp hin with ⟨base, hbase, hsame⟩
  exact base_ne hunused hbase hsame

/-- The websocket of a new client refers to it. -/
theorem Table.accepted (h : Table itf holders s) {a : Nat}
    (hevt : (withListener itf a address s.evt).Sound)
    (hunused : a ∉ s.evt.bases.map Evt.Base.address)
    (hnew : address ∉ s.clients.map ApiWsClient.address) (fd : Int) (links : List Nat) :
    Table itf (address :: holders) { s with
      evt := withListener itf a address s.evt
      clients := ⟨address, fd, 1, a⟩ :: s.clients
      links } := by
  constructor
  · exact hevt
  · apply h.clients.create
    rw [client_addresses]
    exact hnew
  · exact h.watching_new hunused address
  · show ∀ base ∈ (withListener itf a address s.evt).ofItf itf, _
    rw [withListener_ofItf]
    intro base hbase c hc
    rcases List.mem_cons.mp hbase with rfl | hold
    · rcases List.mem_cons.mp hc with rfl | hc
      · exact iff_of_true rfl rfl
      · -- the other clients have other listeners
        rcases h.base_iff.mpr ⟨c, hc, rfl⟩ with ⟨base, hbase, hlistener⟩
        apply iff_of_false
        · intro heq
          exact base_ne hunused hbase (hlistener.trans heq)
        · intro heq
          have hsame : c.address = address := heq
          exact hnew (hsame ▸ List.mem_map_of_mem hc)
    · rcases List.mem_cons.mp hc with rfl | hc
      · apply iff_of_false
        · intro heq
          exact base_ne hunused hold heq.symm
        · intro heq
          have hsame : address = base.closure := heq
          exact hnew (hsame ▸ h.closure hold)
      · exact h.paired base hold c hc

/-- The listener of a client that gets no websocket is given back. -/
theorem Table.refused (h : Table itf holders s) {a : Nat}
    (hevt : (withListener itf a address s.evt).Sound)
    (hunused : a ∉ s.evt.bases.map Evt.Base.address) :
    ∃ evt sent, listenerUnref json itf a { s with evt := withListener itf a address s.evt } =
        some { s with evt, sent } ∧ Table itf holders { s with evt, sent } := by
  have htell : ∀ notices : List (Evt.Notice J),
      (∀ notice ∈ notices,
        notice.listener ∈ (withListener itf a address s.evt).bases.map Evt.Base.address ∧
        notice ∈ (Evt.farewell (withListener itf a address s.evt) a : List (Evt.Notice J))) →
      ∃ sent, tellClients json itf (withListener itf a address s.evt) notices
        { s with evt := withListener itf a address s.evt } =
        some { s with evt := withListener itf a address s.evt, sent } := by
    intro notices htold
    have hnil : notices = [] := by
      apply List.eq_nil_iff_forall_not_mem.mpr
      intro notice hnotice
      have hin := (htold notice hnotice).2
      rw [farewell_new h.evt hunused] at hin
      exact absurd hin List.not_mem_nil
    rw [hnil]
    exact ⟨s.sent, rfl⟩
  have hunref := @listenerUnref_spec J json itf { s with evt := withListener itf a address s.evt } a _ _
    hevt (Counted.Leaves.head a (s.clients.map ApiWsClient.listener)) (h.watching_new hunused address)
    htell
  rcases hunref with ⟨evt, sent, hrun, hevt', hwatching, hview⟩
  refine ⟨evt, sent, hrun, hevt', h.clients, hwatching, ?_⟩
  intro b' hb' c hc
  rcases hview b' hb' with ⟨b, hb, hsame, hclosure⟩
  rw [withListener_ofItf] at hb
  rw [hsame, hclosure]
  rcases List.mem_cons.mp hb with rfl | hold
  · -- the listener is not there any more
    have haddresses := (hwatching.held b'.address).mpr
    rw [Evt.entry_addresses] at haddresses
    rcases List.mem_map.mp (haddresses (List.mem_map_of_mem hb')) with ⟨c', hc', hlistener⟩
    rcases h.base_iff.mpr ⟨c', hc', rfl⟩ with ⟨base, hbase, haddress⟩
    exact absurd (haddress.trans (hlistener.trans hsame)) (base_ne hunused hbase)
  · exact h.paired b hold c hc

theorem accept_done (h : s.Sound itf) {accepting : Accepting}
    (hclient : ∀ a, accepting.client = some a → a ∉ s.clients.map ApiWsClient.address)
    (hevtListener : ∀ a, accepting.evtListener = some a → a ∉ s.evt.bases.map Evt.Base.address) :
    Done itf (apiWsServerAccept json itf accepting s) := by
  cases haddress : accepting.client with
  | none =>
      simp only [apiWsServerAccept, haddress]
      exact ⟨s, rfl, h⟩
  | some address =>
      simp only [apiWsServerAccept, haddress]
      have hnew := hclient address haddress
      rcases hmake : Evt.afbEvtListenerCreate itf address accepting.evtListener s.evt with ⟨result, evt⟩
      rcases Evt.afbEvtListenerCreate_cases h.table.evt hevtListener hmake with ⟨hevt, hcases⟩
      rcases hcases with ⟨base, hmem, hitf, hclosure, -, -⟩ | ⟨-, ⟨-, rfl, rfl⟩ | ⟨a, hsome, rfl, rfl⟩⟩
      · -- a listener of the server has a client that is there
        have hthere := h.table.closure (Evt.mem_ofItf.mpr ⟨hmem, hitf⟩)
        exact absurd (hclosure ▸ hthere) hnew
      · exact ⟨_, rfl, h⟩
      · simp only
        have hunused := hevtListener a hsome
        split
        · refine ⟨_, rfl, h.table.accepted hevt hunused hnew accepting.fd _, ?_, h.idents, h.bounded⟩
          refine List.nodup_cons.mpr ⟨?_, h.links⟩
          intro hin
          rcases h.linked hin with ⟨c, hc, rfl, -⟩
          exact hnew (List.mem_map_of_mem hc)
        · rcases h.table.refused json hevt hunused with ⟨evt, sent, hrun, htable⟩
          exact ⟨_, hrun, htable, h.links, h.idents, h.bounded⟩

/-! ## Steps -/

theorem Table.reheld (h : Table itf holders s) (hperm : holders.Perm holders') : Table itf holders' s :=
  ⟨h.evt, h.clients.perm hperm, h.watching, h.paired⟩

theorem unref_done (h : Table itf holders s) (hlinks : s.links.Nodup)
    (hidents : (s.requests.map ApiWsServerReq.ident).Nodup)
    (hbounded : ∀ wreq ∈ s.requests, wreq.ident < s.nextRequest)
    (hleaves : Counted.Leaves holders (s.links ++ s.requests.map ApiWsServerReq.client) address) :
    Done itf (apiWsServerClientUnref json itf address s) := by
  rcases clientUnref_spec json h hleaves with ⟨clients, evt, sent, hrun, htable⟩
  exact ⟨_, hrun, htable, hlinks, hidents, hbounded⟩

/-- `api_ws_server_on_binary`: a call that makes no request gives its reference back. -/
theorem onBinary_done (h : s.Sound itf) (hin : address ∈ s.links) (rb : Readbuf)
    (calling : Calling) (generated : Bytes) :
    Done itf (apiWsServerOnBinary json itf address rb calling generated s) := by
  rcases h.linked hin with ⟨c, hc, rfl, hfound⟩
  have htaken : Table itf (c.address :: (s.links ++ s.requests.map ApiWsServerReq.client)) { s with
      clients := Keyed.modify ApiWsClient.address c.address
        (fun client => { client with refcount := client.refcount + 1 }) s.clients } := by
    apply h.table.relist
    · exact fun _ => ⟨rfl, rfl⟩
    · rw [adjust_clients]
      apply h.table.clients.addref
      rw [client_addresses]
      exact List.mem_map_of_mem hc
  have hback : ∀ store, Done itf (apiWsServerClientUnref json itf c.address { s with
      store
      clients := Keyed.modify ApiWsClient.address c.address
        (fun client => { client with refcount := client.refcount + 1 }) s.clients }) := by
    intro store
    exact unref_done json (htaken.withStore store) h.links h.idents h.bounded (Counted.Leaves.head _ _)
  simp only [apiWsServerOnBinary, hfound, Option.bind_eq_bind, Option.bind_some]
  split
  · exact hback s.store
  split
  · exact hback s.store
  split
  · exact hback _
  · refine ⟨_, rfl, ?_, h.links, ?_, ?_⟩
    · exact ((htaken.withStore _).withRequests _ _ _).reheld List.perm_middle.symm
    · refine List.nodup_cons.mpr ⟨?_, h.idents⟩
      intro hold
      rcases List.mem_map.mp hold with ⟨wreq, hwreq, hsame⟩
      exact absurd hsame (Nat.ne_of_lt (h.bounded wreq hwreq))
    · intro wreq hwreq
      rcases List.mem_cons.mp hwreq with rfl | hold
      · exact Nat.lt_succ_self _
      · exact Nat.lt_succ_of_lt (h.bounded wreq hold)

theorem onHangup_done (h : s.Sound itf) (hin : address ∈ s.links) :
    Done itf (apiWsServerOnHangup json itf address s) := by
  rcases h.linked hin with ⟨c, hc, rfl, hfound⟩
  have htable : Table itf (s.links ++ s.requests.map ApiWsServerReq.client) { s with
      clients := Keyed.modify ApiWsClient.address c.address
        (fun client => { client with fd := if 0 ≤ client.fd then -1 else client.fd }) s.clients } := by
    have hview : (Keyed.modify ApiWsClient.address c.address
        (fun client => { client with fd := if 0 ≤ client.fd then -1 else client.fd }) s.clients).map
          ApiWsClient.entry = s.clients.map ApiWsClient.entry := Keyed.map_modify fun _ => rfl
    apply h.table.relist
    · exact fun _ => ⟨rfl, rfl⟩
    · rw [hview]
      exact h.table.clients
  have hleaves : Counted.Leaves s.links (s.links.filter fun other => other ≠ c.address) c.address := by
    have hdistinct : (s.links.map id).Nodup := by
      rw [List.map_id]
      exact h.links
    have hless : Counted.Leaves (s.links.map id)
        ((s.links.filter fun other => id other ≠ id c.address).map id) (id c.address) :=
      Counted.leaves_filter id hdistinct hin
    rw [List.map_id, List.map_id] at hless
    exact hless
  rw [apiWsServerOnHangup, hfound, Option.bind_eq_bind, Option.bind_some]
  exact unref_done json (htable.withRequests s.requests s.nextRequest _)
    (h.links.sublist List.filter_sublist) h.idents h.bounded (hleaves.append_right _)

theorem Service.Sound.modify (h : s.Sound itf) (ident : Nat) {change : ApiWsServerReq → ApiWsServerReq}
    (hchange : ∀ wreq, (change wreq).ident = wreq.ident ∧ (change wreq).client = wreq.client) :
    Service.Sound itf { s with
      requests := Keyed.modify ApiWsServerReq.ident ident change s.requests } := by
  have hidents : (Keyed.modify ApiWsServerReq.ident ident change s.requests).map ApiWsServerReq.ident =
      s.requests.map ApiWsServerReq.ident := Keyed.map_modify fun wreq => (hchange wreq).1
  have hclients : (Keyed.modify ApiWsServerReq.ident ident change s.requests).map
      ApiWsServerReq.client = s.requests.map ApiWsServerReq.client :=
    Keyed.map_modify fun wreq => (hchange wreq).2
  constructor
  · show Table itf (s.links ++ (Keyed.modify ApiWsServerReq.ident ident change s.requests).map
      ApiWsServerReq.client) _
    rw [hclients]
    exact h.table.withRequests _ s.nextRequest s.links
  · exact h.links
  · show ((Keyed.modify ApiWsServerReq.ident ident change s.requests).map ApiWsServerReq.ident).Nodup
    rw [hidents]
    exact h.idents
  · intro wreq' hwreq'
    rcases Keyed.mem_modify.mp hwreq' with ⟨wreq, hwreq, -, rfl⟩ | ⟨hwreq, -⟩
    · rw [(hchange wreq).1]
      exact h.bounded wreq hwreq
    · exact h.bounded wreq' hwreq

theorem Service.Sound.request_some (h : s.Sound itf) {ident : Nat}
    (hin : ident ∈ s.requests.map ApiWsServerReq.ident) :
    ∃ wreq ∈ s.requests, wreq.ident = ident ∧ s.request? ident = some wreq ∧
      ∃ c ∈ s.clients, c.address = wreq.client ∧ s.client? wreq.client = some c := by
  rcases List.mem_map.mp hin with ⟨wreq, hwreq, rfl⟩
  refine ⟨wreq, hwreq, rfl, Keyed.search_mem h.idents hwreq, ?_⟩
  exact h.table.client_some (List.mem_append_right _ (List.mem_map_of_mem hwreq))

theorem reqAddref_done (h : s.Sound itf) {ident : Nat}
    (hin : ident ∈ s.requests.map ApiWsServerReq.ident) :
    Done itf (apiWsServerReqAddref ident s) := by
  rcases h.request_some hin with ⟨wreq, -, -, hfound, -⟩
  rw [apiWsServerReqAddref, hfound, Option.bind_eq_bind, Option.bind_some]
  exact ⟨_, rfl, h.modify ident fun _ => ⟨rfl, rfl⟩⟩

/-- `api_ws_server_req_unref`: the last reference to a request gives its client back. -/
theorem reqUnref_done (h : s.Sound itf) {ident : Nat}
    (hin : ident ∈ s.requests.map ApiWsServerReq.ident) (generated : Bytes) :
    Done itf (apiWsServerReqUnref json itf ident generated s) := by
  rcases h.request_some hin with ⟨wreq, hwreq, rfl, hfound, -⟩
  have hleaves := Counted.leaves_filter ApiWsServerReq.client h.idents hwreq
  rw [apiWsServerReqUnref, hfound, Option.bind_eq_bind, Option.bind_some]
  split
  · exact ⟨_, rfl, h.modify wreq.ident fun _ => ⟨rfl, rfl⟩⟩
  · exact unref_done json ((h.table.withStore _).withRequests _ s.nextRequest s.links) h.links
      (h.idents.sublist (List.filter_sublist.map ApiWsServerReq.ident))
      (fun other hother => h.bounded other (List.mem_filter.mp hother).1) (hleaves.append_left _)

theorem reqWrite_done (h : s.Sound itf) {ident : Nat}
    (hin : ident ∈ s.requests.map ApiWsServerReq.ident) (write : ServerCall → Option Writebuf) :
    Done itf (reqWrite ident write s) := by
  rcases h.request_some hin with ⟨wreq, -, -, hfound, client, -, -, hclient⟩
  rcases send_eq client.address (write wreq.call) s with ⟨sent, hsent⟩
  rw [reqWrite, hfound, Option.bind_eq_bind, Option.bind_some, hclient, Option.bind_eq_bind,
    Option.bind_some, hsent]
  exact ⟨_, rfl, h.withEvt sent h.table.evt rfl⟩

theorem watch_told (h : s.Sound itf) {c : ApiWsClient} (hc : c ∈ s.clients) {evt : Evt.Store}
    {notices : List (Evt.Notice J)}
    (halone : Evt.Alone c.listener s.evt evt notices) :
    ∃ sent, tellClients json itf s.evt notices s = some { s with sent } ∧
      evt.ofItf itf = s.evt.ofItf itf := by
  have hitf := Evt.ofItf_congr halone.bases itf
  rcases h.table.base_iff.mpr ⟨c, hc, rfl⟩ with ⟨base, hbase, haddress⟩
  have htold : ∀ notice ∈ notices, notice.listener ∈ s.evt.bases.map Evt.Base.address := by
    intro notice hnotice
    rw [halone.told notice hnotice, ← haddress]
    exact List.mem_map_of_mem (Evt.mem_ofItf.mp hbase).1
  rcases tellClients_eq json htold fun base hbase => h.table.closure hbase with ⟨sent, hsent⟩
  exact ⟨sent, hsent, hitf⟩

theorem Table.listener_of (h : Table itf holders s) {c : ApiWsClient} (hc : c ∈ s.clients) :
    ∃ lst ∈ s.evt.listeners, lst.address = c.listener ∧ lst.itf = itf ∧ lst.closure = c.address := by
  rcases h.base_iff.mpr ⟨c, hc, rfl⟩ with ⟨base, hbase, haddress⟩
  rcases Evt.mem_ofItf.mp hbase with ⟨hmem, hitf⟩
  rcases List.mem_map.mp hmem with ⟨lst, hlst, rfl⟩
  exact ⟨lst, hlst, haddress, hitf, ((h.paired _ hbase c hc).mp haddress.symm).symm⟩

theorem addWatch_ours {evt evt' : Evt.Store} {listener : Nat} {event : Evt.AfbEvent}
    {allocated : Option Nat} {rc : Int} {notices : List (Evt.Notice J)}
    (hadd : Evt.afbEvtAddWatch listener event allocated evt = some (rc, evt', notices))
    (hrc : ¬ rc < 0) : event.ours = true := by
  by_contra hours
  rw [Evt.afbEvtAddWatch, Option.bind_eq_bind, Option.bind_eq_some_iff] at hadd
  rcases hadd with ⟨lst, -, hadd⟩
  rw [if_pos (by simp [hours])] at hadd
  cases hadd
  omega

theorem reqSubscribe_done (h : s.Sound itf) {ident : Nat}
    (hin : ident ∈ s.requests.map ApiWsServerReq.ident) {event : Evt.AfbEvent}
    (hevent : event.ours = true → event.closure ∈ s.evt.events.map Evt.EvtEvent.address)
    {allocated : Option Nat}
    (hfresh : ∀ a, allocated = some a → a ∉ s.evt.watches.map Evt.Watch.address) :
    Done itf (reqSubscribe json itf ident event allocated s) := by
  rcases h.request_some hin with ⟨wreq, -, -, hfound, client, hclient, -, hsome⟩
  rcases h.table.listener_of hclient with ⟨lst, hlst, haddress, -, -⟩
  rcases Evt.afbEvtAddWatch_some (J := J) h.table.evt hlst hevent allocated with ⟨rc, evt, notices, hadd⟩
  rw [haddress] at hadd
  rcases Evt.afbEvtAddWatch_becomes h.table.evt hfresh hadd with ⟨_, hbecomes⟩
  rcases watch_told json h hclient (Evt.afbEvtAddWatch_alone hadd) with
    ⟨sent, htell, hitf⟩
  simp only [reqSubscribe, hfound, hsome, hadd, htell, Option.bind_eq_bind, Option.bind_some]
  split
  · exact ⟨_, rfl, h.withEvt sent hbecomes.sound hitf⟩
  · rename_i hrc
    have hevents : evt.events.map Evt.EvtEvent.address = s.evt.events.map Evt.EvtEvent.address := by
      rw [← Evt.Store.catalog_addresses, hbecomes.catalog, Evt.Store.catalog_addresses]
    have hthere := hevent (addWatch_ours hadd hrc)
    rw [← hevents] at hthere
    rcases Evt.Store.event_some hthere with ⟨e, he⟩
    rcases send_eq client.address (apiWsServerReqSubscribe wreq.call.msgid e.id.toUInt32 e.name)
      { s with evt, sent } with ⟨sent', hsent⟩
    simp only [he, Option.bind_some, hsent]
    exact ⟨_, rfl, h.withEvt sent' hbecomes.sound hitf⟩

theorem reqUnsubscribe_done (h : s.Sound itf) {ident : Nat}
    (hin : ident ∈ s.requests.map ApiWsServerReq.ident) {event : Evt.AfbEvent}
    (hours : event.ours = true) (hevent : event.closure ∈ s.evt.events.map Evt.EvtEvent.address) :
    Done itf (reqUnsubscribe json itf ident event s) := by
  rcases h.request_some hin with ⟨wreq, -, -, hfound, client, hclient, -, hsome⟩
  rcases h.table.listener_of hclient with ⟨lst, hlst, haddress, -, -⟩
  rcases Evt.Store.event_some hevent with ⟨e, he⟩
  rcases send_eq client.address (apiWsServerReqUnsubscribe wreq.call.msgid e.id.toUInt32 e.name) s with
    ⟨sent, hsent⟩
  have hsound : Service.Sound itf { s with sent } := h.withEvt sent h.table.evt rfl
  rcases Evt.afbEvtRemoveWatch_some (J := J) h.table.evt hlst event with ⟨rc, evt, notices, hremove⟩
  rw [haddress] at hremove
  have hbecomes := (Evt.afbEvtRemoveWatch_becomes h.table.evt hremove).2
  rcases watch_told json hsound hclient (Evt.afbEvtRemoveWatch_alone hremove) with
    ⟨sent', htell, hitf⟩
  simp only [reqUnsubscribe, hfound, hsome, hours, he, hsent, hremove, htell, Option.bind_eq_bind,
    Option.bind_some, if_true]
  exact ⟨_, rfl, h.withEvt sent' hbecomes.sound hitf⟩

/-! ## Runs -/

/-- What the binder and the clients do. -/
inductive ServiceAction (J : Type) where
  | session (action : Session.Action)
  | evt (deed : Evt.Deed J)
  | accept (accepting : Accepting)
  | binary (client : Nat) (rb : Readbuf) (calling : Calling) (generated : Bytes)
  | hangup (client : Nat)
  | addref (request : Nat)
  | unref (request : Nat) (generated : Bytes)
  | success (request : Nat) (object : Option J) (info : Option CString)
  | fail (request : Nat) (status : CString) (info : Option CString)
  | send (request : Nat) (buffer : Bytes)
  | subscribe (request : Nat) (event : Evt.AfbEvent) (allocated : Option Nat)
  | unsubscribe (request : Nat) (event : Evt.AfbEvent)

def Service.exec (itf : Evt.EvtItf) (s : Service) : ServiceAction J → Option Service
  | .session action =>
      let w := Session.exec ⟨s.store, fun _ => 0, s.now⟩ action
      some { s with store := w.store, now := w.now }
  | .evt deed => do
      let (evt, notices) ← deed.exec s.evt
      let s' ← tellClients json itf s.evt notices s
      some { s' with evt := evt }
  | .accept accepting => apiWsServerAccept json itf accepting s
  | .binary client rb calling generated => apiWsServerOnBinary json itf client rb calling generated s
  | .hangup client => apiWsServerOnHangup json itf client s
  | .addref request => apiWsServerReqAddref request s
  | .unref request generated => apiWsServerReqUnref json itf request generated s
  | .success request object info => reqSuccess json request object info s
  | .fail request status info => reqFail request status info s
  | .send request buffer => reqSend request buffer s
  | .subscribe request event allocated => reqSubscribe json itf request event allocated s
  | .unsubscribe request event => reqUnsubscribe json itf request event s

/-- A websocket is heard until it hangs up, a request is used while it is there, and what is
allocated is not in use. -/
def Service.Allowed (itf : Evt.EvtItf) (s : Service) : ServiceAction J → Prop
  | .session _ => True
  | .evt deed => deed.Fresh s.evt ∧ deed.Foreign itf s.evt ∧ (deed.exec s.evt).isSome
  | .accept accepting =>
      (∀ a, accepting.client = some a → a ∉ s.clients.map ApiWsClient.address) ∧
      ∀ a, accepting.evtListener = some a → a ∉ s.evt.bases.map Evt.Base.address
  | .binary client _ _ _ | .hangup client => client ∈ s.links
  | .addref request | .unref request _ | .success request _ _ | .fail request _ _
  | .send request _ => request ∈ s.requests.map ApiWsServerReq.ident
  | .subscribe request event allocated => request ∈ s.requests.map ApiWsServerReq.ident ∧
      (event.ours = true → event.closure ∈ s.evt.events.map Evt.EvtEvent.address) ∧
      ∀ a, allocated = some a → a ∉ s.evt.watches.map Evt.Watch.address
  | .unsubscribe request event => request ∈ s.requests.map ApiWsServerReq.ident ∧
      event.ours = true ∧ event.closure ∈ s.evt.events.map Evt.EvtEvent.address

/-- Whatever is done, no client is used that is freed. -/
theorem exec_done (h : s.Sound itf) {act : ServiceAction J} (hallowed : s.Allowed itf act) :
    Done itf (s.exec json itf act) := by
  cases act with
  | session action =>
      exact ⟨_, rfl, ⟨h.table.evt, h.table.clients, h.table.watching, h.table.paired⟩, h.links, h.idents,
        h.bounded⟩
  | evt deed =>
      rcases hallowed with ⟨hfresh, hforeign, hsome⟩
      rcases Option.isSome_iff_exists.mp hsome with ⟨⟨evt, notices⟩, hexec⟩
      rcases Evt.Deed.exec_foreign h.table.evt hfresh hforeign hexec with ⟨hevt, hitf, htold⟩
      rcases tellClients_eq json htold fun base hbase => h.table.closure hbase with ⟨sent, hsent⟩
      simp only [Service.exec, hexec, hsent, Option.bind_eq_bind, Option.bind_some]
      exact ⟨_, rfl, h.withEvt sent hevt hitf⟩
  | accept accepting => exact accept_done json h hallowed.1 hallowed.2
  | binary client rb calling generated => exact onBinary_done json h hallowed rb calling generated
  | hangup client => exact onHangup_done json h hallowed
  | addref request => exact reqAddref_done h hallowed
  | unref request generated => exact reqUnref_done json h hallowed generated
  | success request object info =>
      exact reqWrite_done h hallowed fun call =>
        apiWsServerReqSuccess json call.msgid call.flags object info
  | fail request status info =>
      exact reqWrite_done h hallowed fun call => apiWsServerReqFail call.msgid call.flags status info
  | send request buffer =>
      exact reqWrite_done h hallowed fun call => apiWsServerReqSend call.msgid call.flags buffer
  | subscribe request event allocated =>
      exact reqSubscribe_done json h hallowed.1 hallowed.2.1 hallowed.2.2
  | unsubscribe request event =>
      exact reqUnsubscribe_done json h hallowed.1 hallowed.2.1 hallowed.2.2

/-- The server before its first client. -/
def Service.init (store : Session.Store) (now : Int) : Service :=
  { store := store, now := now, evt := ⟨[], [], [], 0, false⟩, clients := [], links := []
    requests := [], nextRequest := 0, sent := [] }

def Service.Step (itf : Evt.EvtItf) (s : Service) (act : ServiceAction J) (s' : Service) : Prop :=
  s.Allowed itf act ∧ s.exec json itf act = some s'

theorem service_init (itf : Evt.EvtItf) (store : Session.Store) (now : Int) :
    (Service.init store now).Sound itf := by
  constructor
  · constructor
    · exact Evt.Store.sound_empty 0 false
    · exact Counted.nil
    · exact Counted.nil
    · exact fun _ h => absurd h List.not_mem_nil
  · exact List.nodup_nil
  · exact List.nodup_nil
  · exact fun _ h => absurd h List.not_mem_nil

theorem service_sound {store : Session.Store} {now : Int}
    {ts : List (Transition Service (ServiceAction J))}
    (hrun : Runs (Service.Step json itf) (Service.init store now) s ts) : s.Sound itf := by
  apply hrun.invariant (Service.Sound itf) _ (service_init itf store now)
  intro s act s' h hstep
  rcases exec_done json h hstep.1 with ⟨_, hexec, hsound⟩
  cases hexec.symm.trans hstep.2
  exact hsound

theorem Table.listeners_nodup (h : Table itf holders s) :
    (s.clients.map ApiWsClient.listener).Nodup := by
  apply (List.Nodup.of_map ApiWsClient.address h.addresses).map_on
  intro c hc c' hc' hsame
  rcases h.base_iff.mpr ⟨c, hc, rfl⟩ with ⟨base, hbase, haddress⟩
  have hclosure := (h.paired base hbase c hc).mp haddress.symm
  have hclosure' := (h.paired base hbase c' hc').mp (hsame.symm.trans haddress.symm)
  exact Keyed.key_inj h.addresses hc hc' (hclosure.trans hclosure'.symm)

/-- In every run, the clients are those with a websocket that has not hung up or with a
request; each counts them, and has one event listener of its own. -/
theorem clients_counted {store : Session.Store} {now : Int}
    {ts : List (Transition Service (ServiceAction J))}
    (hrun : Runs (Service.Step json itf) (Service.init store now) s ts) :
    (∀ act : ServiceAction J, s.Allowed itf act → ∃ s', s.exec json itf act = some s') ∧
    (∀ address, address ∈ s.clients.map ApiWsClient.address ↔
      address ∈ s.links ∨ address ∈ s.requests.map ApiWsServerReq.client) ∧
    (∀ c ∈ s.clients,
      c.refcount = (if c.address ∈ s.links then 1 else 0) +
        ((s.requests.map ApiWsServerReq.client).count c.address : Int) ∧
      ∃ lst ∈ s.evt.listeners, lst.address = c.listener ∧ lst.itf = itf ∧
        lst.closure = c.address ∧ lst.refcount = 1 ∧ ∀ other ∈ s.evt.listeners, other.itf = itf →
          other.closure = c.address → other.address = lst.address) ∧
    ∀ lst ∈ s.evt.listeners, lst.itf = itf → ∃ c ∈ s.clients, c.listener = lst.address := by
  have h := service_sound json hrun
  refine ⟨?_, ?_, ?_, ?_⟩
  · intro act hallowed
    rcases exec_done json h hallowed with ⟨s', hexec, -⟩
    exact ⟨s', hexec⟩
  · intro address
    rw [← client_addresses, ← h.table.clients.held, List.mem_append]
  · intro c hc
    have hcount : c.refcount =
        (s.links ++ s.requests.map ApiWsServerReq.client).count c.address :=
      h.table.clients.count c.entry (List.mem_map_of_mem hc)
    rcases h.table.listener_of hc with ⟨lst, hlst, haddress, hitf, hclosure⟩
    refine ⟨?_, lst, hlst, haddress, hitf, hclosure, ?_, ?_⟩
    · rw [hcount, List.count_append, h.links.count]
      split <;> simp
    · have hbase : lst.base ∈ s.evt.ofItf itf := Evt.mem_ofItf.mpr ⟨List.mem_map_of_mem hlst, hitf⟩
      have hone := h.table.watching.count lst.base.entry (List.mem_map_of_mem hbase)
      have hin : lst.address ∈ s.clients.map ApiWsClient.listener :=
        haddress ▸ List.mem_map_of_mem hc
      have hlisteners := List.count_eq_one_of_mem h.table.listeners_nodup hin
      show lst.base.entry.2 = 1
      rw [hone]
      exact_mod_cast hlisteners
    · intro other hother hitf' hclosure'
      have hbase : other.base ∈ s.evt.ofItf itf :=
        Evt.mem_ofItf.mpr ⟨List.mem_map_of_mem hother, hitf'⟩
      rw [haddress]
      exact ((h.table.paired other.base hbase c hc).mpr hclosure'.symm).symm
  · intro lst hlst hitf
    exact h.table.base_iff.mp ⟨lst.base, Evt.mem_ofItf.mpr ⟨List.mem_map_of_mem hlst, hitf⟩, rfl⟩

def sampleItf : Evt.EvtItf := ⟨1, true, true, true, true⟩

def sampleTexts : JsonC Unit := ⟨fun _ => nullString, fun _ => none⟩

/-- The next state, where the action ends. -/
def sampleNext (act : ServiceAction Unit) (s : Service) : Service :=
  (s.exec sampleTexts sampleItf act).getD s

def sampleService : Service := Service.init (Session.ctxStoreInit 4 3600 [] 1 64) 0

def sampleAccept : ServiceAction Unit := .accept ⟨some 100, some 200, 3, true⟩

/-- A call whose texts are empty. -/
def sampleBinary : ServiceAction Unit :=
  .binary 100 ⟨64, [1, 0, 0, 0, 0, 0, 0, 0, 1, 0, 0, 0, 0, 1, 0, 0, 0, 0, 1, 0, 0, 0, 0], 0, 0, 23⟩
    ⟨true, true⟩ [98]

def sampleAccepted : Service := sampleNext sampleAccept sampleService

def sampleAsked : Service := sampleNext sampleBinary sampleAccepted

/-- The client hangs up before the reply. -/
def sampleHungUp : Service := sampleNext (.hangup 100) sampleAsked

theorem clients_counted_hungUp :
    (∀ c ∈ sampleHungUp.clients, ∃ lst ∈ sampleHungUp.evt.listeners, lst.address = c.listener ∧
      lst.itf = sampleItf ∧ lst.closure = c.address ∧ lst.refcount = 1 ∧
      ∀ other ∈ sampleHungUp.evt.listeners, other.itf = sampleItf → other.closure = c.address →
        other.address = lst.address) ∧
    sampleHungUp.links = [] ∧ sampleHungUp.clients = [⟨100, -1, 1, 200⟩] ∧
    (sampleNext (.unref 0 [99]) sampleHungUp).clients = [] := by
  have haccept : Service.Step sampleTexts sampleItf sampleService sampleAccept sampleAccepted := by
    refine ⟨⟨?_, ?_⟩, rfl⟩
    · exact fun _ _ => List.not_mem_nil
    · exact fun _ _ => List.not_mem_nil
  have hask : Service.Step sampleTexts sampleItf sampleAccepted sampleBinary sampleAsked :=
    ⟨List.mem_cons_self, rfl⟩
  have hhangup : Service.Step sampleTexts sampleItf sampleAsked (.hangup 100) sampleHungUp :=
    ⟨List.mem_cons_self, rfl⟩
  have hcounted := clients_counted sampleTexts (((Runs.single haccept).snoc hask).snoc hhangup)
  exact ⟨fun c hc => (hcounted.2.2.1 c hc).2, rfl, rfl, rfl⟩

end AfbBinder.ApiWs
