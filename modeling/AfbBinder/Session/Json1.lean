import AfbBinder.Lib.Run
import AfbBinder.Session.Context
import AfbBinder.Session.Lifetime

/-!
# Sessions of the daemon's requests

The daemon serves HTTP requests and the calls received on `x-afb-ws-json1` links.
Both make a context on a session of the store: `afb_context_connect` for the HTTP
requests, `aws_on_call` for the calls of a link, which keeps a reference on the
session it was opened with for as long as it lives.
-/

namespace AfbBinder.Session.Json1

open Lib

/-- `struct afb_ws_json1`; `connected` until the hangup of its websocket. -/
structure Link where
  connected : Bool
  refcount : Nat
  session : Nat
  newSession : Bool

/-- A living request; `link` is set for the calls received on a link. -/
structure Request where
  context : Context
  link : Option Nat

structure Daemon where
  store : Store
  now : Int
  links : List Link
  requests : List Request

inductive Action where
  | http (allocated : Bool) (generated : Bytes) (uuid token : Option Bytes)
  | wsOpen (request : Nat)
  | wsCall (link : Nat) (token : Option Bytes)
  | contextClose (request : Nat)
  | contextRefresh (request : Nat)
  | contextChangeLoa (request : Nat) (loa : Nat)
  | sentToken (request : Nat) (generated : Bytes)
  | endRequest (request : Nat) (generated : Bytes)
  | hangup (link : Nat)
  | advance (delay : Nat)

def Daemon.init (store : Store) (now : Int) : Daemon :=
  { store := store, now := now, links := [], requests := [] }

def Daemon.connectedLink (d : Daemon) (link : Nat) : Option Link :=
  d.links[link]?.filter Link.connected

/-- A request whose context has not been disconnected. -/
def Daemon.livingRequest (d : Daemon) (request : Nat) : Option Request :=
  d.requests[request]?.filter fun r => r.context.session.isSome

/-- `aws_unref`. -/
def awsUnref (link : Nat) (d : Daemon) : Daemon :=
  match d.links[link]? with
  | none => d
  | some l =>
      let d' := { d with links := d.links.set link { l with refcount := l.refcount - 1 } }
      if l.refcount - 1 = 0 then { d' with store := ctxClientUnref l.session d.store } else d'

/-- `afb_ws_json1_create` for the context of a request. -/
def afbWsJson1Create (context : Context) (d : Daemon) : Option Daemon :=
  match context.session with
  | none => none
  | some client =>
      some { d with
        store := ctxClientAddRef client d.store
        links := d.links ++
          [{ connected := true, refcount := 1, session := client, newSession := context.created }] }

/-- The context that `aws_on_call` makes for a call on the link. -/
def callContext (l : Link) (context : Context) : Context :=
  let trusted := if context.invalidated then context else { context with validated := true }
  if l.newSession then { trusted with created := true } else trusted

/-- `aws_on_call`, up to the call of the verb. -/
def awsOnCall (link : Nat) (token : Option Bytes) (d : Daemon) : Option Daemon :=
  match d.connectedLink link with
  | none => none
  | some l =>
      match afbContextInit l.session token d.now d.store with
      | none => none
      | some (context, store) =>
          some { d with
            store := store
            links := d.links.set link { l with refcount := l.refcount + 1, newSession := false }
            requests := d.requests ++ [{ context := callContext l context, link := some link }] }

/-- `aws_on_hangup`. -/
def awsOnHangup (link : Nat) (d : Daemon) : Option Daemon :=
  match d.connectedLink link with
  | none => none
  | some l => some (awsUnref link { d with links := d.links.set link { l with connected := false } })

/-- The requests with the one at `index` given a new context. -/
def Daemon.setContext (d : Daemon) (index : Nat) (r : Request) (context : Context) : Daemon :=
  { d with requests := d.requests.set index { r with context := context } }

/-- The last `unref` of a request. -/
def finish (index : Nat) (r : Request) (generated : Bytes) (d : Daemon) : Daemon :=
  let ended := afbContextDisconnect generated d.now r.context d.store
  let d' := { d.setContext index r ended.1 with store := ended.2 }
  match r.link with
  | none => d'
  | some link => awsUnref link d'

/-- The step function; `none` when the action is not possible. -/
def exec (d : Daemon) : Action → Option Daemon
  | .http allocated generated uuid token =>
      match afbContextConnect allocated generated uuid token d.now d.store with
      | (none, store) => some { d with store := store }
      | (some context, store) =>
          some { d with
            store := store
            requests := d.requests ++ [{ context := context, link := none }] }
  | .wsOpen request =>
      match d.livingRequest request with
      | none => none
      | some r =>
          -- `afb_hswitch_websocket_switch` upgrades validated requests only
          if r.context.validated then afbWsJson1Create r.context d else none
  | .wsCall link token => awsOnCall link token d
  | .contextClose request =>
      (d.livingRequest request).map fun r => d.setContext request r (afbContextClose r.context)
  | .contextRefresh request =>
      match d.livingRequest request with
      | none => none
      | some r => (afbContextRefresh r.context).map (d.setContext request r)
  | .contextChangeLoa request loa =>
      (d.livingRequest request).map fun r =>
        d.setContext request r (afbContextChangeLoa loa r.context).1
  | .sentToken request generated =>
      (d.livingRequest request).map fun r =>
        let sent := afbContextSentToken generated d.now r.context d.store
        { d.setContext request r sent.2.1 with store := sent.2.2 }
  | .endRequest request generated =>
      (d.livingRequest request).map fun r => finish request r generated d
  | .hangup link => awsOnHangup link d
  | .advance delay => some { d with now := d.now + delay }

def Step (d : Daemon) (act : Action) (d' : Daemon) : Prop := exec d act = some d'

/-! ## Contexts made on active sessions -/

/-- The session is allocated and active. -/
def SessionActive (d : Daemon) (client : Nat) : Prop :=
  ∃ c, d.store.mem client = some c ∧ ctxIsActive c d.now = true

/-- A context that the step makes with the flag `validated` is on an active session. -/
def ValidatedActive (t : Transition Daemon Action) : Prop :=
  ∀ r, t.after.requests = t.before.requests ++ [r] → r.context.validated = true →
    ∃ client, r.context.session = some client ∧ SessionActive t.after client

/-- A call without a token is received while the session of its link is active. -/
def CallOnActive (t : Transition Daemon Action) : Prop :=
  match t.action with
  | .wsCall link none =>
      ∀ l, t.before.connectedLink link = some l → SessionActive t.before l.session
  | _ => True

/-- A step that makes no request makes no context. -/
theorem validatedActive_of_length {t : Transition Daemon Action}
    (h : t.after.requests.length = t.before.requests.length) : ValidatedActive t := by
  intro r hr
  rw [hr, List.length_append] at h
  simp at h

theorem setContext_length (d : Daemon) (index : Nat) (r : Request) (context : Context) :
    (d.setContext index r context).requests.length = d.requests.length := by
  simp [Daemon.setContext]

theorem awsUnref_requests (link : Nat) (d : Daemon) : (awsUnref link d).requests = d.requests := by
  unfold awsUnref
  split
  · rfl
  · dsimp only
    split <;> rfl

theorem finish_length (index : Nat) (r : Request) (generated : Bytes) (d : Daemon) :
    (finish index r generated d).requests.length = d.requests.length := by
  unfold finish
  dsimp only
  split
  · exact setContext_length ..
  · rw [awsUnref_requests]
    exact setContext_length ..

/-- `afb_context_connect` validates on active sessions only. -/
theorem active_of_connect {allocated : Bool} {generated : Bytes} {uuid token : Option Bytes}
    {now : Int} {s s' : Store} {context : Context}
    (h : afbContextConnect allocated generated uuid token now s = (some context, s'))
    (hvalid : context.validated = true) :
    ∃ client c, context.session = some client ∧ s'.mem client = some c ∧
      ctxIsActive c now = true := by
  unfold afbContextConnect at h
  split at h
  · cases h
  · rename_i client created store _
    split at h
    · cases h
    · rename_i c hc
      simp only [Prod.mk.injEq, Option.some.injEq] at h
      obtain ⟨rfl, rfl⟩ := h
      exact ⟨client, c, initContext_session client c token now, hc, active_of_initContext hvalid⟩

/-- What `aws_on_call` makes of a call on a connected link. -/
theorem awsOnCall_cases {link : Nat} {token : Option Bytes} {d d' : Daemon}
    (h : awsOnCall link token d = some d') :
    ∃ l c, d.connectedLink link = some l ∧ d.store.mem l.session = some c ∧
      d'.now = d.now ∧
      d'.store.mem l.session = some { c with refcount := c.refcount + 1 } ∧
      d'.requests = d.requests ++
        [{ context := callContext l
            (initContext l.session { c with refcount := c.refcount + 1 } token d.now),
           link := some link }] := by
  unfold awsOnCall at h
  cases hl : d.connectedLink link with
  | none => simp [hl] at h
  | some l =>
      cases hc : d.store.mem l.session with
      | none => simp [hl, afbContextInit, ctxClientAddRef, hc] at h
      | some c =>
          simp only [hl, afbContextInit, ctxClientAddRef_mem hc, Option.some.injEq] at h
          subst h
          exact ⟨l, c, rfl, hc, rfl, ctxClientAddRef_mem hc, rfl⟩

theorem callContext_session (l : Link) (context : Context) :
    (callContext l context).session = context.session := by
  unfold callContext
  split <;> split <;> rfl

theorem callContext_validated (l : Link) (context : Context) :
    (callContext l context).validated = (!context.invalidated || context.validated) := by
  unfold callContext
  cases hi : context.invalidated <;> cases hn : l.newSession <;> simp

/-- The contexts made by a call meet the law exactly when the call has a token or its
session is active. -/
theorem validatedActive_wsCall {link : Nat} {token : Option Bytes} {d d' : Daemon}
    (h : awsOnCall link token d = some d') :
    ValidatedActive ⟨d, .wsCall link token, d'⟩ ↔ CallOnActive ⟨d, .wsCall link token, d'⟩ := by
  obtain ⟨l, c, hl, hc, hnow, hc', hreq⟩ := awsOnCall_cases h
  cases token with
  | some token =>
      refine iff_of_true ?_ trivial
      intro r hr hvalid
      have hr' := List.append_cancel_left (hreq.symm.trans hr)
      simp only [List.cons.injEq, and_true] at hr'
      subst hr'
      simp only [callContext_validated, initContext_some_token, Bool.not_not, Bool.or_self]
        at hvalid
      refine ⟨l.session, ?_, _, hc', ?_⟩
      · rw [callContext_session, initContext_session]
      · rw [hnow]
        exact active_of_initContext hvalid
  | none =>
      constructor
      · intro hlaw l' hl'
        have hsame : l' = l := by
          have := hl'.symm.trans hl
          simpa using this
        subst hsame
        obtain ⟨client, hclient, x, hx, hact⟩ := hlaw _ hreq (by rw [callContext_validated]; rfl)
        rw [callContext_session, initContext_session] at hclient
        cases hclient
        rw [hc'] at hx
        cases hx
        rw [hnow] at hact
        exact ⟨c, hc, hact⟩
      · intro hact r hr _
        have hr' := List.append_cancel_left (hreq.symm.trans hr)
        simp only [List.cons.injEq, and_true] at hr'
        subst hr'
        obtain ⟨x, hx, hactive⟩ := hact l hl
        rw [hc] at hx
        cases hx
        refine ⟨l.session, ?_, _, hc', ?_⟩
        · rw [callContext_session, initContext_session]
        · rw [hnow]
          exact hactive

/-- For each step, the law holds exactly when a call without a token is received on
an active session. -/
theorem validatedActive_iff {d d' : Daemon} {act : Action} (h : Step d act d') :
    ValidatedActive ⟨d, act, d'⟩ ↔ CallOnActive ⟨d, act, d'⟩ := by
  unfold Step at h
  cases act with
  | wsCall link token => exact validatedActive_wsCall h
  | http allocated generated uuid token =>
      refine iff_of_true ?_ trivial
      simp only [exec] at h
      split at h
      · cases h
        exact validatedActive_of_length rfl
      · rename_i context store hconnect
        cases h
        intro r hr hvalid
        simp only [List.append_cancel_left_eq, List.cons.injEq, and_true] at hr
        subst hr
        obtain ⟨client, c, hsession, hc, hact⟩ := active_of_connect hconnect hvalid
        exact ⟨client, hsession, c, hc, hact⟩
  | wsOpen request =>
      refine iff_of_true (validatedActive_of_length ?_) trivial
      simp only [exec] at h
      split at h
      · cases h
      · split at h
        · unfold afbWsJson1Create at h
          split at h
          · cases h
          · cases h
            rfl
        · cases h
  | contextClose request =>
      refine iff_of_true (validatedActive_of_length ?_) trivial
      obtain ⟨r, -, rfl⟩ := Option.map_eq_some_iff.mp h
      exact setContext_length ..
  | contextRefresh request =>
      refine iff_of_true (validatedActive_of_length ?_) trivial
      simp only [exec] at h
      split at h
      · cases h
      · obtain ⟨context, -, rfl⟩ := Option.map_eq_some_iff.mp h
        exact setContext_length ..
  | contextChangeLoa request loa =>
      refine iff_of_true (validatedActive_of_length ?_) trivial
      obtain ⟨r, -, rfl⟩ := Option.map_eq_some_iff.mp h
      exact setContext_length ..
  | sentToken request generated =>
      refine iff_of_true (validatedActive_of_length ?_) trivial
      obtain ⟨r, -, rfl⟩ := Option.map_eq_some_iff.mp h
      exact setContext_length ..
  | endRequest request generated =>
      refine iff_of_true (validatedActive_of_length ?_) trivial
      obtain ⟨r, -, rfl⟩ := Option.map_eq_some_iff.mp h
      exact finish_length ..
  | hangup link =>
      refine iff_of_true (validatedActive_of_length ?_) trivial
      simp only [exec, awsOnHangup] at h
      split at h
      · cases h
      · cases h
        rw [awsUnref_requests]
  | advance delay =>
      refine iff_of_true (validatedActive_of_length ?_) trivial
      cases h
      rfl

/-- Over every run, all the contexts made with the flag `validated` are on active
sessions exactly when every call received without a token is. -/
theorem validated_contexts_active_iff (maxSessionCount : Nat) (timeout : Int) (initok : Bytes)
    (contextCount timeBits : Nat) (now : Int) {d : Daemon}
    {ts : List (Transition Daemon Action)}
    (hrun : Runs Step (Daemon.init
      (ctxStoreInit maxSessionCount timeout initok contextCount timeBits) now) d ts) :
    (∀ t ∈ ts, ValidatedActive t) ↔ ∀ t ∈ ts, CallOnActive t := by
  have hiff : ∀ t ∈ ts, ValidatedActive t ↔ CallOnActive t := fun t ht =>
    validatedActive_iff (hrun.mem_spec ht).1
  exact ⟨fun h t ht => (hiff t ht).mp (h t ht), fun h t ht => (hiff t ht).mpr (h t ht)⟩

/-- A link opened with the initial token, then a call without a token at once. -/
theorem validated_contexts_active_open :
    ∃ (d : Daemon) (ts : List (Transition Daemon Action)),
      Runs Step (Daemon.init (ctxStoreInit 10 3600 [49] 0 64) 0) d ts ∧ ts.length = 3 ∧
        ∀ t ∈ ts, ValidatedActive t := by
  have hrun := ((Runs.refl : Runs Step (Daemon.init (ctxStoreInit 10 3600 [49] 0 64) 0) _ []).snoc
    (show exec _ (.http true [97] none (some [49])) = some _ from rfl)).snoc
    (show exec _ (.wsOpen 0) = some _ from rfl) |>.snoc
    (show exec _ (.wsCall 0 none) = some _ from rfl)
  refine ⟨_, _, hrun, rfl, (validated_contexts_active_iff 10 3600 [49] 0 64 0 hrun).mpr ?_⟩
  intro t ht
  simp only [List.nil_append, List.mem_append, List.mem_singleton] at ht
  rcases ht with (rfl | rfl) | rfl
  · trivial
  · trivial
  · intro l hl
    cases hl
    exact ⟨_, rfl, by decide⟩

/-- The session is closed by the request that opened the link, then a call without a
token is validated on it. -/
theorem validated_contexts_active_fails :
    ¬ ∀ (maxSessionCount : Nat) (timeout : Int) (initok : Bytes) (contextCount timeBits : Nat)
        (now : Int) (d : Daemon) (ts : List (Transition Daemon Action)),
        Runs Step (Daemon.init
          (ctxStoreInit maxSessionCount timeout initok contextCount timeBits) now) d ts →
        ∀ t ∈ ts, ValidatedActive t := by
  intro h
  have hrun := (((Runs.refl : Runs Step (Daemon.init (ctxStoreInit 10 3600 [49] 0 64) 0) _ []).snoc
    (show exec _ (.http true [97] none (some [49])) = some _ from rfl)).snoc
    (show exec _ (.wsOpen 0) = some _ from rfl)).snoc
    (show exec _ (.contextClose 0) = some _ from rfl) |>.snoc
    (show exec _ (.endRequest 0 [98]) = some _ from rfl) |>.snoc
    (show exec _ (.wsCall 0 none) = some _ from rfl)
  have hlaw := h 10 3600 [49] 0 64 0 _ _ hrun _ (List.mem_append_right _ List.mem_cons_self)
  obtain ⟨client, hclient, c, hc, hactive⟩ := hlaw _ rfl rfl
  cases hclient
  cases hc
  exact absurd hactive (by decide)

end AfbBinder.Session.Json1
