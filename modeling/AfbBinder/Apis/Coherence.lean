import AfbBinder.Apis.Requests

/-!
# The requests and their sessions

Each verb in progress works on the session of its request, on which the request has a
reference, with the index of its own API.
-/

namespace AfbBinder.Apis

open Lib Session

/-! ## The invariant -/

/-- The context of a verb has the index of its API. -/
def Indexed (apis : Registry) (verb : Verb) : Prop :=
  match verb.api with
  | none => verb.context.apiIndex = -1
  | some a => ∃ i : Nat, apis.array[i]? = some a ∧ verb.context.apiIndex = i

/-- The verbs of a request are on its session, with the indices of their APIs. -/
def Coherent (apis : Registry) (verbs : List Verb) : Prop :=
  ∃ client, ∀ verb ∈ verbs, verb.context.session = some client ∧ Indexed apis verb

structure Safe (apis : Registry) (b : Binder) : Prop where
  world : Inv b.world
  sized : Sized b.world.store
  apicount : b.world.store.apicount = afbApisCount apis
  owned : ∀ client, b.owning client ≤ b.world.held client
  coherent : ∀ verbs ∈ b.requests, Coherent apis verbs

/-- What the actions do that store no value. -/
structure Moves (apis : Registry) (b b' : Binder) : Prop where
  safe : Safe apis b'
  carries : Carries b.world.store b'.world.store

variable {apis : Registry} {b b' : Binder}

theorem safe_init (apis : Registry) (maxSessionCount : Nat) (timeout : Int) (initok : Bytes)
    (timeBits : Nat) (now : Int) :
    Safe apis (Binder.init apis maxSessionCount timeout initok timeBits now) where
  world := inv_init ..
  sized := by
    intro a x hx
    cases hx
  apicount := rfl
  owned := fun _ => Nat.zero_le _
  coherent := fun _ h => absurd h List.not_mem_nil

/-! ## The requests -/

theorem coherent_of_verb (hs : Safe apis b) {r : Nat} {verbs : List Verb}
    (h : b.requests[r]? = some verbs) : Coherent apis verbs :=
  hs.coherent verbs (List.mem_of_getElem? h)

theorem coherent_set (hs : Safe apis b) (r : Nat) {verbs : List Verb} (h : Coherent apis verbs) :
    ∀ verbs' ∈ b.requests.set r verbs, Coherent apis verbs' := by
  intro verbs' hmem
  rcases List.mem_or_eq_of_mem_set hmem with hmem | rfl
  · exact hs.coherent verbs' hmem
  · exact h

/-- A request keeps its session, so that the references are the same. -/
theorem owning_set {r : Nat} {verbs verbs' : List Verb} (h : b.requests[r]? = some verbs)
    (hsession : sessionOf verbs' = sessionOf verbs) (client : Nat) :
    ({ b with requests := b.requests.set r verbs' } : Binder).owning client =
      b.owning client := by
  obtain ⟨hlt, rfl⟩ := List.getElem?_eq_some_iff.mp h
  have hmap : (b.requests.set r verbs').map sessionOf = b.requests.map sessionOf := by
    have hlt' : r < (b.requests.map sessionOf).length := by rwa [List.length_map]
    have hself := List.set_getElem_self hlt'
    rw [List.getElem_map] at hself
    rw [List.map_set, hsession, hself]
  rw [Binder.owning, Binder.owning, hmap]

/-- The actions on the verbs of one request, which keep its session. -/
theorem moves_set (hs : Safe apis b) {r : Nat} {verbs verbs' : List Verb}
    (h : b.requests[r]? = some verbs) (hsession : sessionOf verbs' = sessionOf verbs)
    (hcoherent : Coherent apis verbs') :
    Moves apis b { b with requests := b.requests.set r verbs' } where
  safe :=
    { world := hs.world
      sized := hs.sized
      apicount := hs.apicount
      owned := by
        intro client
        rw [owning_set h hsession client]
        exact hs.owned client
      coherent := coherent_set hs r hcoherent }
  carries := (Lasts.refl _).carries

theorem sessionOf_set {verbs : List Verb} {n : Nat} {verb verb' : Verb}
    (hn : verbs[n]? = some verb) (hsession : verb'.context.session = verb.context.session) :
    sessionOf (verbs.set n verb') = sessionOf verbs := by
  cases verbs with
  | nil => rfl
  | cons first rest =>
      cases n with
      | zero =>
          cases hn
          exact hsession
      | succ n => rfl

theorem sessionOf_append {verbs : List Verb} {n : Nat} {verb : Verb} (hn : verbs[n]? = some verb)
    (more : List Verb) : sessionOf (verbs ++ more) = sessionOf verbs := by
  cases verbs with
  | nil => cases hn
  | cons first rest => rfl

/-- The context that `afb_apis_call` gives to a verb called for a request. -/
theorem coherent_called {verbs : List Verb} (h : Coherent apis verbs) {n : Nat} {verb : Verb}
    (hn : verbs[n]? = some verb) {api : Bytes} {a : ApiDesc} {context : Context}
    (hcall : afbApisCall apis verb.context api = .ok (a, context)) :
    context.session = verb.context.session ∧
      ∀ verbs', (∀ verb' ∈ verbs', verb' ∈ verbs ∨ verb' = ⟨context, some a⟩) →
        Coherent apis verbs' := by
  obtain ⟨client, hverbs⟩ := h
  obtain ⟨i, hi, hcontext, -⟩ := afbApisCall_ok hcall
  have hsession : context.session = verb.context.session := by rw [hcontext]
  refine ⟨hsession, ?_⟩
  intro verbs' hsub
  refine ⟨client, ?_⟩
  intro verb' hverb'
  rcases hsub verb' hverb' with hold | rfl
  · exact hverbs verb' hold
  · constructor
    · exact hsession.trans (hverbs verb (List.mem_of_getElem? hn)).1
    · exact ⟨i, hi, by rw [hcontext]⟩

theorem onVerb_some {r n : Nat} {f : List Verb → Verb → Option (List Verb)}
    (h : b.onVerb r n f = some b') :
    ∃ verbs verb verbs', b.requests[r]? = some verbs ∧ verbs[n]? = some verb ∧
      f verbs verb = some verbs' ∧ b' = { b with requests := b.requests.set r verbs' } := by
  obtain ⟨verbs, hr, h⟩ := Option.bind_eq_some_iff.mp h
  obtain ⟨verb, hn, h⟩ := Option.bind_eq_some_iff.mp h
  obtain ⟨verbs', hf, h⟩ := Option.bind_eq_some_iff.mp h
  cases h
  exact ⟨verbs, verb, verbs', hr, hn, hf, rfl⟩

theorem call_cases {r : Nat} {api : Bytes} (h : call apis r api b = some b') :
    ∃ verbs verb verbs', b.requests[r]? = some verbs ∧ verbs[0]? = some verb ∧ verb.api = none ∧
      b' = { b with requests := b.requests.set r verbs' } ∧
      (verbs' = verbs ∨ ∃ a context, afbApisCall apis verb.context api = .ok (a, context) ∧
        verbs' = verbs.set 0 ⟨context, some a⟩) := by
  obtain ⟨verbs, verb, verbs', hr, hn, hf, hb'⟩ := onVerb_some h
  split at hf
  case isTrue => cases hf
  case isFalse hnone =>
    have hapi : verb.api = none := by simpa using hnone
    refine ⟨verbs, verb, verbs', hr, hn, hapi, hb', ?_⟩
    cases hcall : afbApisCall apis verb.context api with
    | error e =>
        rw [hcall] at hf
        exact .inl (Option.some.inj hf).symm
    | ok called =>
        rw [hcall] at hf
        exact .inr ⟨called.1, called.2, rfl, (Option.some.inj hf).symm⟩

/-- A subcall adds a verb to its request, or nothing. -/
theorem subcall_cases {r n : Nat} {api : Bytes} (h : subcall apis r n api b = some b') :
    ∃ verbs verb verbs', b.requests[r]? = some verbs ∧ verbs[n]? = some verb ∧
      b' = { b with requests := b.requests.set r verbs' } ∧
      (verbs' = verbs ∨ ∃ a context, afbApisCall apis verb.context api = .ok (a, context) ∧
        verbs' = verbs ++ [⟨context, some a⟩]) := by
  obtain ⟨verbs, verb, verbs', hr, hn, hf, hb'⟩ := onVerb_some h
  refine ⟨verbs, verb, verbs', hr, hn, hb', ?_⟩
  cases hcall : afbApisCall apis verb.context api with
  | error e =>
      rw [hcall] at hf
      exact .inl (Option.some.inj hf).symm
  | ok called =>
      rw [hcall] at hf
      exact .inr ⟨called.1, called.2, rfl, (Option.some.inj hf).symm⟩

theorem moves_call (hs : Safe apis b) {r : Nat} {api : Bytes} (h : call apis r api b = some b') :
    Moves apis b b' := by
  obtain ⟨verbs, verb, verbs', hr, hn, -, rfl, hverbs'⟩ := call_cases h
  have hcoherent := coherent_of_verb hs hr
  rcases hverbs' with rfl | ⟨a, context, hcall, rfl⟩
  · exact moves_set hs hr rfl hcoherent
  · have hcalled := coherent_called hcoherent hn hcall
    apply moves_set hs hr (sessionOf_set hn hcalled.1)
    apply hcalled.2
    intro verb' hmem
    exact List.mem_or_eq_of_mem_set hmem

theorem moves_subcall (hs : Safe apis b) {r n : Nat} {api : Bytes}
    (h : subcall apis r n api b = some b') : Moves apis b b' := by
  obtain ⟨verbs, verb, verbs', hr, hn, rfl, hverbs'⟩ := subcall_cases h
  have hcoherent := coherent_of_verb hs hr
  rcases hverbs' with rfl | ⟨a, context, hcall, rfl⟩
  · exact moves_set hs hr rfl hcoherent
  · have hcalled := coherent_called hcoherent hn hcall
    apply moves_set hs hr (sessionOf_append hn _)
    apply hcalled.2
    intro verb' hmem
    rcases List.mem_append.mp hmem with hold | hnew
    · exact .inl hold
    · exact .inr (List.mem_singleton.mp hnew)

theorem moves_flags (hs : Safe apis b) {r n : Nat} {flags : Context}
    (h : changeFlags r n flags b = some b') : Moves apis b b' := by
  obtain ⟨verbs, verb, verbs', hr, hn, hf, rfl⟩ := onVerb_some h
  cases hf
  obtain ⟨client, hverbs⟩ := coherent_of_verb hs hr
  apply moves_set hs hr
  · exact sessionOf_set hn rfl
  · refine ⟨client, ?_⟩
    intro verb' hmem
    rcases List.mem_or_eq_of_mem_set hmem with hold | rfl
    · exact hverbs verb' hold
    · exact hverbs verb (List.mem_of_getElem? hn)

/-! ## The sessions -/

/-- The actions that work on the sessions as one operation of the store does. -/
theorem moves_exec (hs : Safe apis b) (act : Session.Action)
    (hallowed : Session.Allowed b.world act)
    (hact : ∀ a index value freeValue, act ≠ .valueSet a index value freeValue)
    {requests : List (List Verb)}
    (howned : ∀ client, (requests.map sessionOf).count (some client) ≤
      (Session.exec b.world act).held client)
    (hcoherent : ∀ verbs ∈ requests, Coherent apis verbs) :
    Moves apis b ⟨Session.exec b.world act, requests⟩ := by
  have hstep := step_exec act hallowed
  have hapicount := (sameConfig_step hs.world hstep).apicount
  have hcarries := carries_exec hs.world hs.sized hact
  constructor
  · constructor
    · exact (inv_step hs.world hstep).1
    · exact hcarries.sized hs.sized hapicount
    · exact hapicount.trans hs.apicount
    · exact howned
    · exact hcoherent
  · exact hcarries

theorem le_held_exec (w : World) {act : Session.Action} {client : Nat}
    (hact : act ≠ .unref client) : w.held client ≤ (Session.exec w act).held client := by
  have hgrant : ∀ result : Except Errno Nat, w.held client ≤ grant w.held result client := by
    intro result
    cases result with
    | error e => exact Nat.le_refl _
    | ok a =>
        rw [grant, Function.update_apply]
        split
        case isTrue heq =>
          rw [heq]
          exact Nat.le_succ _
        case isFalse => exact Nat.le_refl _
  cases act with
  | create allocated generated uuid timeout => exact hgrant _
  | getSession allocated generated uuid => exact hgrant _
  | addRef a => exact hgrant (.ok a)
  | unref a =>
      have hne : client ≠ a := by
        rintro rfl
        exact hact rfl
      exact Nat.le_of_eq (Function.update_of_ne hne _ _).symm
  | close a => exact Nat.le_refl _
  | tokenNew a generated => exact Nat.le_refl _
  | setLOA a loa => exact Nat.le_refl _
  | valueSet a index value freeValue => exact Nat.le_refl _
  | cookieSet a allocated key value freeValue => exact Nat.le_refl _
  | advance delay => exact Nat.le_refl _

theorem moves_session (hs : Safe apis b) {act : Session.Action} (h : Allowed b (.session act)) :
    Moves apis b ⟨Session.exec b.world act, b.requests⟩ := by
  obtain ⟨hallowed, hact, hunref⟩ := h
  apply moves_exec hs act hallowed hact ?_ hs.coherent
  intro client
  by_cases hlast : act = .unref client
  · have hless := hunref client hlast
    rw [hlast]
    show b.owning client ≤ Function.update b.world.held client (b.world.held client - 1) client
    rw [Function.update_self]
    omega
  · exact Nat.le_trans (hs.owned client) (le_held_exec b.world hlast)

/-- A new request and the reference that it has on its session. -/
theorem owned_append (hs : Safe apis b) {client : Nat} {context : Context}
    (hsession : context.session = some client) {held : Nat → Nat}
    (hheld : held = grant b.world.held (.ok client)) (a : Nat) :
    ((b.requests ++ [[(⟨context, none⟩ : Verb)]]).map sessionOf).count (some a) ≤ held a := by
  have hsession' : sessionOf [(⟨context, none⟩ : Verb)] = some client := hsession
  have howned := hs.owned a
  rw [List.map_append, List.count_append, List.map_singleton, hsession', hheld, grant,
    Function.update_apply]
  by_cases ha : a = client
  · subst ha
    rw [if_pos rfl, List.count_singleton_self]
    exact Nat.succ_le_succ howned
  · rw [if_neg ha, List.count_singleton, if_neg (by simpa using Ne.symm ha)]
    exact howned

theorem coherent_append (hs : Safe apis b) {client : Nat} {context : Context}
    (hsession : context.session = some client) (hindex : context.apiIndex = -1) :
    ∀ verbs ∈ b.requests ++ [[⟨context, none⟩]], Coherent apis verbs := by
  intro verbs hmem
  rcases List.mem_append.mp hmem with hold | hnew
  · exact hs.coherent verbs hold
  · rw [List.mem_singleton.mp hnew]
    refine ⟨client, ?_⟩
    intro verb hverb
    rw [List.mem_singleton.mp hverb]
    exact ⟨hsession, hindex⟩

theorem moves_init (hs : Safe apis b) {client : Nat} {token : Option Bytes}
    (h : init client token b = some b') : Moves apis b b' := by
  obtain ⟨made, hmade, rfl⟩ := Option.map_eq_some_iff.mp h
  cases hc : (ctxClientAddRef client b.world.store).mem client with
  | none => simp [afbContextInit, hc] at hmade
  | some c =>
      rw [afbContextInit, hc] at hmade
      cases hmade
      have hsession := initContext_session client c token b.world.now
      have hindex := initContext_apiIndex client c token b.world.now
      have hlive : (b.world.store.mem client).isSome := by
        cases hnone : b.world.store.mem client with
        | none => simp [ctxClientAddRef, hnone] at hc
        | some c => rfl
      exact moves_exec hs (.addRef client) hlive (fun _ _ _ _ => Session.Action.noConfusion)
        (owned_append hs hsession rfl) (coherent_append hs hsession hindex)

/-- A request that is connected has the reference that `ctxClientGetSession` gives. -/
theorem connect_cases (allocated : Bool) (generated : Bytes) (uuid token : Option Bytes)
    (b : Binder) :
    ∃ requests, connect allocated generated uuid token b =
        ⟨Session.exec b.world (.getSession allocated generated uuid), requests⟩ ∧
      (requests = b.requests ∨ ∃ client context,
        (ctxClientGetSession allocated generated uuid b.world.now b.world.store).1 = .ok client ∧
        context.session = some client ∧ context.apiIndex = -1 ∧
        requests = b.requests ++ [[⟨context, none⟩]]) := by
  rw [connect, afbContextConnect, Session.exec]
  cases hget : ctxClientGetSession allocated generated uuid b.world.now b.world.store with
  | mk result rest =>
      cases result with
      | error e => exact ⟨_, rfl, .inl rfl⟩
      | ok client =>
          cases hc : rest.2.mem client with
          | none =>
              simp only [hc]
              exact ⟨_, rfl, .inl rfl⟩
          | some c =>
              simp only [hc]
              exact ⟨_, rfl, .inr ⟨client,
                { initContext client c token b.world.now with created := rest.1 }, rfl,
                initContext_session client c token _, initContext_apiIndex client c token _, rfl⟩⟩

theorem moves_connect (hs : Safe apis b) (allocated : Bool) {generated : Bytes}
    (uuid token : Option Bytes) (hgenerates : Generates generated b.world.store) :
    Moves apis b (connect allocated generated uuid token b) := by
  obtain ⟨requests, heq, hrequests⟩ := connect_cases allocated generated uuid token b
  rw [heq]
  rcases hrequests with rfl | ⟨client, context, hget, hsession, hindex, rfl⟩
  · apply moves_exec hs (.getSession allocated generated uuid) hgenerates
      (fun _ _ _ _ => Session.Action.noConfusion) _ hs.coherent
    intro client
    exact Nat.le_trans (hs.owned client) (le_held_exec b.world Session.Action.noConfusion)
  · have hheld : (Session.exec b.world (.getSession allocated generated uuid)).held =
        grant b.world.held (.ok client) := by
      rw [← hget]
      rfl
    exact moves_exec hs (.getSession allocated generated uuid) hgenerates
      (fun _ _ _ _ => Session.Action.noConfusion) (owned_append hs hsession hheld)
      (coherent_append hs hsession hindex)

/-! ## The end of a request -/

/-- The operations that neither take nor give a reference. -/
structure Follows (w w' : World) : Prop where
  inv : Inv w'
  sized : Sized w'.store
  apicount : w'.store.apicount = w.store.apicount
  lasts : Lasts w.store w'.store
  held : w'.held = w.held
  now : w'.now = w.now

theorem Follows.trans {w w' w'' : World} (h : Follows w w') (h' : Follows w' w'') :
    Follows w w'' where
  inv := h'.inv
  sized := h'.sized
  apicount := h'.apicount.trans h.apicount
  lasts := h.lasts.trans h'.lasts h.apicount
  held := h'.held.trans h.held
  now := h'.now.trans h.now

theorem follows_exec {w : World} (hw : Inv w) (hs : Sized w.store) (cond : Bool)
    {act : Session.Action} (hallowed : Session.Allowed w act)
    (hlasts : Lasts w.store (Session.exec w act).store)
    (hheld : (Session.exec w act).held = w.held) (hnow : (Session.exec w act).now = w.now) :
    Follows w (if cond then Session.exec w act else w) := by
  cases cond with
  | false => exact ⟨hw, hs, rfl, Lasts.refl _, rfl, rfl⟩
  | true =>
      have hstep := step_exec act hallowed
      have hapicount := (sameConfig_step hw hstep).apicount
      exact ⟨(inv_step hw hstep).1, hlasts.carries.sized hs hapicount, hapicount, hlasts, hheld,
        hnow⟩

theorem isSome_of_held {w : World} (hw : Inv w) {client : Nat} (h : 0 < w.held client) :
    (w.store.mem client).isSome := by
  cases hc : w.store.mem client with
  | none => exact absurd (hw.unheld client hc) (Nat.ne_of_gt h)
  | some c => rfl

/-- What `afb_context_disconnect` does before it releases the session. -/
theorem disconnect_follows {w : World} (hw : Inv w) (hs : Sized w.store) {client : Nat}
    (hheld : 0 < w.held client) (generated : Bytes) {context : Context}
    (hsession : context.session = some client) :
    ∃ w', Follows w w' ∧
      (afbContextDisconnect generated w.now context w.store).2 =
        (Session.exec w' (.unref client)).store := by
  let refresh := context.refreshing && !context.refreshed
  let change := context.loaChanging && !context.loaChanged
  let close := context.closing && !context.closed
  let w₁ := if refresh then Session.exec w (.tokenNew client generated) else w
  let w₂ := if change then Session.exec w₁ (.setLOA client context.loaOut) else w₁
  let w₃ := if close then Session.exec w₂ (.close client) else w₂
  have h₁ : Follows w w₁ := follows_exec hw hs refresh (isSome_of_held hw hheld)
    (lasts_modify _ _ (fun _ => ⟨rfl, Iff.rfl⟩)) rfl rfl
  have hheld₁ : 0 < w₁.held client := by rwa [h₁.held]
  have h₂ : Follows w₁ w₂ := follows_exec h₁.inv h₁.sized change
    (isSome_of_held h₁.inv hheld₁) (lasts_modify _ _ (fun _ => ⟨rfl, Iff.rfl⟩)) rfl rfl
  have hheld₂ : 0 < w₂.held client := by rwa [h₂.held]
  have h₃ : Follows w₂ w₃ := follows_exec h₂.inv h₂.sized close
    (isSome_of_held h₂.inv hheld₂) (lasts_close h₂.sized client) rfl rfl
  refine ⟨w₃, (h₁.trans h₂).trans h₃, ?_⟩
  have hstore₁ : w₁.store = if refresh then
      w.store.modify client fun c => (ctxTokenNew w.store.timeBits generated w.now c, []) else w.store :=
    apply_ite World.store ..
  have hstore₂ : w₂.store = if change then
      w₁.store.modify client fun c => (ctxClientSetLOA context.loaOut c, []) else w₁.store :=
    apply_ite World.store ..
  have hstore₃ : w₃.store = if close then ctxClientClose client w₂.store else w₂.store :=
    apply_ite World.store ..
  rw [afbContextDisconnect, hsession]
  show ctxClientUnref client _ = ctxClientUnref client w₃.store
  rw [hstore₃, hstore₂, hstore₁]

theorem owning_finish {r : Nat} {verbs : List Verb} (hr : b.requests[r]? = some verbs)
    {client : Nat} (hsession : sessionOf verbs = some client) (a : Nat) :
    ((b.requests.set r []).map sessionOf).count (some a) =
      b.owning a - if client = a then 1 else 0 := by
  obtain ⟨hlt, rfl⟩ := List.getElem?_eq_some_iff.mp hr
  have hlt' : r < (b.requests.map sessionOf).length := by rwa [List.length_map]
  rw [List.map_set, List.count_set hlt', List.getElem_map, hsession]
  have hover : sessionOf [] = none := rfl
  simp [hover, Binder.owning]

theorem owning_pos {r : Nat} {verbs : List Verb} (hr : b.requests[r]? = some verbs)
    {client : Nat} (hsession : sessionOf verbs = some client) : 0 < b.owning client := by
  apply List.count_pos_iff.mpr
  rw [← hsession]
  exact List.mem_map_of_mem (List.mem_of_getElem? hr)

theorem moves_finish (hs : Safe apis b) {r : Nat} {generated : Bytes}
    (h : finish r generated b = some b') : Moves apis b b' := by
  obtain ⟨verb, hverb, h⟩ := Option.bind_eq_some_iff.mp h
  obtain ⟨client, hsession, h⟩ := Option.bind_eq_some_iff.mp h
  obtain ⟨verbs, hr, hn⟩ := Option.bind_eq_some_iff.mp hverb
  have hof : sessionOf verbs = some client := by
    rw [sessionOf, List.head?_eq_getElem?, hn]
    exact hsession
  have hheld : 0 < b.world.held client :=
    Nat.lt_of_lt_of_le (owning_pos hr hof) (hs.owned client)
  obtain ⟨w', hfollows, hstore⟩ :=
    disconnect_follows hs.world hs.sized hheld generated hsession
  have hb' : b' = ⟨Session.exec w' (.unref client), b.requests.set r []⟩ := by
    rw [← Option.some.inj h, hstore, ← hfollows.held]
    show _ = Binder.mk (World.mk _ _ w'.now) _
    rw [hfollows.now]
    rfl
  have hsafe : Safe apis ⟨w', b.requests⟩ := by
    refine ⟨hfollows.inv, hfollows.sized, hfollows.apicount.trans hs.apicount, ?_, hs.coherent⟩
    intro a
    rw [hfollows.held]
    exact hs.owned a
  have hunref : Moves apis ⟨w', b.requests⟩ b' := by
    rw [hb']
    apply moves_exec hsafe (.unref client)
    · show 0 < w'.held client
      rwa [hfollows.held]
    · exact fun _ _ _ _ => Session.Action.noConfusion
    · intro a
      have howned := hs.owned a
      rw [owning_finish hr hof a]
      show _ ≤ Function.update w'.held client (w'.held client - 1) a
      rw [hfollows.held]
      by_cases ha : client = a
      · subst ha
        rw [if_pos rfl, Function.update_self]
        exact Nat.sub_le_sub_right howned 1
      · rw [if_neg ha, Function.update_of_ne (Ne.symm ha)]
        exact howned
    · exact coherent_set hs r ⟨client, fun _ hnil => absurd hnil List.not_mem_nil⟩
  refine ⟨hunref.safe, ?_⟩
  rw [hb']
  exact (hfollows.lasts.trans (lasts_unref hfollows.sized client) hfollows.apicount).carries

/-! ## The verbs -/

theorem indexed_of_verb (hs : Safe apis b) {r n : Nat} {verb : Verb}
    (h : b.verb r n = some verb) :
    (∃ client, verb.context.session = some client ∧ (b.world.store.mem client).isSome) ∧
      Indexed apis verb := by
  obtain ⟨verbs, hr, hn⟩ := Option.bind_eq_some_iff.mp h
  obtain ⟨client, hverbs⟩ := coherent_of_verb hs hr
  have hverb := hverbs verb (List.mem_of_getElem? hn)
  refine ⟨⟨client, hverb.1, ?_⟩, hverb.2⟩
  -- the request has a reference on the session
  have hof : sessionOf verbs = some client := by
    cases verbs with
    | nil => cases hn
    | cons first rest => exact (hverbs first (List.mem_cons_self ..)).1
  apply isSome_of_held hs.world
  exact Nat.lt_of_lt_of_le (owning_pos hr hof) (hs.owned client)

/-- A verb that stores a value has an API, and stores in the slot of this one. -/
theorem api_of_inRange (hs : Safe apis b) {r n : Nat} {verb : Verb} (h : b.verb r n = some verb)
    (hrange : InRange verb.context b.world.store) :
    ∃ (i : Nat) (a : ApiDesc), verb.api = some a ∧ apis.array[i]? = some a ∧
      verb.context.apiIndex = i := by
  have hindexed := (indexed_of_verb hs h).2
  rw [Indexed] at hindexed
  split at hindexed
  · have hpos := hrange.1
    omega
  · rename_i a hapi
    obtain ⟨i, hi, hindex⟩ := hindexed
    exact ⟨i, a, hapi, hi, hindex⟩

theorem slot_of_verb (hs : Safe apis b) {r n : Nat} {verb : Verb} {a : ApiDesc}
    (hverb : b.verb r n = some verb) (hapi : verb.api = some a) :
    ∃ i : Nat, apis.array[i]? = some a ∧ verb.context.apiIndex = i ∧
      i < b.world.store.apicount := by
  have hindexed := (indexed_of_verb hs hverb).2
  rw [Indexed, hapi] at hindexed
  obtain ⟨i, hi, hindex⟩ := hindexed
  have hlt : i < afbApisCount apis := (List.getElem?_eq_some_iff.mp hi).1
  rw [← hs.apicount] at hlt
  exact ⟨i, hi, hindex, hlt⟩

theorem safe_set (hs : Safe apis b) {client index : Nat} {value freeValue : Option Nat}
    (hlive : (b.world.store.mem client).isSome) :
    Safe apis { b with
      world := Session.exec b.world (.valueSet client index value freeValue) } := by
  have hallowed : Session.Allowed b.world (.valueSet client index value freeValue) := hlive
  have hstep := step_exec _ hallowed
  have hapicount := (sameConfig_step hs.world hstep).apicount
  obtain ⟨c, hc⟩ := Option.isSome_iff_exists.mp hlive
  refine ⟨(inv_step hs.world hstep).1, ?_, hapicount.trans hs.apicount, hs.owned, hs.coherent⟩
  intro a x hx
  have hmem : (Session.exec b.world (.valueSet client index value freeValue)).store.mem =
      Function.update b.world.store.mem client
        (some (ctxClientValueSet index value freeValue c).1) :=
    (modify_spec hs.world.wf hc _ (ctxClientValueSet_frame index value freeValue c).1).2
  rw [hapicount]
  rw [hmem, Function.update_apply] at hx
  split at hx
  · cases hx
    rw [ctxClientValueSet]
    split
    · rw [List.length_set, hs.sized client c hc]
    · exact hs.sized client c hc
  · exact hs.sized a x hx

end AfbBinder.Apis
