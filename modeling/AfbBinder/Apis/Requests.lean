import AfbBinder.Apis.Registry
import AfbBinder.Session.Carry

/-!
# The verbs in progress

Each request has a context on a session, and so has each subcall made for it: a copy of the
context of the verb that makes it.  The verbs store one value for each session through the
index that `afb_apis_call` gives to their context.
-/

namespace AfbBinder.Apis

open Lib Session

/-! ## The values of a verb -/

/-- The assertions of `ctxClientValueGet` and `ctxClientValueSet` on the index. -/
def InRange (context : Context) (s : Store) : Prop :=
  0 ≤ context.apiIndex ∧ context.apiIndex < s.apicount

instance (context : Context) (s : Store) : Decidable (InRange context s) :=
  inferInstanceAs (Decidable (_ ∧ _))

/-- `afb_context_get`; `none` when an assertion fails. -/
def afbContextGet (context : Context) (s : Store) : Option (Option Nat) := do
  let client ← context.session
  let c ← s.mem client
  if InRange context s then some (ctxClientValueGet context.apiIndex.toNat c) else none

/-- `afb_context_set`; `none` when an assertion fails. -/
def afbContextSet (context : Context) (value freeValue : Option Nat) (s : Store) :
    Option Store := do
  let client ← context.session
  let _ ← s.mem client
  if InRange context s then
    some (s.modify client (ctxClientValueSet context.apiIndex.toNat value freeValue))
  else none

/-! ## Requests -/

/-- The context given to a verb and the API of the verb, if one is called. -/
structure Verb where
  context : Context
  api : Option ApiDesc
deriving DecidableEq

/-- The sessions and, for each request, its own verb and then those of its subcalls.  A request
that is over has none. -/
structure Binder where
  world : World
  requests : List (List Verb)

def Binder.verb (b : Binder) (r n : Nat) : Option Verb := b.requests[r]?.bind fun verbs => verbs[n]?

/-- The session of a request. -/
def sessionOf (verbs : List Verb) : Option Nat := verbs.head?.bind fun verb => verb.context.session

/-- The references that the requests have on a session. -/
def Binder.owning (b : Binder) (client : Nat) : Nat :=
  (b.requests.map sessionOf).count (some client)

def Binder.init (apis : Registry) (maxSessionCount : Nat) (timeout : Int) (initok : Bytes)
    (timeBits : Nat) (now : Int) : Binder where
  world := World.init maxSessionCount timeout initok (afbApisCount apis) timeBits now
  requests := []

/-! ## The actions -/

/-- A request is connected by its session's text, or made on a session; it is called and its
verbs make subcalls, change the flags of their contexts and store values, until its last
reference is released. -/
inductive Action where
  | session (act : Session.Action)
  | connect (allocated : Bool) (generated : Bytes) (uuid token : Option Bytes)
  | init (client : Nat) (token : Option Bytes)
  | flags (r n : Nat) (flags : Context)
  | call (r : Nat) (api : Bytes)
  | subcall (r n : Nat) (api : Bytes)
  | set (r n : Nat) (value freeValue : Option Nat)
  | finish (r : Nat) (generated : Bytes)

/-- The context with other flags, as the checks, the demands and the protocols change them. -/
def withFlags (context flags : Context) : Context :=
  { flags with session := context.session, apiIndex := context.apiIndex }

def connect (allocated : Bool) (generated : Bytes) (uuid token : Option Bytes) (b : Binder) :
    Binder :=
  let made := afbContextConnect allocated generated uuid token b.world.now b.world.store
  let session := ctxClientGetSession allocated generated uuid b.world.now b.world.store
  { world := { b.world with store := made.2, held := grant b.world.held session.1 }
    requests := match made.1 with
      | none => b.requests
      | some context => b.requests ++ [[⟨context, none⟩]] }

def init (client : Nat) (token : Option Bytes) (b : Binder) : Option Binder :=
  (afbContextInit client token b.world.now b.world.store).map fun made =>
    { world := { b.world with store := made.2, held := grant b.world.held (.ok client) }
      requests := b.requests ++ [[⟨made.1, none⟩]] }

/-- Changes the verbs of the request `r` for what its verb `n` does. -/
def Binder.onVerb (b : Binder) (r n : Nat) (f : List Verb → Verb → Option (List Verb)) :
    Option Binder := do
  let verbs ← b.requests[r]?
  let verb ← verbs[n]?
  let verbs ← f verbs verb
  some { b with requests := b.requests.set r verbs }

/-- `afb_apis_call` for the request itself, once. -/
def call (apis : Registry) (r : Nat) (api : Bytes) (b : Binder) : Option Binder :=
  b.onVerb r 0 fun verbs verb =>
    if verb.api.isSome then none
    else
      match afbApisCall apis verb.context api with
      | .error _ => some verbs
      | .ok (a, context) => some (verbs.set 0 ⟨context, some a⟩)

/-- `afb_subcall`, when there is memory for it: the call is made with a copy of the context. -/
def subcall (apis : Registry) (r n : Nat) (api : Bytes) (b : Binder) : Option Binder :=
  b.onVerb r n fun verbs verb =>
    match afbApisCall apis verb.context api with
    | .error _ => some verbs
    | .ok (a, context) => some (verbs ++ [⟨context, some a⟩])

def changeFlags (r n : Nat) (flags : Context) (b : Binder) : Option Binder :=
  b.onVerb r n fun verbs verb =>
    some (verbs.set n { verb with context := withFlags verb.context flags })

/-- `afb_context_disconnect` for the request, when no subcall refers to it. -/
def finish (r : Nat) (generated : Bytes) (b : Binder) : Option Binder := do
  let verb ← b.verb r 0
  let client ← verb.context.session
  some
    { world :=
        { b.world with
          store := (afbContextDisconnect generated b.world.now verb.context b.world.store).2
          held := Function.update b.world.held client (b.world.held client - 1) }
      requests := b.requests.set r [] }

def exec (apis : Registry) (b : Binder) : Action → Option Binder
  | .session act => some { b with world := Session.exec b.world act }
  | .connect allocated generated uuid token => some (connect allocated generated uuid token b)
  | .init client token => init client token b
  | .flags r n flags => changeFlags r n flags b
  | .call r api => call apis r api b
  | .subcall r n api => subcall apis r n api b
  | .set r n value freeValue => do
      let verb ← b.verb r n
      let store ← afbContextSet verb.context value freeValue b.world.store
      some { b with world := { b.world with store := store } }
  | .finish r generated => finish r generated b

/-- The values of the sessions are stored by the verbs only, and the references of the requests
are released by `finish` only. -/
def Allowed (b : Binder) : Action → Prop
  | .session act => Session.Allowed b.world act ∧
      (∀ a index value freeValue, act ≠ .valueSet a index value freeValue) ∧
      ∀ client, act = .unref client → b.owning client < b.world.held client
  | .connect _ generated _ _ => Generates generated b.world.store
  | _ => True

def Step (apis : Registry) (b : Binder) (act : Action) (b' : Binder) : Prop :=
  Allowed b act ∧ exec apis b act = some b'

end AfbBinder.Apis
