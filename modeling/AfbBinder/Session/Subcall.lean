import AfbBinder.Session.Context

/-!
# Subcalls and the session

A verb is called after `call_check` of `afb-api-so.c`.  Through `afb_subcall` it works on
a copy of the context of the request that calls it; what it asks for its session goes to
the original request, and its reply gives back one flag of the copy.
-/

namespace AfbBinder.Session

/-! ## The access check -/

def afbSessionCreate : Nat := 1

def afbSessionClose : Nat := 2

def afbSessionRenew : Nat := 4

def afbSessionCheck : Nat := 8

def afbSessionLoaGe : Nat := 16

def afbSessionLoaLe : Nat := 32

def afbSessionLoaEq : Nat := 48

def afbSessionLoaShift : Nat := 6

def afbSessionLoaMask : Nat := 7

/-- The verbs that need a valid token. -/
def afbSessionChecked : Nat :=
  afbSessionCreate ||| afbSessionClose ||| afbSessionRenew ||| afbSessionCheck ||| afbSessionLoaEq

/-- The changes that `call_check` makes for a verb that creates a session. -/
def createSession (stag : Nat) (context : Context) : Option Context :=
  if stag &&& afbSessionCreate ≠ 0 then afbContextRefresh (afbContextChangeLoa 1 context).1
  else some context

def renewSession (stag : Nat) (context : Context) : Option Context :=
  if stag &&& (afbSessionCreate ||| afbSessionRenew) ≠ 0 then afbContextRefresh context
  else some context

def closeSession (stag : Nat) (context : Context) : Context :=
  if stag &&& afbSessionClose ≠ 0 then afbContextClose (afbContextChangeLoa 0 context).1
  else context

/-- The two tests of `call_check` on the level of assurance. -/
def checkLOA (stag : Nat) (context : Context) : Option String :=
  let loa := stag >>> afbSessionLoaShift &&& afbSessionLoaMask
  if stag &&& afbSessionLoaGe ≠ 0 ∧ afbContextCheckLoa context loa = false then
    some "invalid LOA"
  else if stag &&& afbSessionLoaLe ≠ 0 ∧ afbContextCheckLoa context (loa + 1) = true then
    some "invalid LOA"
  else none

/-- `call_check`, with the info of the failure that it replies; `none` when an assertion
fails. -/
def callCheck (stag : Nat) (context : Context) : Option (Option String × Context) :=
  if stag &&& afbSessionChecked ≠ 0 ∧ afbContextCheck context = false then
    some (some "invalid token's identity", afbContextClose context)
  else if stag &&& afbSessionCreate ≠ 0 ∧ afbContextCheckLoa context 1 = true then
    some (some "invalid creation state", context)
  else do
    let context ← createSession stag context
    let context ← renewSession stag context
    let context := closeSession stag context
    some (checkLOA stag context, context)

/-! ## The verbs in progress -/

/-- What the number `n` stands for in a list whose last element is the first that was
numbered, `a` having the number 0. -/
def numbered {α : Type} (a : α) (n : Nat) : List α → α
  | [] => a
  | b :: rest => if n = rest.length + 1 then b else numbered a n rest

/-- The contexts of an original request, which has the number 0, and of the subcalls made
for it, the last one first.  Each subcall is made by the verb with the number `caller`, whose
context is its `original_context` and whose request is its `req`; `called` tells whether its
verb is called. -/
inductive Calls where
  | original (context : Context)
  | subcall (copy : Context) (caller : Nat) (called : Bool) (calls : Calls)
deriving DecidableEq

namespace Calls

def callers : Calls → List Nat
  | .original _ => []
  | .subcall _ caller _ calls => caller :: calls.callers

def verdicts : Calls → List Bool
  | .original _ => []
  | .subcall _ _ called calls => called :: calls.verdicts

/-- The number of the last subcall. -/
def count : Calls → Nat
  | .original _ => 0
  | .subcall _ _ _ calls => calls.count + 1

def context (n : Nat) : Calls → Context
  | .original context => context
  | .subcall copy _ _ calls => if n = calls.count + 1 then copy else calls.context n

def modify (n : Nat) (f : Context → Context) : Calls → Calls
  | .original context => .original (f context)
  | .subcall copy caller called calls =>
      if n = calls.count + 1 then .subcall (f copy) caller called calls
      else .subcall copy caller called (calls.modify n f)

/-- A demand on the session goes from a subcall to its `req`, down to the original request. -/
def forward (n : Nat) (demand : Context → Context) : Calls → Calls
  | .original context => .original (demand context)
  | .subcall copy caller called calls =>
      .subcall copy caller called
        (calls.forward (if n = calls.count + 1 then caller else n) demand)

end Calls

/-- Whether a verb is called, from what is known of the subcalls. -/
def calledBy (n : Nat) (verdicts : List Bool) : Bool :=
  n ≤ verdicts.length && numbered true n verdicts

/-! ## Subcalls -/

/-- What a verb does about its session: it calls another verb, demands to close the session or
to change its level of assurance, or replies.  In `sentToken` the original request replies with
the token of its session, as an HTTP request does on success and failure and a request of a
JSON websocket in all its replies; in `reply 0` it replies without a token. -/
inductive Act where
  | subcall (n stag : Nat)
  | sessionClose (n : Nat)
  | sessionSetLOA (n loa : Nat)
  | reply (n : Nat)
  | sentToken
deriving DecidableEq

/-- The number of the acting verb. -/
def Act.verb : Act → Nat
  | .subcall n _ => n
  | .sessionClose n => n
  | .sessionSetLOA n _ => n
  | .reply n => n
  | .sentToken => 0

/-- `subcall_session_close`, and `afb_context_close` for the original request. -/
def subcallSessionClose (n : Nat) (calls : Calls) : Calls := calls.forward n afbContextClose

/-- `subcall_session_set_LOA`, and `afb_context_change_loa` for the original request. -/
def subcallSessionSetLOA (n loa : Nat) (calls : Calls) : Calls :=
  calls.forward n fun context => (afbContextChangeLoa loa context).1

/-- `subcall_emit`; a reply of the original request without a token changes no context. -/
def subcallEmit (n : Nat) (calls : Calls) : Calls :=
  if n ≠ 0 ∧ (calls.context n).refreshing = true then
    calls.modify (numbered 0 n calls.callers) fun original => { original with refreshing := true }
  else calls

/-- `afb_subcall` of a verb that exists, when there is memory for it: the check is made on the
copy of the context, and replies when it refuses. -/
def afbSubcall (n stag : Nat) (calls : Calls) : Option Calls := do
  let (refused, copy) ← callCheck stag (calls.context n)
  let calls := Calls.subcall copy n refused.isNone calls
  some (if refused.isNone then calls else subcallEmit calls.count calls)

def Act.perform : Act → Calls → Option Calls
  | .subcall n stag, calls => afbSubcall n stag calls
  | .sessionClose n, calls => some (subcallSessionClose n calls)
  | .sessionSetLOA n loa, calls => some (subcallSessionSetLOA n loa calls)
  | .reply n, calls => some (subcallEmit n calls)
  | .sentToken, calls => some (calls.modify 0 Context.sentToken)

/-- The acts of the verbs in progress, in any order; `none` when a verb acts that is not
called, or when an assertion fails. -/
def runActs : List Act → Calls → Option Calls
  | [], calls => some calls
  | act :: acts, calls =>
      if calledBy act.verb calls.verdicts then (act.perform calls).bind (runActs acts) else none

/-- The context of the original request when all verbs work on it, and whether they are
called. -/
structure Direct where
  context : Context
  verdicts : List Bool
deriving DecidableEq

def Act.performDirect : Act → Direct → Option Direct
  | .subcall _ stag, direct => do
      let (refused, context) ← callCheck stag direct.context
      some ⟨context, refused.isNone :: direct.verdicts⟩
  | .sessionClose _, direct => some { direct with context := afbContextClose direct.context }
  | .sessionSetLOA _ loa, direct =>
      some { direct with context := (afbContextChangeLoa loa direct.context).1 }
  | .reply _, direct => some direct
  | .sentToken, direct => some { direct with context := direct.context.sentToken }

/-- The same acts as if the checks and the verbs ran on the original context. -/
def runDirect : List Act → Direct → Option Direct
  | [], direct => some direct
  | act :: acts, direct =>
      if calledBy act.verb direct.verdicts then (act.performDirect direct).bind (runDirect acts)
      else none

/-! ## Pending changes -/

/-- The changes of the session that `afb_context_disconnect` makes. -/
structure Pending where
  refresh : Bool
  close : Bool
  loa : Option Nat
deriving DecidableEq

def Context.pending (context : Context) : Pending where
  refresh := context.refreshing && !context.refreshed
  close := context.closing && !context.closed
  loa := if context.loaChanging && !context.loaChanged then some context.loaOut else none

/-- The session is changed as the pending changes tell. -/
theorem afbContextDisconnect_pending {context context' : Context}
    (hsession : context'.session = context.session) (hpending : context'.pending = context.pending)
    (generated : Lib.Bytes) (now : Int) (s : Store) :
    (afbContextDisconnect generated now context' s).2 =
      (afbContextDisconnect generated now context s).2 := by
  simp only [Context.pending, Pending.mk.injEq] at hpending
  obtain ⟨hrefresh, hclose, hloa⟩ := hpending
  rw [afbContextDisconnect, afbContextDisconnect, hsession]
  cases context.session with
  | none => rfl
  | some client =>
      simp only [hrefresh, hclose]
      cases hchange : context.loaChanging && !context.loaChanged with
      | false =>
          cases hchange' : context'.loaChanging && !context'.loaChanged with
          | false => rfl
          | true => simp [hchange, hchange'] at hloa
      | true =>
          cases hchange' : context'.loaChanging && !context'.loaChanged with
          | false => simp [hchange, hchange'] at hloa
          | true =>
              rw [hchange, hchange', if_pos rfl, if_pos rfl, Option.some.injEq] at hloa
              simp only [hloa]

end AfbBinder.Session
