import AfbBinder.Session.Effects

/-!
# Contexts of requests

The model of `afb-context.c`: a request's view of its session and the changes it
asks for, which are applied when the request ends.
-/

namespace AfbBinder.Session

open Lib

/-- `struct afb_context`; the two levels of assurance have three bits. -/
structure Context where
  session : Option Nat
  created : Bool
  validated : Bool
  invalidated : Bool
  refreshing : Bool
  refreshed : Bool
  closing : Bool
  closed : Bool
  loaIn : Nat
  loaOut : Nat
  loaChanging : Bool
  loaChanged : Bool
  apiIndex : Int
deriving DecidableEq, Repr

/-- The context for `client` with all its flags cleared, before the check of the token. -/
def resetContext (client : Nat) (loa : Nat) : Context :=
  { session := some client, created := false, validated := false, invalidated := false,
    refreshing := false, refreshed := false, closing := false, closed := false,
    loaIn := loa % 8, loaOut := 0, loaChanging := false, loaChanged := false, apiIndex := -1 }

/-- `init_context` for the session `c` allocated at `client`. -/
def initContext (client : Nat) (c : ClientCtx) (token : Option Bytes) (now : Int) : Context :=
  match token with
  | none => resetContext client c.loa
  | some t =>
      if ctxTokenCheck t now c then { resetContext client c.loa with validated := true }
      else { resetContext client c.loa with invalidated := true }

/-- `afb_context_init`; `none` when the session is not allocated. -/
def afbContextInit (client : Nat) (token : Option Bytes) (now : Int) (s : Store) :
    Option (Context × Store) :=
  match (ctxClientAddRef client s).mem client with
  | none => none
  | some c => some (initContext client c token now, ctxClientAddRef client s)

/-- `afb_context_connect`; without a context when no session could be made. -/
def afbContextConnect (allocated : Bool) (generated : Bytes) (uuid token : Option Bytes)
    (now : Int) (s : Store) : Option Context × Store :=
  match ctxClientGetSession allocated generated uuid now s with
  | (.error _, _, s') => (none, s')
  | (.ok client, created, s') =>
      match s'.mem client with
      | none => (none, s')
      | some c => (some { initContext client c token now with created := created }, s')

/-- `afb_context_disconnect`, `generated` being the token that may be made. -/
def afbContextDisconnect (generated : Bytes) (now : Int) (context : Context) (s : Store) :
    Context × Store :=
  match context.session with
  | none => (context, s)
  | some client =>
      let refresh := context.refreshing && !context.refreshed
      let change := context.loaChanging && !context.loaChanged
      let close := context.closing && !context.closed
      let s₁ := if refresh then s.modify client fun c => (ctxTokenNew s.timeBits generated now c, [])
        else s
      let s₂ := if change then s₁.modify client fun c => (ctxClientSetLOA context.loaOut c, [])
        else s₁
      let s₃ := if close then ctxClientClose client s₂ else s₂
      ({ context with
          refreshed := context.refreshed || refresh
          loaChanged := context.loaChanged || change
          closed := context.closed || close
          session := none },
        ctxClientUnref client s₃)

/-- `afb_context_sent_token`: the token to send, made when it is not yet. -/
def afbContextSentToken (generated : Bytes) (now : Int) (context : Context) (s : Store) :
    Option Bytes × Context × Store :=
  match context.session with
  | none => (none, context, s)
  | some client =>
      if context.closing || !context.refreshing then (none, context, s)
      else
        let s' := if context.refreshed then s
          else s.modify client fun c => (ctxTokenNew s.timeBits generated now c, [])
        ((s'.mem client).map ClientCtx.token, { context with refreshed := true }, s')

/-- The context after `afb_context_sent_token`. -/
def Context.sentToken (context : Context) : Context :=
  { context with
    refreshed := context.refreshed ||
      context.session.isSome && !context.closing && context.refreshing }

theorem afbContextSentToken_context (generated : Bytes) (now : Int) (context : Context)
    (s : Store) : (afbContextSentToken generated now context s).2.1 = context.sentToken := by
  obtain ⟨session, _, _, _, refreshing, _, closing, _, _, _, _, _, _⟩ := context
  cases session with
  | none => simp [afbContextSentToken, Context.sentToken]
  | some client =>
      cases closing with
      | true => simp [afbContextSentToken, Context.sentToken]
      | false =>
          cases refreshing with
          | true => simp [afbContextSentToken, Context.sentToken]
          | false => simp [afbContextSentToken, Context.sentToken]

def afbContextClose (context : Context) : Context := { context with closing := true }

/-- `afb_context_refresh`, whose assertion is that the context is validated. -/
def afbContextRefresh (context : Context) : Option Context :=
  if context.validated then some { context with refreshing := true } else none

def afbContextCheck (context : Context) : Bool := context.validated

def afbContextCheckLoa (context : Context) (loa : Nat) : Bool := context.loaIn ≥ loa

def afbContextChangeLoa (loa : Nat) (context : Context) : Context × Bool :=
  if !context.validated || decide (7 < loa) then (context, false)
  else if loa = context.loaIn ∧ context.loaChanged = false then
    ({ context with loaChanging := false }, true)
  else
    ({ context with loaOut := loa % 8, loaChanging := true, loaChanged := false }, true)

/-! ## The flag `validated` -/

theorem initContext_session (client : Nat) (c : ClientCtx) (token : Option Bytes) (now : Int) :
    (initContext client c token now).session = some client := by
  unfold initContext
  split
  · rfl
  · split <;> rfl

theorem initContext_apiIndex (client : Nat) (c : ClientCtx) (token : Option Bytes) (now : Int) :
    (initContext client c token now).apiIndex = -1 := by
  unfold initContext
  split
  · rfl
  · split
    · rfl
    · rfl

/-- `init_context` validates only with a token and only on an active session. -/
theorem active_of_initContext {client : Nat} {c : ClientCtx} {token : Option Bytes} {now : Int}
    (h : (initContext client c token now).validated = true) : ctxIsActive c now = true := by
  unfold initContext at h
  split at h
  · simp [resetContext] at h
  · rename_i t
    split at h
    · rename_i hcheck
      simp only [ctxTokenCheck, Bool.and_eq_true] at hcheck
      exact hcheck.1
    · simp [resetContext] at h

/-- A token either validates or invalidates. -/
theorem initContext_some_token (client : Nat) (c : ClientCtx) (token : Bytes) (now : Int) :
    (initContext client c (some token) now).invalidated =
      !(initContext client c (some token) now).validated := by
  unfold initContext
  dsimp only
  split <;> simp [resetContext]

end AfbBinder.Session
