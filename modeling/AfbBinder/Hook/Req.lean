import AfbBinder.Lib.Bytes

/-!
# Hooked requests

The model of `afb-hook.c`: when a hook concerns a request, the verb is given a wrapper of
it, with a count of references of its own.  The hooks only observe, their calls are left
out.  A function gives `none` when it uses a request or a wrapper that is released.
-/

namespace AfbBinder.Hook

open Lib

/-- What a verb replies. -/
inductive Reply (J : Type) where
  | success (obj : Option J) (info : Option CString)
  | fail (status : Option CString) (info : Option CString)
  | send (buffer : Bytes)

/-- What happens to a request, in any thread: the verb uses it, a subcall of it gets its
result, and others take and drop references to it.  `allocated` tells whether there was
memory for the record of a hooked subcall, `traced` whether there was one. -/
inductive Use (J : Type) where
  | addref
  | unref
  | reply (r : Reply J)
  | subcall (allocated : Bool)
  | other
  | result (traced : Bool)
  | hold
  | drop

variable {J : Type}

/-! ## Requests -/

/-- A request behind its interface: the references to it, and the replies it got. -/
structure Req (J : Type) where
  refcount : Nat
  replies : List (Reply J)

/-- A use of the request; the result of a subcall comes while the subcall holds a reference
to the request. -/
def Req.use (req : Req J) (u : Use J) : Option (Req J) :=
  if req.refcount = 0 then none
  else
    match u with
    | .addref | .hold => some { req with refcount := req.refcount + 1 }
    | .unref | .drop => some { req with refcount := req.refcount - 1 }
    | .reply r => some { req with replies := req.replies ++ [r] }
    | .subcall _ | .other | .result _ => some req

def Req.run (req : Req J) : List (Use J) → Option (Req J)
  | [] => some req
  | u :: uses => (req.use u).bind fun req => req.run uses

/-! ## Wrappers -/

/-- The wrapper, by its count of references until it is freed, and the request. -/
structure Hooked (J : Type) where
  tr : Option Nat
  req : Req J

/-- `hook_req_addref` -/
def hookReqAddref (tr : Nat) (req : Req J) : Hooked J := ⟨some (tr + 1), req⟩

/-- `hook_req_unref` -/
def hookReqUnref (tr : Nat) (req : Req J) : Option (Hooked J) := do
  if tr - 1 = 0 then
    let req ← req.use .unref
    some ⟨none, req⟩
  else some ⟨some (tr - 1), req⟩

/-- A reply that drops the reference of the call. -/
def replyAndUnref (r : Reply J) (tr : Nat) (req : Req J) : Option (Hooked J) := do
  let req ← req.use (.reply r)
  hookReqUnref tr req

/-- `req_hook_success` -/
def reqHookSuccess (obj : Option J) (info : Option CString) (tr : Nat) (req : Req J) :
    Option (Hooked J) :=
  replyAndUnref (.success obj info) tr req

/-- `req_hook_fail` -/
def reqHookFail (status info : Option CString) (tr : Nat) (req : Req J) : Option (Hooked J) :=
  replyAndUnref (.fail status info) tr req

/-- `req_hook_send` -/
def reqHookSend (buffer : Bytes) (tr : Nat) (req : Req J) : Option (Hooked J) := do
  let req ← req.use (.reply (.send buffer))
  some ⟨some tr, req⟩

/-- `req_hook_subcall` -/
def reqHookSubcall (allocated : Bool) (tr : Nat) (req : Req J) : Option (Hooked J) := do
  let hooked := if allocated then hookReqAddref tr req else ⟨some tr, req⟩
  let req ← hooked.req.use (.subcall allocated)
  some { hooked with req := req }

/-- `req_hook_subcall_result` -/
def reqHookSubcallResult (tr : Nat) (req : Req J) : Option (Hooked J) := do
  let req ← req.use (.result true)
  hookReqUnref tr req

/-- The other functions of the interface, which only forward. -/
def reqHookOther (tr : Nat) (req : Req J) : Option (Hooked J) := do
  let req ← req.use .other
  some ⟨some tr, req⟩

/-- A use of a hooked request. -/
def Hooked.use (hooked : Hooked J) : Use J → Option (Hooked J)
  | .addref => hooked.tr.map fun tr => hookReqAddref tr hooked.req
  | .unref => hooked.tr.bind fun tr => hookReqUnref tr hooked.req
  | .reply (.success obj info) => hooked.tr.bind fun tr => reqHookSuccess obj info tr hooked.req
  | .reply (.fail status info) => hooked.tr.bind fun tr => reqHookFail status info tr hooked.req
  | .reply (.send buffer) => hooked.tr.bind fun tr => reqHookSend buffer tr hooked.req
  | .subcall allocated => hooked.tr.bind fun tr => reqHookSubcall allocated tr hooked.req
  | .other => hooked.tr.bind fun tr => reqHookOther tr hooked.req
  | .result true => hooked.tr.bind fun tr => reqHookSubcallResult tr hooked.req
  | u => (hooked.req.use u).map fun req => { hooked with req := req }

def Hooked.run (hooked : Hooked J) : List (Use J) → Option (Hooked J)
  | [] => some hooked
  | u :: uses => (hooked.use u).bind fun hooked => hooked.run uses

/-! ## Hooking -/

/-- `struct afb_hook`, as far as it selects requests. -/
structure AfbHook where
  flags : UInt32
  session : Option Nat
  api : Option CString
  verb : Option CString

/-- What selects a request. -/
structure Target where
  session : Nat
  api : Bytes
  verb : Bytes

def afbHookFlagsReqAll : UInt32 := 65535

/-- The test of `afb_hook_req_call`. -/
def AfbHook.concerns (hook : AfbHook) (target : Target) : Bool :=
  hook.flags &&& afbHookFlagsReqAll ≠ 0 && hook.session.all (· = target.session) &&
    hook.api.all (fun api => api.bytes = target.api) &&
    hook.verb.all fun verb => verb.bytes = target.verb

/-- `hook_req_create`, when there is memory. -/
def hookReqCreate (req : Req J) : Option Nat × Req J :=
  (some 1, { req with refcount := req.refcount + 1 })

/-- The loop of `afb_hook_req_call` over the hooks, each with what an allocation gives
there. -/
def afbHookReqCall (target : Target) : List (AfbHook × Bool) → Option Nat × Req J →
    Option Nat × Req J
  | [], out => out
  | (hook, allocated) :: hooks, (tr, req) =>
      if hook.concerns target && tr.isNone && allocated then
        afbHookReqCall target hooks (hookReqCreate req)
      else afbHookReqCall target hooks (tr, req)

/-- What becomes of the request when it is called with hooks. -/
def runHooked (target : Target) (hooks : List (AfbHook × Bool)) (req : Req J)
    (uses : List (Use J)) : Option (Req J) :=
  match afbHookReqCall target hooks (none, req) with
  | (none, req) => req.run uses
  | (some tr, req) => ((Hooked.mk (some tr) req).run uses).map Hooked.req

end AfbBinder.Hook
