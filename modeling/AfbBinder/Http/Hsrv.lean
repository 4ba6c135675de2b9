import AfbBinder.Lib.Arrange
import AfbBinder.Lib.Bytes

/-!
# The HTTP server and its handlers

The registration of handlers in `afb-hsrv.c`, the removal of a prefix from the tail of a
request in `afb-hreq.c` and the search of a handler by `access_handler`.  The requests
that fail before the search are left out.
-/

namespace AfbBinder.Http

open Lib

def slash : UInt8 := 47

/-- `struct afb_hreq`: the tail has its length, `reply` is the status of the answer when
there is one, `rest` is what only the handlers read. -/
structure Hreq (σ : Type) where
  url : CString
  tail : Bytes
  scanned : Bool
  suspended : Bool
  reply : Option Nat
  rest : σ

/-- The function of a handler with its data: whether it accepts the request, and what it
makes of it.  It does not change the URL, and does not answer a request that it declines. -/
structure Serve (σ : Type) where
  run : Hreq σ → Bool × Hreq σ
  url : ∀ hreq, (run hreq).2.url = hreq.url
  declines : ∀ hreq, (run hreq).1 = false → (run hreq).2.reply = hreq.reply

/-- `struct hsrv_handler` -/
structure HsrvHandler (σ : Type) where
  pfx : CString
  length : Nat
  handler : Serve σ
  priority : Int

variable {σ : Type}

/-! ## Registering -/

/-- `while (length && prefix[length - 1] == '/') length--` -/
def withoutSlashes (pfx : Bytes) : Nat → Nat
  | 0 => 0
  | length + 1 => if pfx[length]? = some slash then withoutSlashes pfx length else length + 1

/-- The arguments of `afb_hsrv_add_handler`, and whether the allocation succeeds. -/
structure Registration (σ : Type) where
  pfx : CString
  handler : Serve σ
  priority : Int
  allocated : Bool

/-- The link that `new_handler` makes. -/
def Registration.link (reg : Registration σ) : HsrvHandler σ where
  pfx := reg.pfx
  length := withoutSlashes reg.pfx.bytes reg.pfx.bytes.length
  handler := reg.handler
  priority := reg.priority

/-- The test of the loop of `new_handler` that looks for the place of the link. -/
def HsrvHandler.follows (link iter : HsrvHandler σ) : Bool :=
  link.priority < iter.priority || (link.priority == iter.priority && link.length ≤ iter.length)

/-- `new_handler`, `none` standing for NULL. -/
def newHandler (head : List (HsrvHandler σ)) (reg : Registration σ) :
    Option (List (HsrvHandler σ)) :=
  if reg.allocated then some (place reg.link.follows reg.link head) else none

/-- `afb_hsrv_add_handler` -/
def afbHsrvAddHandler (handlers : List (HsrvHandler σ)) (reg : Registration σ) :
    Bool × List (HsrvHandler σ) :=
  match newHandler handlers reg with
  | none => (false, handlers)
  | some head => (true, head)

/-- The handlers after registrations on a new server. -/
def handlersOf (regs : List (Registration σ)) : List (HsrvHandler σ) :=
  regs.foldl (fun handlers reg => (afbHsrvAddHandler handlers reg).2) []

/-! ## Serving -/

/-- `while (length < lentail && tail[length + 1] == '/') length++`, the test at `lentail`
being false on the final NUL. -/
def skipSlashes (tail : Bytes) : Nat → Nat → Nat
  | 0, length => length
  | turns + 1, length =>
      if length < tail.length ∧ tail[length + 1]? = some slash then
        skipSlashes tail turns (length + 1)
      else length

/-- `afb_hreq_unprefix`, `none` standing for 0. -/
def afbHreqUnprefix (pfx : Bytes) (length : Nat) (tail : Bytes) : Option Bytes :=
  if length > tail.length ∨ (tail[length]? ≠ none ∧ tail[length]? ≠ some slash) ∨
      strncaseeq length pfx tail = false then none
  else some (tail.drop (skipSlashes tail tail.length length))

/-- `afb_hreq_reply_error` -/
def afbHreqReplyError (status : Nat) (hreq : Hreq σ) : Hreq σ :=
  if hreq.reply.isSome then hreq
  else { hreq with reply := some status, suspended := false }

/-- A call of a handler: the tail it was given and whether it accepted the request. -/
structure HandlerCall (σ : Type) where
  handler : HsrvHandler σ
  tail : Bytes
  accepted : Bool

/-- The loop of `access_handler` over the handlers. -/
def searchHandler : List (HsrvHandler σ) → Hreq σ → List (HandlerCall σ) × Bool × Hreq σ
  | [], hreq => ([], false, hreq)
  | iter :: next, hreq =>
      match afbHreqUnprefix iter.pfx.bytes iter.length hreq.tail with
      | none => searchHandler next hreq
      | some tail =>
          let (accepted, hreq) := iter.handler.run { hreq with tail := tail }
          if accepted then ([⟨iter, tail, true⟩], true, hreq)
          else
            let (calls, out) := searchHandler next { hreq with tail := hreq.url.bytes }
            (⟨iter, tail, false⟩ :: calls, out)

/-- `MHD_suspend_connection`, when there is no answer yet. -/
def suspend (hreq : Hreq σ) : Hreq σ :=
  if hreq.reply.isNone ∧ !hreq.suspended then { hreq with suspended := true } else hreq

/-- The end of `access_handler`, when the request is complete. -/
def accessHandler (handlers : List (HsrvHandler σ)) (hreq : Hreq σ) :
    List (HandlerCall σ) × Hreq σ :=
  if hreq.scanned then ([], suspend hreq)
  else
    let (calls, accepted, hreq) := searchHandler handlers { hreq with scanned := true }
    if accepted then (calls, suspend hreq) else (calls, afbHreqReplyError 404 hreq)

/-- A request as `access_handler` initialises it. -/
def newRequest (url : CString) (rest : σ) : Hreq σ :=
  { url := url, tail := url.bytes, scanned := false, suspended := false, reply := none, rest := rest }

end AfbBinder.Http
