import AfbBinder.Lib.Bytes
import AfbBinder.Lib.Slots
import Mathlib.Algebra.Group.Int.Defs

/-!
# The session store

The model of `session.c`.  A context is identified by its allocation, so an
identifier is never used again after the context is freed; `mem` holds the
contexts that are allocated and `slots` is the array `sessions.store`, which
refers to them.  The calls of the release functions of the stored values are
logged in `released`.  `timeBits` is the width of the signed `time_t`, on which the
sums wrap.  The references of a context are unbounded: each is held by an object that
is allocated, and fewer than `2 ^ 32` are.
-/

namespace AfbBinder.Session

open Lib

/-- `struct client_value`, `none` standing for NULL. -/
structure ClientValue where
  value : Option Nat
  freeValue : Option Nat
deriving DecidableEq, Repr

structure Cookie where
  key : Nat
  value : Option Nat
  freeValue : Option Nat
deriving DecidableEq, Repr

/-- `struct AFB_clientCtx`. -/
structure ClientCtx where
  refcount : Nat
  loa : Nat
  timeout : Int
  expiration : Int
  access : Int
  uuid : Bytes
  token : Bytes
  values : List ClientValue
  cookies : List Cookie
deriving DecidableEq, Repr

/-- One call `free_value(value)`. -/
structure Release where
  freeValue : Nat
  value : Nat
deriving DecidableEq, Repr

inductive Errno where
  | ENOMEM
  | EINVAL
  | EEXIST
deriving DecidableEq, Repr

/-- The static variable `sessions` and the heap of contexts. -/
structure Store where
  mem : Nat → Option ClientCtx
  next : Nat
  slots : List (Option Nat)
  count : Int
  timeout : Int
  apicount : Nat
  initok : Bytes
  timeBits : Nat
  released : List Release

/-- `ctxStoreInit`, with the token already chosen. -/
def ctxStoreInit (maxSessionCount : Nat) (timeout : Int) (initok : Bytes) (contextCount : Nat)
    (timeBits : Nat) : Store :=
  { mem := fun _ => none, next := 0, slots := List.replicate maxSessionCount none, count := 0,
    timeout := timeout, apicount := contextCount, initok := initok, timeBits := timeBits,
    released := [] }

/-! ## Values and cookies -/

/-- What `ctxClientValueSet` and `ctxClientCookieSet` release when `value` replaces `prev`. -/
def supersede (prev : Option Nat) (freeValue : Option Nat) (value : Option Nat) : List Release :=
  match prev, freeValue with
  | some v, some f => if prev ≠ value then [⟨f, v⟩] else []
  | _, _ => []

def ctxClientValueGet (index : Nat) (c : ClientCtx) : Option Nat :=
  match c.values[index]? with
  | some v => v.value
  | none => none

def ctxClientValueSet (index : Nat) (value freeValue : Option Nat) (c : ClientCtx) :
    ClientCtx × List Release :=
  match c.values[index]? with
  | some prev =>
      ({ c with values := c.values.set index ⟨value, freeValue⟩ },
        supersede prev.value prev.freeValue value)
  | none => (c, [])

/-- Replaces the cookie of `key` when there is one. -/
def cookieReplace (key : Nat) (value freeValue : Option Nat) :
    List Cookie → Option (List Cookie × List Release)
  | [] => none
  | cookie :: rest =>
      if cookie.key = key then
        some (⟨key, value, freeValue⟩ :: rest, supersede cookie.value cookie.freeValue value)
      else
        match cookieReplace key value freeValue rest with
        | none => none
        | some (cookies, released) => some (cookie :: cookies, released)

/-- `ctxClientCookieSet`; `allocated` is the result of `malloc`. -/
def ctxClientCookieSet (allocated : Bool) (key : Nat) (value freeValue : Option Nat)
    (c : ClientCtx) : ClientCtx × List Release :=
  match cookieReplace key value freeValue c.cookies with
  | some (cookies, released) => ({ c with cookies := cookies }, released)
  | none =>
      if allocated then ({ c with cookies := ⟨key, value, freeValue⟩ :: c.cookies }, [])
      else (c, [])

/-- The loop of `ctxUuidFreeCB` over the value slots. -/
def clearValues : List Nat → ClientCtx → ClientCtx × List Release
  | [], c => (c, [])
  | index :: rest, c =>
      let (c', released) := ctxClientValueSet index none none c
      let (c'', others) := clearValues rest c'
      (c'', released ++ others)

def Cookie.release (cookie : Cookie) : List Release :=
  match cookie.value, cookie.freeValue with
  | some v, some f => [⟨f, v⟩]
  | _, _ => []

def ctxUuidFreeCB (apicount : Nat) (c : ClientCtx) : ClientCtx × List Release :=
  let (c', released) := clearValues (List.range apicount) c
  ({ c' with cookies := [] }, released ++ c'.cookies.flatMap Cookie.release)

/-! ## The slots -/

/-- The test of one slot by `ctxStoreSearch`. -/
def slotMatches (uuid : Bytes) (s : Store) : Option Nat → Option Nat
  | none => none
  | some client =>
      match s.mem client with
      | none => none
      | some c => if c.uuid = uuid then some client else none

def ctxStoreSearch (uuid : Bytes) (s : Store) : Option Nat :=
  s.slots.findSome? (slotMatches uuid s)

def ctxStoreDel (client : Nat) (s : Store) : Store × Bool :=
  match Slots.clear client s.slots with
  | some slots => ({ s with slots := slots, count := s.count - 1 }, true)
  | none => (s, false)

def ctxStoreAdd (client : Nat) (s : Store) : Option Store :=
  match Slots.fill client s.slots with
  | some slots => some { s with slots := slots, count := s.count + 1 }
  | none => none

def ctxStoreTooOld (c : ClientCtx) (now : Int) : Bool := c.expiration < now

def ctxIsActive (c : ClientCtx) (now : Int) : Bool := c.uuid ≠ [] ∧ c.expiration ≥ now

/-- Writes the context back to memory. -/
def Store.put (s : Store) (client : Nat) (c : ClientCtx) : Store :=
  { s with mem := Function.update s.mem client (some c) }

/-- `ctxStoreDel (clientCtx); free(clientCtx);` -/
def ctxDelete (client : Nat) (s : Store) : Store :=
  let s' := (ctxStoreDel client s).1
  { s' with mem := Function.update s'.mem client none }

/-! ## The operations -/

def ctxClientClose (client : Nat) (s : Store) : Store :=
  match s.mem client with
  | none => s
  | some c =>
      if c.uuid = [] then s
      else
        let freed := ctxUuidFreeCB s.apicount { c with uuid := [] }
        let s' := { s.put client freed.1 with released := s.released ++ freed.2 }
        if c.refcount = 0 then ctxDelete client s' else s'

def ctxClientAddRef (client : Nat) (s : Store) : Store :=
  match s.mem client with
  | none => s
  | some c => s.put client { c with refcount := c.refcount + 1 }

def ctxClientUnref (client : Nat) (s : Store) : Store :=
  match s.mem client with
  | none => s
  | some c =>
      let s' := s.put client { c with refcount := c.refcount - 1 }
      if c.refcount - 1 = 0 ∧ c.uuid = [] then ctxDelete client s' else s'

/-- One turn of the loop of `ctxStoreCleanUp`. -/
def cleanUpSlot (now : Int) (s : Store) (idx : Nat) : Store :=
  match s.slots[idx]? with
  | some (some client) =>
      match s.mem client with
      | some c => if ctxStoreTooOld c now then ctxClientClose client s else s
      | none => s
  | _ => s

def ctxStoreCleanUp (now : Int) (s : Store) : Store :=
  (List.range s.slots.length).foldl (cleanUpSlot now) s

/-- The value of a signed integer of `bits` bits after a conversion. -/
def toSigned (bits : Nat) (value : Int) : Int := value.bmod (2 ^ bits)

/-- The `expiration` set by `new_context`: all ones when the timeout is zero, halved
as an `unsigned long long` when that is negative. -/
def newExpiration (timeBits : Nat) (timeout now : Int) : Int :=
  if timeout ≠ 0 then toSigned timeBits (now + timeout)
  else
    let ones := toSigned timeBits (-1)
    if ones < 0 then toSigned timeBits (ones % 2 ^ 64 / 2) else ones

/-- `sizeof clientCtx->uuid`. -/
def uuidSize : Nat := 37

/-- The context that `new_context` fills, `generated` being the text that
`uuid_generate` would give. -/
def freshCtx (generated : Bytes) (uuid : Option Bytes) (timeout now : Int) (s : Store) :
    ClientCtx :=
  { refcount := 1, loa := 0, timeout := timeout,
    expiration := newExpiration s.timeBits timeout now, access := now,
    uuid := uuid.getD generated, token := s.initok,
    values := List.replicate s.apicount ⟨none, none⟩, cookies := [] }

/-- The test `strlen(uuid) >= sizeof clientCtx->uuid`. -/
def uuidTooLong (uuid : Option Bytes) : Bool :=
  match uuid with
  | none => false
  | some u => uuidSize ≤ u.length

/-- `new_context`; `allocated` is the result of `calloc`. -/
def newContext (allocated : Bool) (generated : Bytes) (uuid : Option Bytes) (timeout now : Int)
    (s : Store) : Except Errno Nat × Store :=
  if !allocated then (.error .ENOMEM, s)
  else if uuidTooLong uuid then (.error .EINVAL, s)
  else
    match ctxStoreAdd s.next s with
    | none => (.error .ENOMEM, s)
    | some s' =>
        (.ok s.next,
          { s'.put s.next (freshCtx generated uuid timeout now s) with next := s.next + 1 })

def ctxClientCreate (allocated : Bool) (generated : Bytes) (uuid : Option Bytes) (timeout now : Int)
    (s : Store) : Except Errno Nat × Store :=
  let s' := ctxStoreCleanUp now s
  match uuid.bind (fun u => ctxStoreSearch u s') with
  | some _ => (.error .EEXIST, s')
  | none => newContext allocated generated uuid timeout now s'

/-- `ctxClientGetSession`, with the flag `created`. -/
def ctxClientGetSession (allocated : Bool) (generated : Bytes) (uuid : Option Bytes) (now : Int)
    (s : Store) : Except Errno Nat × Bool × Store :=
  let s' := ctxStoreCleanUp now s
  match uuid.bind (fun u => ctxStoreSearch u s') with
  | some client =>
      match s'.mem client with
      | some c =>
          (.ok client, false, s'.put client { c with access := now, refcount := c.refcount + 1 })
      | none => (.ok client, false, s')
  | none =>
      let made := newContext allocated generated uuid s'.timeout now s'
      (made.1, true, made.2)

/-- `ctxTokenCheck`. -/
def ctxTokenCheck (token : Bytes) (now : Int) (c : ClientCtx) : Bool :=
  ctxIsActive c now && !(decide (c.token ≠ []) && decide (token ≠ c.token))

/-- `ctxTokenNew`, `generated` being the new token. -/
def ctxTokenNew (timeBits : Nat) (generated : Bytes) (now : Int) (c : ClientCtx) : ClientCtx :=
  { c with
    token := generated
    expiration := if c.timeout ≠ 0 then toSigned timeBits (now + c.timeout) else c.expiration }

/-- Applies an operation on one context, logging what it releases. -/
def Store.modify (s : Store) (client : Nat) (f : ClientCtx → ClientCtx × List Release) : Store :=
  match s.mem client with
  | none => s
  | some c => { s.put client (f c).1 with released := s.released ++ (f c).2 }

def ctxClientSetLOA (loa : Nat) (c : ClientCtx) : ClientCtx := { c with loa := loa }

end AfbBinder.Session
