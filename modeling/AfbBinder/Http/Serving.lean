import AfbBinder.Http.Handlers
import AfbBinder.Lib.Run

/-!
# The life of the requests

The HTTP library calls `access_handler` and `end_handler` for its connections while it is
run by `run_micro_httpd`.  The bindings reply at any time, from the handlers or later, and
the reply of a suspended request resumes its connection and asks for another run.

Each callback of the library, each reply and each reference taken or dropped is one step, the
steps coming one after the other: `in_run`, `replied`, `suspended` and `refcount` have no lock,
and what two threads do of them at once is not told here.
-/

namespace AfbBinder.Http.Serving

open Lib

/-! ## Methods -/

/-- `enum afb_method` -/
inductive AfbMethod where
  | none
  | get
  | post
  | head
  | connect
  | delete
  | options
  | patch
  | put
  | trace
deriving DecidableEq, Repr

/-- `method[i] & ~' '` -/
def capital (method : CString) (i : Nat) : UInt8 := method.bytes.getD i 0 &&& 223

/-- `get_method` -/
def getMethod (method : CString) : AfbMethod :=
  if capital method 0 = 67 then .connect
  else if capital method 0 = 68 then .delete
  else if capital method 0 = 71 then .get
  else if capital method 0 = 72 then .head
  else if capital method 0 = 79 then .options
  else if capital method 0 = 80 then
    if capital method 1 = 65 then .patch
    else if capital method 1 = 79 then .post
    else if capital method 1 = 85 then .put
    else .none
  else if capital method 0 = 84 then .trace
  else .none

/-- `method &= afb_method_get | afb_method_post` -/
def AfbMethod.served : AfbMethod → Option Method
  | .get => some .get
  | .post => some .post
  | _ => Option.none

/-! ## Connections -/

/-- What is asked of the library for a connection, or told by it. -/
inductive MhdCall where
  | queue (status : Nat)
  | suspend
  | resume
  | completed
deriving DecidableEq, Repr

/-- The state of a connection in the library; `misused` when a call came that its
documentation forbids. -/
structure Library where
  queued : Bool
  suspended : Bool
  ended : Bool
  misused : Bool
deriving DecidableEq, Repr

/-- One response is queued, before the end; suspensions are resumed one by one.  The result of
`MHD_queue_response` is not looked at: the response is taken to be accepted. -/
def Library.note (lib : Library) : MhdCall → Library
  | .queue _ => { lib with queued := true, misused := lib.misused || lib.queued || lib.ended }
  | .suspend => { lib with suspended := true, misused := lib.misused || lib.suspended }
  | .resume => { lib with suspended := false, misused := lib.misused || !lib.suspended }
  | .completed =>
      { lib with ended := true, misused := lib.misused || lib.ended || lib.suspended }

/-- `struct afb_hreq`, without its data. -/
structure Life where
  refcount : Nat
  method : Method
  postform : Bool
  scanned : Bool
  suspended : Bool
  replied : Bool
  upgrade : Bool
deriving DecidableEq, Repr

/-- A connection: `record` tells whether `*recordreq` is set, `hreq` is the request until it
is freed, `holders` counts the references that the bindings have, `websock` is set while the
websocket made on the connection lives. -/
structure Connection where
  record : Bool
  hreq : Option Life
  holders : Nat
  websock : Bool
  lib : Library
deriving DecidableEq, Repr

/-- A connection before its first request is read. -/
def Connection.fresh : Connection := ⟨false, none, 0, false, ⟨false, false, false, false⟩⟩

/-! ## Replies -/

/-- `afb_hreq_reply_v` -/
def afbHreqReplyV (status : Nat) (hreq : Life) : Life × List MhdCall :=
  if hreq.replied then (hreq, [])
  else if hreq.suspended then
    ({ hreq with replied := true, suspended := false }, [.queue status, .resume])
  else ({ hreq with replied := true }, [.queue status])

/-- What a handler does of a request that it accepts. -/
inductive HandlerAct where
  | reply (status : Nat)
  | hold
deriving DecidableEq, Repr

/-- How a handler accepts a request; `check_websocket_upgrade` queues its response by
itself, and `refused` is the status when there is no websocket. -/
inductive Handling where
  | serves (acts : List HandlerAct)
  | switches (refused : Option Nat)
deriving DecidableEq, Repr

/-- What a call of the library changes: the request, the references taken, whether a
websocket is made, and what is asked. -/
structure Result where
  hreq : Option Life
  held : Nat
  websock : Bool
  calls : List MhdCall
deriving DecidableEq, Repr

/-- The acts of a handler, with the references it takes by `afb_hreq_addref`. -/
def serve : List HandlerAct → Life → Life × Nat × List MhdCall
  | [], hreq => (hreq, 0, [])
  | .reply status :: acts, hreq =>
      let (hreq, calls) := afbHreqReplyV status hreq
      let (hreq, held, more) := serve acts hreq
      (hreq, held, calls ++ more)
  | .hold :: acts, hreq =>
      let (hreq, held, calls) := serve acts { hreq with refcount := hreq.refcount + 1 }
      (hreq, held + 1, calls)

/-- `afb_hreq_reply_error` in `access_handler`. -/
def replyError (status : Nat) (hreq : Life) : Result :=
  let (hreq, calls) := afbHreqReplyV status hreq
  ⟨some hreq, 0, false, calls⟩

/-- `MHD_suspend_connection` when there is no answer yet. -/
def suspendUnreplied (hreq : Life) : Life × List MhdCall :=
  if !hreq.replied && !hreq.suspended then ({ hreq with suspended := true }, [.suspend])
  else (hreq, [])

/-! ## The callbacks -/

/-- The arguments of `access_handler` and the results of what it calls: `processed` for
`MHD_post_process` or `afb_hreq_post_add`, `flushed` for `MHD_destroy_post_processor`,
`handling` for the handlers, `none` when they all decline. -/
structure Access where
  method : CString
  contentType : Option CString
  size : Nat
  allocated : Bool
  postproc : Bool
  processed : Bool
  flushed : Bool
  handling : Option Handling

/-- `strcasestr`, as a test. -/
def strcasestr (haystack needle : Bytes) : Bool :=
  haystack.tails.any fun tail => strncaseeq needle.length needle tail

/-- `FORM_CONTENT`, `"multipart/form-data"` -/
def formContent : Bytes :=
  [109, 117, 108, 116, 105, 112, 97, 114, 116, 47, 102, 111, 114, 109, 45, 100, 97, 116, 97]

/-- `JSON_CONTENT`, `"application/json"` -/
def jsonContent : Bytes := [97, 112, 112, 108, 105, 99, 97, 116, 105, 111, 110, 47, 106, 115, 111, 110]

/-- The search of a handler for the request. -/
def handle (handling : Option Handling) (hreq : Life) : Result :=
  match handling with
  | none => replyError 404 hreq
  | some (.serves acts) =>
      let (hreq, held, calls) := serve acts hreq
      let (hreq, more) := suspendUnreplied hreq
      ⟨some hreq, held, false, calls ++ more⟩
  | some (.switches none) =>
      ⟨some { hreq with replied := true, upgrade := true }, 0, true, [.queue 101]⟩
  | some (.switches (some status)) => ⟨some { hreq with replied := true }, 0, false, [.queue status]⟩

/-- The end of `access_handler`, once the data is flushed. -/
def dispatch (input : Access) (hreq : Life) : Result :=
  if hreq.scanned then
    let (hreq, calls) := suspendUnreplied hreq
    ⟨some hreq, 0, false, calls⟩
  else handle input.handling { hreq with scanned := true }

/-- `access_handler` from the processing of further data. -/
def proceed (input : Access) (hreq : Life) : Result :=
  if input.size ≠ 0 then
    if input.processed then ⟨some hreq, 0, false, []⟩ else replyError 500 hreq
  else if hreq.postform then
    if input.flushed then dispatch input { hreq with postform := false }
    else replyError 400 { hreq with postform := false }
  else dispatch input hreq

/-- The init of the post processing. -/
def begin (input : Access) (hreq : Life) : Result :=
  if hreq.method = .post then
    match input.contentType with
    | none => proceed input { hreq with method := .get }
    | some type =>
        if strcasestr type.bytes formContent then
          if input.postproc then ⟨some { hreq with postform := true }, 0, false, []⟩
          else replyError 500 hreq
        else if strcasestr type.bytes jsonContent then ⟨some hreq, 0, false, []⟩
        else replyError 415 hreq
  else proceed input hreq

/-- `access_handler` for a connection whose `*recordreq` is not set. -/
def create (input : Access) : Result :=
  match (getMethod input.method).served with
  | none => ⟨none, 0, false, [.queue 400]⟩
  | some method =>
      if input.allocated then begin input ⟨1, method, false, false, false, false, false⟩
      else ⟨none, 0, false, [.queue 500]⟩

/-- `afb_hreq_unref`, `none` when it is freed. -/
def afbHreqUnref (hreq : Life) : Option Life :=
  if hreq.refcount = 1 then none else some { hreq with refcount := hreq.refcount - 1 }

/-! ## The server -/

/-- `struct afb_hsrv`: `armed` is for the events of `evsrc`, `depth` counts the calls of
`MHD_run` in progress, `woken` has the connections that replies resumed since the last of
them began, `faulted` is set when no memory is there where the code reads it. -/
structure Hsrv where
  inRun : Nat
  armed : Bool
  depth : Nat
  woken : List Nat
  connections : List Connection
  faulted : Bool
deriving DecidableEq, Repr

def Hsrv.init : Hsrv := ⟨0, true, 0, [], [], false⟩

/-- `run_micro_httpd`, up to its call of `MHD_run`. -/
def runMicroHttpd (d : Hsrv) : Hsrv :=
  if d.inRun ≠ 0 then { d with inRun := 2 }
  else { d with armed := false, inRun := 1, depth := d.depth + 1, woken := [] }

/-- `run_micro_httpd`, when `MHD_run` returns. -/
def mhdRunReturns (d : Hsrv) : Hsrv :=
  if d.inRun = 2 then { d with inRun := 1, woken := [] }
  else { d with inRun := 0, armed := true, depth := d.depth - 1 }

def Connection.apply (c : Connection) (result : Result) : Connection :=
  { c with
    hreq := result.hreq
    holders := c.holders + result.held
    websock := c.websock || result.websock
    lib := result.calls.foldl Library.note c.lib }

/-- The changes of a call for the connection at `index`, the library being run again when a
reply has resumed it. -/
def Hsrv.commit (d : Hsrv) (index : Nat) (c : Connection) (result : Result) : Hsrv :=
  let d := { d with connections := d.connections.set index (c.apply result) }
  if .resume ∈ result.calls then runMicroHttpd { d with woken := d.woken ++ [index] } else d

/-- What happens: an event on the poll of the library, its callbacks, the return of
`MHD_run`, and what the bindings and the websockets do. -/
inductive Action where
  | event
  | accept
  | access (index : Nat) (input : Access)
  | complete (index : Nat)
  | returns
  | reply (index status : Nat)
  | addref (index : Nat)
  | unref (index : Nat)
  | cleanup (index : Nat)

/-- `access_handler`; the library does not call it when a response is queued, when the
connection is suspended or after the end. -/
def accessHandler (index : Nat) (input : Access) (d : Hsrv) : Option Hsrv :=
  match d.connections[index]? with
  | none => none
  | some c =>
      if c.lib.queued || c.lib.suspended || c.lib.ended then none
      else if c.record then
        match c.hreq with
        | none => some { d with faulted := true }
        | some hreq => some (d.commit index c (proceed input hreq))
      else
        let result := create input
        some (d.commit index { c with record := result.hreq.isSome } result)

/-- `end_handler`, which the library calls once for a request that it gave to
`access_handler`, and not while the connection is suspended. -/
def endHandler (index : Nat) (d : Hsrv) : Option Hsrv :=
  match d.connections[index]? with
  | none => none
  | some c =>
      if c.lib.suspended || c.lib.ended || !(c.record || c.lib.queued) then none
      else if c.record then
        match c.hreq with
        | none => some { d with faulted := true }
        | some hreq =>
            let calls := if hreq.upgrade then [MhdCall.completed, .suspend] else [.completed]
            some (d.commit index c ⟨afbHreqUnref hreq, 0, false, calls⟩)
      -- `hreq->upgrade` is read of NULL
      else some { d with faulted := true }

/-- What a binding does of a request that it holds. -/
def holding (index : Nat) (d : Hsrv) (act : Connection → Life → Connection × Result) :
    Option Hsrv :=
  match d.connections[index]? with
  | none => none
  | some c =>
      if c.holders = 0 then none
      else
        match c.hreq with
        | none => some { d with faulted := true }
        | some hreq => some (d.commit index (act c hreq).1 (act c hreq).2)

def exec (d : Hsrv) (action : Action) : Option Hsrv :=
  if d.faulted then none
  else
    match action with
    | .event => if d.armed then some (runMicroHttpd d) else none
    | .accept =>
        if d.depth = 0 then none else some { d with connections := d.connections ++ [.fresh] }
    | .access index input => if d.depth = 0 then none else accessHandler index input d
    | .complete index => if d.depth = 0 then none else endHandler index d
    | .returns => if d.depth = 0 then none else some (mhdRunReturns d)
    | .reply index status => holding index d fun c hreq => (c, replyError status hreq)
    | .addref index =>
        holding index d fun c hreq =>
          (c, ⟨some { hreq with refcount := hreq.refcount + 1 }, 1, false, []⟩)
    | .unref index =>
        holding index d fun c hreq =>
          ({ c with holders := c.holders - 1 }, ⟨afbHreqUnref hreq, 0, false, []⟩)
    | .cleanup index =>
        -- the websocket calls `MHD_resume_connection` and nothing runs the library
        match d.connections[index]? with
        | none => none
        | some c =>
            if c.websock then
              let c := { c with websock := false, lib := c.lib.note .resume }
              some { d with connections := d.connections.set index c }
            else none

def Step (d : Hsrv) (action : Action) (d' : Hsrv) : Prop := exec d action = some d'

end AfbBinder.Http.Serving
