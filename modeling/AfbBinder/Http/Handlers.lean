import AfbBinder.Http.Query
import AfbBinder.Http.Routing

/-!
# The aliases and the one-page redirection

`handle_alias` of `afb-hsrv.c` and `afb_hswitch_one_page_api_redirect` of `afb-hswitch.c`
both read the tail of the request from its second byte.  The tail is a pointer in the text
of the URL, of which a NUL is the end and after which the memory is arbitrary.
-/

namespace AfbBinder.Http

open Lib

/-! ## The request -/

/-- The methods that `access_handler` lets pass. -/
inductive Method where
  | get
  | post
deriving DecidableEq, Repr

/-- A file name handed to the search of files: the root that is searched, the place of its
first byte from the start of the URL and the C string that is there. -/
structure Looked where
  root : Nat
  first : Nat
  name : Bytes
deriving DecidableEq, Repr

/-- A redirection: the stores to the buffer of the location, and the buffer. -/
structure Redirected where
  stores : List (Nat × Bytes)
  buffer : Bytes
deriving DecidableEq, Repr

/-- What the handlers read of the request: `beyond` is the memory after the NUL of the URL,
`looked` and `redirected` the record of what they do, `other` what the other handlers use. -/
structure Request (τ : Type) where
  method : Method
  beyond : Bytes
  args : List Argument
  location : Option Bytes
  looked : List Looked
  redirected : List Redirected
  other : τ

variable {τ : Type}

/-- The memory at the URL. -/
def memoryOf (url : CString) (beyond : Bytes) : Bytes := url.bytes ++ 0 :: beyond

def Hreq.memory (hreq : Hreq (Request τ)) : Bytes := memoryOf hreq.url hreq.rest.beyond

def Hreq.lenurl (hreq : Hreq (Request τ)) : Nat := hreq.url.bytes.length

def Hreq.lentail (hreq : Hreq (Request τ)) : Nat := hreq.tail.length

/-- What is outside of the handlers: the status with which a file of a root is sent, if it
exists, the memory for a query and the content of the stack. -/
structure Outside (τ : Type) where
  replyLocaleFileIfExist : Hreq (Request τ) → Nat → Bytes → Option Nat
  heap : Allocator
  stack : Nat → UInt8

/-- Nothing exists, the stack holds zeros and memory never lacks. -/
def emptyOutside : Outside Unit where
  replyLocaleFileIfExist _ _ _ := none
  heap := plenty
  stack _ := 0

/-! ## The handlers -/

/-- `struct hsrv_alias` -/
structure HsrvAlias where
  root : Nat
  relax : Bool

/-- The string at `&hreq->tail[1]`, for a root. -/
def lookedAt (root : Nat) (memory : Bytes) (lenurl lentail : Nat) : Looked where
  root := root
  first := lenurl - lentail + 1
  name := cstring (memory.drop (lenurl - lentail + 1))

/-- `handle_alias` -/
def handleAlias (outside : Outside τ) (da : HsrvAlias) (hreq : Hreq (Request τ)) :
    Bool × Hreq (Request τ) :=
  if hreq.rest.method ≠ .get then
    if da.relax then (false, hreq) else (true, afbHreqReplyError 405 hreq)
  else
    let looked := lookedAt da.root hreq.memory hreq.lenurl hreq.lentail
    let hreq := { hreq with rest := { hreq.rest with looked := hreq.rest.looked ++ [looked] } }
    match outside.replyLocaleFileIfExist hreq da.root looked.name with
    | none => if da.relax then (false, hreq) else (true, afbHreqReplyError 404 hreq)
    | some status => (true, afbHreqReplyError status hreq)

/-- The stores of the redirection: `memcpy` from the URL, `#`, `!` and `memcpy` from
`&hreq->tail[1]`. -/
def onePageStores (memory : Bytes) (lenurl lentail : Nat) : List (Nat × Bytes) :=
  let plen := lenurl - lentail + 1
  [(0, memory.take plen), (plen, [35]), (plen + 1, [33]),
    (plen + 2, (memory.drop (lenurl - lentail + 1)).take lentail)]

/-- The location: `lenurl + 3` bytes of the stack, after the stores. -/
def onePage (stack : Nat → UInt8) (memory : Bytes) (lenurl lentail : Nat) : Redirected where
  stores := onePageStores memory lenurl lentail
  buffer := (onePageStores memory lenurl lentail).foldl
    (fun buffer store => copyAt buffer store.1 store.2) ((List.range (lenurl + 3)).map stack)

/-- The string at the start of a buffer. -/
def bufferString (buffer : Bytes) : CString where
  bytes := cstring buffer
  nulFree := fun hmem => by simpa using List.mem_takeWhile_imp hmem

/-- The test that the tail starts with `/#`. -/
def tailHash (tail : Bytes) : Bool := tail.length ≥ 2 && tail[1]? == some 35

/-- `afb_hswitch_one_page_api_redirect` -/
def afbHswitchOnePageApiRedirect (outside : Outside τ) (hreq : Hreq (Request τ)) :
    Bool × Hreq (Request τ) :=
  if tailHash hreq.tail then (false, hreq)
  else
    let url := onePage outside.stack hreq.memory hreq.lenurl hreq.lentail
    let location := afbHreqRedirectTo outside.heap (bufferString url.buffer) hreq.rest.args true
    let rest := { hreq.rest with
      location := if hreq.reply.isSome then hreq.rest.location else some location
      redirected := hreq.rest.redirected ++ [url] }
    (true, afbHreqReplyError 301 { hreq with rest := rest })

theorem afbHreqReplyError_rest {σ : Type} (status : Nat) (hreq : Hreq σ) :
    (afbHreqReplyError status hreq).rest = hreq.rest := by
  unfold afbHreqReplyError
  split <;> rfl

/-- The alias looks up a file for the method GET, and leaves the rest. -/
theorem handleAlias_rest (outside : Outside τ) (da : HsrvAlias) (hreq : Hreq (Request τ)) :
    (handleAlias outside da hreq).2.rest =
      if hreq.rest.method = .get then
        { hreq.rest with
          looked := hreq.rest.looked ++
            [lookedAt da.root hreq.memory hreq.lenurl hreq.lentail] }
      else hreq.rest := by
  unfold handleAlias
  cases hreq.rest.method with
  | get =>
      simp only [ne_eq, not_true_eq_false, if_false, if_true]
      split
      · split
        · rfl
        · rw [afbHreqReplyError_rest]
      · rw [afbHreqReplyError_rest]
  | post =>
      simp only [ne_eq, reduceCtorEq, not_false_eq_true, if_true, if_false]
      split
      · rfl
      · rw [afbHreqReplyError_rest]

/-- The redirection, unless the tail starts with `/#`. -/
theorem onePage_rest (outside : Outside τ) (hreq : Hreq (Request τ)) :
    let rest := (afbHswitchOnePageApiRedirect outside hreq).2.rest
    rest.method = hreq.rest.method ∧ rest.beyond = hreq.rest.beyond ∧
      rest.looked = hreq.rest.looked ∧
      rest.redirected = hreq.rest.redirected ++
        if tailHash hreq.tail then []
        else [onePage outside.stack hreq.memory hreq.lenurl hreq.lentail] := by
  unfold afbHswitchOnePageApiRedirect
  cases tailHash hreq.tail with
  | true => simp
  | false => simp [afbHreqReplyError_rest]

theorem afbHreqReplyError_url {σ : Type} (status : Nat) (hreq : Hreq σ) :
    (afbHreqReplyError status hreq).url = hreq.url := by
  unfold afbHreqReplyError
  split <;> rfl

/-- An alias, as a handler of the server. -/
def aliasServe (outside : Outside τ) (da : HsrvAlias) : Serve (Request τ) where
  run := handleAlias outside da
  url := by
    intro hreq
    unfold handleAlias
    split
    · split
      · rfl
      · rw [afbHreqReplyError_url]
    · dsimp only
      split
      · split
        · rfl
        · rw [afbHreqReplyError_url]
      · rw [afbHreqReplyError_url]
  declines := by
    intro hreq
    unfold handleAlias
    split
    · split
      · exact fun _ => rfl
      · exact fun hdeclined => by cases hdeclined
    · dsimp only
      split
      · split
        · exact fun _ => rfl
        · exact fun hdeclined => by cases hdeclined
      · exact fun hdeclined => by cases hdeclined

@[simp] theorem aliasServe_run (outside : Outside τ) (da : HsrvAlias) (hreq : Hreq (Request τ)) :
    (aliasServe outside da).run hreq = handleAlias outside da hreq := rfl

/-- The redirection, as a handler of the server. -/
def onePageServe (outside : Outside τ) : Serve (Request τ) where
  run := afbHswitchOnePageApiRedirect outside
  url := by
    intro hreq
    unfold afbHswitchOnePageApiRedirect
    split
    · rfl
    · rw [afbHreqReplyError_url]
  declines := by
    intro hreq
    unfold afbHswitchOnePageApiRedirect
    split
    · exact fun _ => rfl
    · exact fun hdeclined => by cases hdeclined

@[simp] theorem onePageServe_run (outside : Outside τ) (hreq : Hreq (Request τ)) :
    (onePageServe outside).run hreq = afbHswitchOnePageApiRedirect outside hreq := rfl

/-! ## The server -/

/-- What the function of a handler is. -/
inductive Kind where
  | handleAlias (da : HsrvAlias)
  | onePage
  | other

/-- The handler does what its kind says; the others keep what these two read and record. -/
def Does (outside : Outside τ) (serve : Serve (Request τ)) : Kind → Prop
  | .handleAlias da => serve = aliasServe outside da
  | .onePage => serve = onePageServe outside
  | .other => ∀ hreq, (serve.run hreq).2.rest.method = hreq.rest.method ∧
      (serve.run hreq).2.rest.beyond = hreq.rest.beyond ∧
      (serve.run hreq).2.rest.looked = hreq.rest.looked ∧
      (serve.run hreq).2.rest.redirected = hreq.rest.redirected

/-- A server: the registrations of its handlers, and the kind of each. -/
structure Server (outside : Outside τ) where
  regs : List (Registration (Request τ))
  kind : HsrvHandler (Request τ) → Kind
  does : ∀ handler ∈ handlersOf regs, Does outside handler.handler (kind handler)

/-- A request, nothing of which is served yet. -/
def freshRequest (method : Method) (beyond : Bytes) (args : List Argument) (other : τ) :
    Request τ where
  method := method
  beyond := beyond
  args := args
  location := none
  looked := []
  redirected := []
  other := other

/-- The calls of the handlers for a request, and the request after them. -/
def Server.serve {outside : Outside τ} (server : Server outside) (url : CString)
    (request : Request τ) : List (HandlerCall (Request τ)) × Hreq (Request τ) :=
  accessHandler (handlersOf server.regs) (newRequest url request)

/-! ## What a run records -/

section Records

variable {σ α : Type} {url : CString} {fixed : σ → Prop} {trace : σ → List α}

/-- On the requests for a URL, the handler keeps what is fixed and adds to the trace what
its tail tells. -/
def Records (url : CString) (fixed : σ → Prop) (trace : σ → List α) (serve : Serve σ)
    (effect : Bytes → List α) : Prop :=
  ∀ hreq, hreq.url = url → fixed hreq.rest →
    fixed (serve.run hreq).2.rest ∧
      trace (serve.run hreq).2.rest = trace hreq.rest ++ effect hreq.tail

theorem searchHandler_records {effect : HsrvHandler σ → Bytes → List α}
    {handlers : List (HsrvHandler σ)}
    (hrecords : ∀ handler ∈ handlers, Records url fixed trace handler.handler (effect handler))
    {hreq : Hreq σ} (hurl : hreq.url = url) (hfixed : fixed hreq.rest) :
    trace (searchHandler handlers hreq).2.2.rest =
      trace hreq.rest ++
        (searchHandler handlers hreq).1.flatMap fun call => effect call.handler call.tail := by
  induction handlers generalizing hreq with
  | nil => simp [searchHandler]
  | cons iter next ih =>
      have hnext := fun handler hmem => hrecords handler (List.mem_cons_of_mem iter hmem)
      cases hshare : afbHreqUnprefix iter.pfx.bytes iter.length hreq.tail with
      | none =>
          rw [searchHandler, hshare]
          exact ih hnext hurl hfixed
      | some tail =>
          have hstep := hrecords iter List.mem_cons_self { hreq with tail := tail } hurl hfixed
          have hurl' := (iter.handler.url { hreq with tail := tail }).trans hurl
          cases hrun : iter.handler.run { hreq with tail := tail } with
          | mk answer hreq' =>
              rw [hrun] at hstep hurl'
              rcases hstep with ⟨hkept, hadded⟩
              rw [searchHandler_run hshare hrun]
              cases answer with
              | true => simpa using hadded
              | false =>
                  have hrest := @ih hnext { hreq' with tail := hreq'.url.bytes } hurl' hkept
                  simp only [Bool.false_eq_true, if_false, List.flatMap_cons]
                  rw [hrest, hadded, List.append_assoc]

theorem accessHandler_rest (handlers : List (HsrvHandler σ)) (url : CString) (rest : σ) :
    (accessHandler handlers (newRequest url rest)).1 =
        (searchHandler handlers { newRequest url rest with scanned := true }).1 ∧
      (accessHandler handlers (newRequest url rest)).2.rest =
        (searchHandler handlers { newRequest url rest with scanned := true }).2.2.rest := by
  unfold accessHandler
  rw [if_neg (by simp [newRequest])]
  dsimp only
  split
  · refine ⟨rfl, ?_⟩
    unfold suspend
    split <;> rfl
  · refine ⟨rfl, ?_⟩
    unfold afbHreqReplyError
    split <;> rfl

/-- The trace of a request, when it starts empty. -/
theorem accessHandler_records {effect : HsrvHandler σ → Bytes → List α}
    {handlers : List (HsrvHandler σ)} {rest : σ}
    (hrecords : ∀ handler ∈ handlers, Records url fixed trace handler.handler (effect handler))
    (hfixed : fixed rest) (htrace : trace rest = []) :
    trace (accessHandler handlers (newRequest url rest)).2.rest =
      (accessHandler handlers (newRequest url rest)).1.flatMap
        fun call => effect call.handler call.tail := by
  rcases accessHandler_rest handlers url rest with ⟨hcalls, hrest⟩
  rw [hcalls, hrest, searchHandler_records hrecords rfl hfixed]
  change trace rest ++ _ = _
  rw [htrace, List.nil_append]

/-- The calls of one sort, beside what they record. -/
theorem forall₂_recorded {β γ : Type} {R : β → γ → Prop} {sort : β → Bool} {effect : β → List γ}
    {calls : List β}
    (hsort : ∀ call ∈ calls, sort call = true → ∃ entry, effect call = [entry] ∧ R call entry)
    (hother : ∀ call ∈ calls, sort call = false → effect call = []) :
    List.Forall₂ R (calls.filter sort) (calls.flatMap effect) := by
  induction calls with
  | nil => exact List.Forall₂.nil
  | cons call calls ih =>
      have hrest := ih (fun c hc => hsort c (List.mem_cons_of_mem call hc))
        fun c hc => hother c (List.mem_cons_of_mem call hc)
      cases hcall : sort call with
      | false =>
          rw [List.filter_cons_of_neg (by simp [hcall]), List.flatMap_cons,
            hother call List.mem_cons_self hcall, List.nil_append]
          exact hrest
      | true =>
          rcases hsort call List.mem_cons_self hcall with ⟨entry, heffect, hentry⟩
          rw [List.filter_cons_of_pos hcall, List.flatMap_cons, heffect, List.singleton_append]
          exact List.Forall₂.cons hentry hrest

end Records

/-! ## The calls -/

section Calls

variable {σ : Type} {regs : List (Registration σ)}

theorem call_share {url : CString} {rest : σ} {call : HandlerCall σ}
    (hcall : call ∈ (accessHandler (handlersOf regs) (newRequest url rest)).1) :
    call.handler ∈ handlersOf regs ∧ call.handler.share url.bytes = some call.tail := by
  rcases accessHandler_spec (handlersOf regs) url rest with ⟨accepted, tried, left, hsearched, -⟩
  have hmem := List.mem_map_of_mem (f := fun call => (call.handler, call.tail)) hcall
  rw [hsearched.called] at hmem
  rcases List.mem_filterMap.mp hmem with ⟨handler, htried, hshare⟩
  rcases Option.map_eq_some_iff.mp hshare with ⟨tail, htail, hpair⟩
  rcases Prod.mk.inj hpair with ⟨rfl, rfl⟩
  constructor
  · rw [hsearched.split]
    exact List.mem_append_left left htried
  · exact htail

/-- The tail is empty unless the URL is longer than the prefix. -/
theorem share_ne_nil_iff {handler : HsrvHandler σ} (h : handler ∈ handlersOf regs)
    {url tail : Bytes} (hshare : handler.share url = some tail) :
    tail ≠ [] ↔ handler.length < url.length := by
  rcases unprefix_some hshare with ⟨front, slashes, hsplit, hfront, -, hend⟩
  have hlength : front.length = handler.length := by
    have hshort : handler.length ≤ handler.pfx.bytes.length := by
      have hstart := List.rdropWhile_prefix (· == slash) handler.pfx.bytes
      rw [mem_handlersOf h, withoutSlashes_eq]
      exact hstart.length_le
    have hlong := congrArg List.length hfront
    rw [List.length_map, List.length_map, List.length_take] at hlong
    omega
  have htotal := congrArg List.length hsplit
  rw [List.length_append, List.length_append] at htotal
  rcases hend with ⟨rfl, rfl⟩ | ⟨rest, rfl, -⟩
  · simp only [List.length_nil] at htotal
    constructor
    · exact fun hne => absurd rfl hne
    · intro hlt
      omega
  · rw [List.length_cons] at htotal
    constructor
    · intro _
      omega
    · exact fun _ => List.cons_ne_nil slash rest

end Calls

section Server

variable {outside : Outside τ} (server : Server outside) (url : CString)

/-- The file looked up by a call. -/
def Server.lookups (beyond : Bytes) (handler : HsrvHandler (Request τ)) (tail : Bytes) :
    List Looked :=
  match server.kind handler with
  | .handleAlias da => [lookedAt da.root (memoryOf url beyond) url.bytes.length tail.length]
  | _ => []

/-- The redirection by a call. -/
def Server.redirections (beyond : Bytes) (handler : HsrvHandler (Request τ)) (tail : Bytes) :
    List Redirected :=
  match server.kind handler with
  | .onePage =>
      if tailHash tail then []
      else [onePage outside.stack (memoryOf url beyond) url.bytes.length tail.length]
  | _ => []

theorem Server.step {handler : HsrvHandler (Request τ)} (hmem : handler ∈ handlersOf server.regs)
    {hreq : Hreq (Request τ)} (hurl : hreq.url = url) :
    let rest := (handler.handler.run hreq).2.rest
    rest.method = hreq.rest.method ∧ rest.beyond = hreq.rest.beyond ∧
      (hreq.rest.method = .get →
        rest.looked = hreq.rest.looked ++
          server.lookups url hreq.rest.beyond handler hreq.tail) ∧
      rest.redirected = hreq.rest.redirected ++
        server.redirections url hreq.rest.beyond handler hreq.tail := by
  have hdoes := server.does handler hmem
  unfold Server.lookups Server.redirections
  cases hkind : server.kind handler with
  | handleAlias da =>
      rw [hkind, Does] at hdoes
      have hrest := handleAlias_rest outside da hreq
      rw [hdoes, aliasServe_run]
      subst hurl
      cases hmethod : hreq.rest.method with
      | get =>
          rw [if_pos hmethod] at hrest
          simp [hrest, hmethod, Hreq.memory, Hreq.lenurl, Hreq.lentail]
      | post =>
          have hpost : hreq.rest.method ≠ .get := by simp [hmethod]
          rw [if_neg hpost] at hrest
          simp [hrest, hmethod]
  | onePage =>
      rw [hkind, Does] at hdoes
      subst hurl
      rcases onePage_rest outside hreq with ⟨hmethod, hbeyond, hlooked, hredirected⟩
      rw [hdoes, onePageServe_run]
      exact ⟨hmethod, hbeyond, fun _ => by simpa using hlooked, hredirected⟩
  | other =>
      rw [hkind, Does] at hdoes
      rcases hdoes hreq with ⟨hmethod, hbeyond, hlooked, hredirected⟩
      exact ⟨hmethod, hbeyond, fun _ => by simpa using hlooked, by simpa using hredirected⟩

variable (beyond : Bytes) (args : List Argument) (other : τ)

theorem Server.looked_eq :
    (server.serve url (freshRequest .get beyond args other)).2.rest.looked =
      (server.serve url (freshRequest .get beyond args other)).1.flatMap
        fun call => server.lookups url beyond call.handler call.tail := by
  have hrecords : ∀ handler ∈ handlersOf server.regs,
      Records url (fun rest : Request τ => rest.method = .get ∧ rest.beyond = beyond)
        Request.looked handler.handler (server.lookups url beyond handler) := by
    rintro handler hmem hreq hurl ⟨hget, rfl⟩
    rcases server.step url hmem hurl with ⟨hmethod, hbeyond, hlooked, -⟩
    exact ⟨⟨hmethod.trans hget, hbeyond⟩, hlooked hget⟩
  exact accessHandler_records hrecords ⟨rfl, rfl⟩ rfl

theorem Server.redirected_eq (method : Method) :
    (server.serve url (freshRequest method beyond args other)).2.rest.redirected =
      (server.serve url (freshRequest method beyond args other)).1.flatMap
        fun call => server.redirections url beyond call.handler call.tail := by
  have hrecords : ∀ handler ∈ handlersOf server.regs,
      Records url (fun rest : Request τ => rest.beyond = beyond) Request.redirected
        handler.handler (server.redirections url beyond handler) := by
    rintro handler hmem hreq hurl rfl
    rcases server.step url hmem hurl with ⟨-, hbeyond, -, hredirected⟩
    exact ⟨hbeyond, hredirected⟩
  exact accessHandler_records hrecords rfl rfl

end Server

end AfbBinder.Http
