import AfbBinder.WsClient.Acceptance

/-!
# What the handshake leaves to read

The body of the response is skipped by reads whose results are not looked at: one of the
size of the buffer for each time it goes into the body, and for what remains one that is
given the length of the last header name for its size.  The next byte is the one after the
body when these reads take the bytes of the body, neither fewer nor more.
-/

namespace AfbBinder.WsClient

open Lib

/-! ## The reads that skip the body -/

/-- The sizes of the reads that skip `clen` bytes. -/
def skipSizes (len clen : Nat) : List Nat :=
  List.replicate (clen / lineSize) lineSize ++ if clen % lineSize = 0 then [] else [len]

/-- What is left after reads of these sizes. -/
def readAll (sizes : List Nat) (script : List Arrival) : List Arrival :=
  sizes.foldl (fun script size => (read size script).2) script

/-- How many bytes reads of these sizes take. -/
def taken : List Nat → List Arrival → Nat
  | [], _ => 0
  | size :: sizes, script =>
      ((read size script).1.getD []).length + taken sizes (read size script).2

theorem readAll_cons (size : Nat) (sizes : List Nat) (script : List Arrival) :
    readAll (size :: sizes) script = readAll sizes (read size script).2 := rfl

theorem taken_cons (size : Nat) (sizes : List Nat) (script : List Arrival) :
    taken (size :: sizes) script =
      ((read size script).1.getD []).length + taken sizes (read size script).2 := rfl

theorem skipBody_eq (len clen : Nat) (script : List Arrival) :
    skipBody len clen script = readAll (skipSizes len clen) script := by
  rw [skipBody]
  split
  case isTrue hle =>
    have hpos : 0 < lineSize := by decide
    have hdiv : clen / lineSize = (clen - lineSize) / lineSize + 1 := by
      rw [Nat.div_eq_sub_div hpos hle]
    have hmod : clen % lineSize = (clen - lineSize) % lineSize := Nat.mod_eq_sub_mod hle
    have hrest := skipBody_eq len (clen - lineSize) (read lineSize script).2
    rw [hrest, skipSizes, skipSizes, hdiv, hmod, List.replicate_succ, List.cons_append, readAll_cons]
  case isFalse hlt =>
    have hless : clen < lineSize := Nat.lt_of_not_le hlt
    rw [skipSizes, Nat.div_eq_of_lt hless, Nat.mod_eq_of_lt hless, List.replicate_zero,
      List.nil_append]
    split
    case isTrue hpos =>
      rw [if_neg (Nat.ne_of_gt hpos)]
      rfl
    case isFalse hzero =>
      rw [if_pos (Nat.eq_zero_of_not_pos hzero)]
      rfl
termination_by clen
decreasing_by
  have hpos : 0 < lineSize := by decide
  omega

theorem read_plain {script : List Arrival} (h : Plain script) (size : Nat) :
    ∃ data rest, read size script = (some data, rest) ∧ data.length ≤ size ∧
      arriving script = data ++ arriving rest ∧ Plain rest ∧
      (0 < size → arriving script ≠ [] → data ≠ []) := by
  cases size with
  | zero => exact ⟨[], script, by cases script <;> rfl, Nat.le_refl _, rfl, h, fun hpos => nomatch hpos⟩
  | succ n =>
      rcases read_cases n script with ⟨-, -, hfail⟩ | ⟨hread, hnone⟩ |
        ⟨data, rest, hread, hpos, hle, harriving, hplain⟩
      · exact absurd h hfail
      · exact ⟨[], [], hread, Nat.zero_le _, hnone, fun _ => List.not_mem_nil,
          fun _ hsome => absurd hnone hsome⟩
      · exact ⟨data, rest, hread, hle, harriving, hplain h,
          fun _ _ => List.length_pos_iff.mp hpos⟩

/-- What reads leave is what arrives after the bytes they take. -/
theorem arriving_readAll {script : List Arrival} (h : Plain script) (sizes : List Nat) :
    ∃ data, arriving script = data ++ arriving (readAll sizes script) ∧
      data.length = taken sizes script := by
  induction sizes generalizing script with
  | nil => exact ⟨[], rfl, rfl⟩
  | cons size sizes ih =>
      rcases read_plain h size with ⟨data, rest, hread, -, harriving, hplain, -⟩
      rcases ih hplain with ⟨more, hmore, hlen⟩
      refine ⟨data ++ more, ?_, ?_⟩
      · rw [harriving, hmore, List.append_assoc, readAll_cons, hread]
      · rw [taken_cons, hread, List.length_append, hlen]
        rfl

/-- The reads leave what follows a body exactly when they take as many bytes as it has. -/
theorem readAll_leaves_iff {script : List Arrival} (h : Plain script) (sizes : List Nat)
    {body following : Bytes} (harriving : arriving script = body ++ following) :
    arriving (readAll sizes script) = following ↔ taken sizes script = body.length := by
  rcases arriving_readAll h sizes with ⟨data, hsplit, hlen⟩
  rw [harriving] at hsplit
  rw [← hlen]
  constructor
  · intro hleaves
    rw [hleaves] at hsplit
    exact congrArg List.length (List.append_cancel_right hsplit).symm
  · intro hsame
    exact (List.append_inj hsplit hsame.symm).2.symm

/-! ## A well-formed response -/

/-- The text writes the number in decimal. -/
def Writes (text : Bytes) (n : Nat) : Prop :=
  text ≠ [] ∧ (∀ c ∈ text, isdigit c = true) ∧
    n = text.foldl (fun value c => 10 * value + (c.toNat - 48)) 0

/-- A response 101 whose body has the length that its headers give, 0 when they give none. -/
structure Response where
  status : Bytes
  headers : List Bytes
  body : Bytes
  switching : Switching status
  status_line : CrlfFree status ∧ status.length < lineSize
  header_lines : ∀ header ∈ headers, (CrlfFree header ∧ header ≠ []) ∧ header.length < lineSize
  length : ∀ header ∈ headers, ∀ value, headerValue contentLength header = some value →
    Writes value body.length
  no_length : (∀ header ∈ headers, headerValue contentLength header = none) → body = []

/-- The bytes before the body. -/
def Response.block (r : Response) : Bytes := crlfLines (r.status :: r.headers) ++ [13, 10]

/-- The length that the variable `len` has after the header lines. -/
def Response.lastName (r : Response) : Nat :=
  (r.headers.getLast?.map fun header => (fieldName header).length).getD 3

/-- The sizes of the reads that skip the body. -/
def Response.skips (r : Response) : List Nat :=
  skipSizes r.lastName (min r.body.length longMax)

/-- The lines fit the buffer with their ends, and no header is refused. -/
structure Response.Passes (r : Response) (ack : Bytes) : Prop where
  fits : ∀ line ∈ r.status :: r.headers, line.length + 2 ≤ lineSize
  unrefused : Unrefused ack r.headers

theorem isdigit_other {c : UInt8} (h : isdigit c = true) : isspace c = false ∧ c ≠ 45 ∧ c ≠ 43 := by
  simp only [isdigit, Bool.and_eq_true, decide_eq_true_eq, UInt8.le_iff_toNat_le] at h
  have hlow : (48 : UInt8).toNat = 48 := rfl
  have hnot : ∀ d : UInt8, d.toNat < 48 → c ≠ d := by
    rintro d hd rfl
    omega
  refine ⟨?_, hnot 45 (by decide), hnot 43 (by decide)⟩
  simp only [isspace, Bool.or_eq_false_iff, Bool.and_eq_false_iff, decide_eq_false_iff_not,
    UInt8.le_iff_toNat_le]
  have hhigh : (13 : UInt8).toNat = 13 := rfl
  exact ⟨hnot 32 (by decide), .inr (by omega)⟩

theorem digits_eq {text : Bytes} (h : ∀ c ∈ text, isdigit c = true) (value : Nat) :
    digits value text = text.foldl (fun value c => 10 * value + (c.toNat - 48)) value := by
  induction text generalizing value with
  | nil => rfl
  | cons c text ih =>
      rw [digits, if_pos (h c List.mem_cons_self), List.foldl_cons]
      exact ih (fun c hc => h c (List.mem_cons_of_mem _ hc)) _

theorem Writes.atol {text : Bytes} {n : Nat} (h : Writes text n) :
    atol text = (min n longMax : Nat) := by
  rcases h with ⟨hne, hdigits, rfl⟩
  cases text with
  | nil => exact absurd rfl hne
  | cons c text =>
      rcases isdigit_other (hdigits c List.mem_cons_self) with ⟨hspace, hminus, hplus⟩
      rw [WsClient.atol, List.dropWhile_cons_of_neg (Bool.eq_false_iff.mp hspace)]
      dsimp only
      rw [if_neg hminus, if_neg hplus, digits_eq hdigits]

section Response

variable (r : Response) (protocols : List Bytes) (ack : Bytes)

theorem Response.clen : (scanned protocols ack r.headers).clen = min r.body.length longMax := by
  rw [scanned, scanLines_clen]
  cases hlast : lastValue contentLength r.headers with
  | none =>
      have habsent : ∀ header ∈ r.headers, headerValue contentLength header = none := by
        intro header hin
        by_contra hsome
        have hisSome := lastValue_isSome.mpr ⟨header, hin, Option.isSome_iff_ne_none.mpr hsome⟩
        rw [hlast] at hisSome
        cases hisSome
      rw [r.no_length habsent]
      rfl
  | some value =>
      rcases lastValue_mem hlast with ⟨header, hin, hvalue⟩
      have hatol := (r.length header hin value hvalue).atol
      rw [Option.map_some, Option.getD_some, hatol]
      have hmax : longMax = 9223372036854775807 := rfl
      omega

theorem Response.len : (scanned protocols ack r.headers).len = r.lastName :=
  scanLines_len _ _ _ _

theorem Response.answered {r : Response} {ack : Bytes} (h : r.Passes ack) {script rest : List Arrival}
    (hfeeds : Feeds script r.block rest) : Answered script r.status r.headers rest := by
  rcases List.forall_mem_cons.mp h.fits with ⟨hstatus, hheaders⟩
  exact answered_of_feeds ⟨r.status_line.1, hstatus⟩
    (fun header hin => ⟨(r.header_lines header hin).1, hheaders header hin⟩) hfeeds

end Response

/-! ## The bytes after the body -/

/-- When the response is accepted, what is left to read is what follows it. -/
def Consumes (protocols : List Bytes) (ack : Bytes) (line : LineBuffer) (script : List Arrival)
    (following : Bytes) : Prop :=
  0 ≤ (receiveResponse protocols ack line script).1 →
    arriving (receiveResponse protocols ack line script).2 = following

section Consumes

variable {r : Response} {protocols : List Bytes} {ack : Bytes} {line : LineBuffer}
  {script : List Arrival} {following : Bytes}

theorem Response.split (harriving : arriving script = r.block ++ (r.body ++ following)) :
    Block (arriving script) r.status r.headers := by
  refine ⟨r.status_line.1, fun header hin => (r.header_lines header hin).1,
    13 :: 10 :: (r.body ++ following), .inr ⟨_, rfl⟩, ?_⟩
  rw [harriving, Response.block]
  simp

theorem accepted_iff (hplain : Plain script)
    (harriving : arriving script = r.block ++ (r.body ++ following)) :
    0 ≤ (receiveResponse protocols ack line script).1 ↔ r.Passes ack := by
  constructor
  · intro hnonneg
    rcases receiveResponse_answered hnonneg rfl with
      ⟨status, headers, left, hanswered, -, hhaserr, hresult, -⟩
    rcases hanswered.block.unique (r.split harriving) with ⟨hstatus, hheaders⟩
    rw [hheaders] at hhaserr hresult hanswered
    constructor
    · rcases hanswered.feeds with ⟨middle, -, hreads⟩
      rw [← hstatus]
      exact List.forall_mem_cons.mpr ⟨hanswered.fits, hreads.fits⟩
    · apply (unrefused_iff protocols ack r.headers).mpr
      rw [hresult]
      exact ⟨hhaserr, hnonneg⟩
  · intro hpasses
    rcases feeds_of_arriving hplain harriving with ⟨left, hfeeds, -, -⟩
    rcases receiveResponse_unrefused (r.answered hpasses hfeeds) r.switching hpasses.unrefused
      with ⟨value, -, hresult⟩
    rw [hresult]
    exact Int.natCast_nonneg _

/-- The reads over the body are the last ones. -/
theorem receiveResponse_rest (hpasses : r.Passes ack) {left : List Arrival}
    (hfeeds : Feeds script r.block left) :
    (receiveResponse protocols ack line script).2 = readAll r.skips left := by
  have haccepts := (acceptsStatus_iff r.status).mpr r.switching
  rw [receiveResponse_of_answered (r.answered hpasses hfeeds) haccepts]
  dsimp only
  rw [skipBody_eq, r.len, r.clen, Response.skips]
  split
  · rfl
  · rfl

theorem consumes_iff (hplain : Plain script)
    (harriving : arriving script = r.block ++ (r.body ++ following)) :
    Consumes protocols ack line script following ↔ (r.Passes ack →
      ∀ left, Feeds script r.block left → taken r.skips left = r.body.length) := by
  unfold Consumes
  rw [accepted_iff hplain harriving]
  rcases feeds_of_arriving hplain harriving with ⟨left, hfeeds, hleft, hplain'⟩
  have hleaves := readAll_leaves_iff hplain' r.skips hleft
  constructor
  · intro hconsumes hpasses left' hfeeds'
    rw [← hfeeds.unique hfeeds', ← hleaves, ← receiveResponse_rest hpasses hfeeds]
    exact hconsumes hpasses
  · intro htaken hpasses
    rw [receiveResponse_rest hpasses hfeeds, hleaves]
    exact htaken hpasses left hfeeds

end Consumes

/-! ## Over every way to cut the stream -/

/-- One byte in each read. -/
def byByte (bytes : Bytes) : List Arrival := bytes.map fun b => .data b []

theorem arriving_append (script script' : List Arrival) :
    arriving (script ++ script') = arriving script ++ arriving script' := by
  induction script with
  | nil => rfl
  | cons a script ih =>
      cases a with
      | data first rest => simp [arriving, ih]
      | intr => exact ih
      | fail code => exact ih

theorem arriving_byByte (bytes : Bytes) : arriving (byByte bytes) = bytes := by
  induction bytes with
  | nil => rfl
  | cons b bytes ih => exact congrArg (b :: ·) ih

theorem plain_byByte (bytes : Bytes) : Plain (byByte bytes) := by
  intro code hin
  rcases List.mem_map.mp hin with ⟨b, -, heq⟩
  cases heq

theorem Plain.append {script script' : List Arrival} (h : Plain script) (h' : Plain script') :
    Plain (script ++ script') :=
  fun code hin => (List.mem_append.mp hin).elim (h code) (h' code)

theorem feeds_byByte (bytes : Bytes) (script : List Arrival) :
    Feeds (byByte bytes ++ script) bytes script := by
  induction bytes with
  | nil => exact .done
  | cons b bytes ih => exact .byte rfl ih

/-- Each read takes one of these bytes at most. -/
theorem taken_byByte (sizes : List Nat) (bytes : Bytes) : taken sizes (byByte bytes) ≤ sizes.length := by
  induction sizes generalizing bytes with
  | nil => exact Nat.le_refl _
  | cons size sizes ih =>
      have hread : ∃ data rest, read size (byByte bytes) = (some data, byByte rest) ∧
          data.length ≤ 1 := by
        cases size with
        | zero => exact ⟨[], bytes, by cases bytes <;> rfl, Nat.zero_le _⟩
        | succ n =>
            cases bytes with
            | nil => exact ⟨[], [], rfl, Nat.zero_le _⟩
            | cons b bytes =>
                refine ⟨[b], bytes, ?_, Nat.le_refl _⟩
                rw [byByte, List.map_cons, read, List.drop_nil]
                rfl
      rcases hread with ⟨data, rest, hread, hlen⟩
      have hrest := ih rest
      rw [taken_cons, hread, List.length_cons]
      change data.length + taken sizes (byByte rest) ≤ _
      omega

theorem skipSizes_length {n clen : Nat} (len : Nat) (hmin : clen ≤ n) (hn : 2 ≤ n) :
    (skipSizes len clen).length < n := by
  have hsize : lineSize = 4096 := rfl
  rw [skipSizes, List.length_append, List.length_replicate, hsize]
  split
  · rw [List.length_nil]
    omega
  · rw [List.length_singleton]
    omega

section All

variable {r : Response} {protocols : List Bytes} {ack following : Bytes}

/-- What holds of every cut holds of one that gives the bytes after the block in any way. -/
theorem taken_of_all
    (hall : ∀ line script, Plain script → arriving script = r.block ++ (r.body ++ following) →
      Consumes protocols ack line script following)
    (hpasses : r.Passes ack) {tail : List Arrival} (hplain : Plain tail)
    (htail : arriving tail = r.body ++ following) : taken r.skips tail = r.body.length := by
  have hplain' := (plain_byByte r.block).append hplain
  have harriving : arriving (byByte r.block ++ tail) = r.block ++ (r.body ++ following) := by
    rw [arriving_append, arriving_byByte, htail]
  have hconsumes := hall blank _ hplain' harriving
  exact (consumes_iff hplain' harriving).mp hconsumes hpasses tail (feeds_byByte r.block tail)

theorem skips_one (h : r.body.length = 1) : r.skips = [r.lastName] := by
  rw [Response.skips, h]
  rfl

theorem taken_one (size : Nat) (script : List Arrival) :
    taken [size] script = ((read size script).1.getD []).length := by
  rw [taken_cons]
  exact Nat.add_zero _

/-- A read over a body of one byte that comes with what follows it. -/
theorem taken_atOnce {size : Nat} {b : UInt8} (h : taken [size] (atOnce (b :: following)) = 1) :
    size = 1 ∨ 1 ≤ size ∧ following = [] := by
  rw [taken_one, atOnce] at h
  cases size with
  | zero => cases h
  | succ n =>
      rw [read] at h
      cases hdrop : following.drop n with
      | nil =>
          rw [hdrop] at h
          refine .inr ⟨Nat.succ_pos n, List.eq_nil_of_length_eq_zero ?_⟩
          exact Nat.succ.inj h
      | cons c left =>
          rw [hdrop] at h
          have hlen : (following.take n).length = 0 := Nat.succ.inj h
          have hlong : n < following.length := by
            apply Nat.lt_of_not_le
            intro hle
            rw [List.drop_eq_nil_of_le hle] at hdrop
            cases hdrop
          rw [List.length_take] at hlen
          left
          omega

/-- When every cut leaves what follows, the body has a byte at most. -/
theorem body_of_all
    (hall : ∀ line script, Plain script → arriving script = r.block ++ (r.body ++ following) →
      Consumes protocols ack line script following)
    (hpasses : r.Passes ack) :
    r.body = [] ∨ r.body.length = 1 ∧ (r.lastName = 1 ∨ 1 ≤ r.lastName ∧ following = []) := by
  have htaken := fun tail => @taken_of_all _ _ _ _ hall hpasses tail
  cases hbody : r.body with
  | nil => exact .inl rfl
  | cons b body =>
      right
      cases body with
      | nil =>
          -- the byte comes with what follows it
          have hone := htaken (atOnce (r.body ++ following)) (plain_atOnce _) (arriving_atOnce _)
          have hlen : r.body.length = 1 := by rw [hbody]; rfl
          rw [skips_one hlen, hlen, hbody] at hone
          exact ⟨rfl, taken_atOnce hone⟩
      | cons c body =>
          -- each read takes one byte
          have hmany := htaken (byByte (r.body ++ following)) (plain_byByte _) (arriving_byByte _)
          have hfew := taken_byByte r.skips (r.body ++ following)
          have hlen : 2 ≤ r.body.length := by
            rw [hbody, List.length_cons, List.length_cons]
            omega
          have hsizes := skipSizes_length r.lastName (Nat.min_le_left r.body.length longMax) hlen
          rw [Response.skips] at hmany hfew
          omega

/-- A body of one byte is taken alone by a read of one byte, or when nothing follows it. -/
theorem taken_single {left : List Arrival} (hplain : Plain left)
    (hleft : arriving left = r.body ++ following) (hlen : r.body.length = 1)
    (hname : r.lastName = 1 ∨ 1 ≤ r.lastName ∧ following = []) :
    taken r.skips left = r.body.length := by
  rcases read_plain hplain r.lastName with ⟨data, rest, hread, hle, hsplit, -, hsome⟩
  rw [skips_one hlen, taken_one, hread, Option.getD_some, hlen]
  rw [hleft] at hsplit hsome
  have hbody : r.body ≠ [] := by
    intro hnil
    rw [hnil] at hlen
    cases hlen
  have hne : 1 ≤ r.lastName → 0 < data.length :=
    fun hpos => List.length_pos_iff.mpr (hsome hpos (List.append_ne_nil_of_left_ne_nil hbody _))
  rcases hname with hone | ⟨hpos, hnone⟩
  · have hdata := hne (Nat.le_of_eq hone.symm)
    omega
  · have hdata := hne hpos
    have hall := congrArg List.length hsplit
    rw [hnone, List.append_nil, List.length_append, hlen] at hall
    omega

theorem consumes_all_iff :
    (∀ line script, Plain script → arriving script = r.block ++ (r.body ++ following) →
        Consumes protocols ack line script following) ↔
      (r.Passes ack → r.body = [] ∨
        r.body.length = 1 ∧ (r.lastName = 1 ∨ 1 ≤ r.lastName ∧ following = [])) := by
  constructor
  · intro hall hpasses
    exact body_of_all hall hpasses
  · intro hcond line script hplain harriving
    apply (consumes_iff hplain harriving).mpr
    intro hpasses left hfeeds
    rcases feeds_of_arriving hplain harriving with ⟨left', hfeeds', hleft, hplain'⟩
    cases hfeeds.unique hfeeds'
    rcases hcond hpasses with hnone | ⟨hlen, hname⟩
    · rw [Response.skips, hnone]
      rfl
    · exact taken_single hplain' hleft hlen hname

end All

/-- The handshake leaves the bytes after the response, in one cut of the stream, exactly
when it refuses the response or the reads over the body take its bytes; in every cut, when
there is no body, or one byte that the last read takes alone. -/
theorem response_consumed_iff (r : Response) (following : Bytes) (protocols : List Bytes)
    (ack : Bytes) :
    (∀ line script, Plain script → arriving script = r.block ++ (r.body ++ following) →
      (Consumes protocols ack line script following ↔ (r.Passes ack →
        ∀ left, Feeds script r.block left → taken r.skips left = r.body.length))) ∧
    ((∀ line script, Plain script → arriving script = r.block ++ (r.body ++ following) →
        Consumes protocols ack line script following) ↔
      (r.Passes ack → r.body = [] ∨
        r.body.length = 1 ∧ (r.lastName = 1 ∨ 1 ≤ r.lastName ∧ following = []))) :=
  ⟨fun _ _ hplain harriving => consumes_iff hplain harriving, consumes_all_iff⟩

theorem feeds_atOnce (data more : Bytes) : Feeds (atOnce (data ++ more)) data (atOnce more) := by
  induction data with
  | nil => exact .done
  | cons b data ih =>
      refine .byte ?_ ih
      rw [List.cons_append]
      cases data ++ more <;> rfl

def lengthHeader : Bytes := ascii "Content-Length: 5"

def greetingHeaders : List Bytes :=
  [ascii "Upgrade: websocket", ascii "Sec-WebSocket-Accept: s3pPLMBiTxaQ9kYGzzhZRbK+xOo=",
    protocolHeader, lengthHeader]

/-- A response with a body of five bytes. -/
def greeting : Response where
  status := switchingLine
  headers := greetingHeaders
  body := ascii "hello"
  switching := (acceptsStatus_iff _).mp (by decide)
  status_line := ⟨crlfFree_of_no_cr (by decide), by decide⟩
  header_lines := by
    have hline : ∀ header ∈ greetingHeaders, (13 : UInt8) ∉ header ∧ header ≠ [] ∧
        header.length < lineSize := by decide
    intro header hin
    rcases hline header hin with ⟨hfree, hne, hlen⟩
    exact ⟨⟨crlfFree_of_no_cr hfree, hne⟩, hlen⟩
  length := by
    have hvalue : ∀ header ∈ greetingHeaders,
        headerValue contentLength header = none ∨ headerValue contentLength header = some [53] := by
      decide
    intro header hin value hsome
    rcases hvalue header hin with hnone | hfive
    · rw [hnone] at hsome
      cases hsome
    · rw [hfive] at hsome
      cases hsome
      exact ⟨List.cons_ne_nil _ _, List.forall_mem_singleton.mpr (by decide), rfl⟩
  no_length := by
    intro habsent
    have hnone := habsent lengthHeader (by decide)
    have hfive : headerValue contentLength lengthHeader = some [53] := by decide
    rw [hfive] at hnone
    cases hnone

/-- The last read takes the body and the frame that comes with it. -/
theorem response_consumed_fails :
    Plain (atOnce (greeting.block ++ (greeting.body ++ [137, 0]))) ∧
      arriving (atOnce (greeting.block ++ (greeting.body ++ [137, 0]))) =
        greeting.block ++ (greeting.body ++ [137, 0]) ∧
      ¬ Consumes [protocolJson1] ackText blank
        (atOnce (greeting.block ++ (greeting.body ++ [137, 0]))) [137, 0] := by
  have hplain := plain_atOnce (greeting.block ++ (greeting.body ++ [137, 0]))
  have harriving := arriving_atOnce (greeting.block ++ (greeting.body ++ [137, 0]))
  have hpasses : greeting.Passes ackText := by
    constructor
    · exact List.forall_mem_cons.mpr ⟨by decide, by decide⟩
    · exact (unrefused_iff [protocolJson1] _ _).mpr ⟨by decide, by decide⟩
  refine ⟨hplain, harriving, fun hconsumes => ?_⟩
  have htaken := (consumes_iff hplain harriving).mp hconsumes hpasses _
    (feeds_atOnce greeting.block (greeting.body ++ [137, 0]))
  exact absurd htaken (by decide)

end AfbBinder.WsClient
