import AfbBinder.WsClient.Response

/-!
# The header block that the response is judged on

When `receive_response` accepts, the lines that it has scanned are those of the stream up
to the empty one.  The bytes left in the buffer, which the reading goes over at the end of
the stream, can give no more than the LF of this empty line.
-/

namespace AfbBinder.WsClient

open Lib

/-- The reads give header lines and the empty line.  The stream may end before the LF of
the empty line, when the line `prev` before it has put one at its place in the buffer. -/
inductive Reads : Bytes → List Arrival → List Bytes → List Arrival → Prop
  | empty {prev : Bytes} {script rest : List Arrival} :
      Feeds script [13, 10] rest → Reads prev script [] rest
  | cut {prev : Bytes} {script middle : List Arrival} :
      Feeds script [13] middle → Ended middle → prev.getD 1 0 = 10 → Reads prev script [] []
  | line {prev text : Bytes} {script middle rest : List Arrival} {headers : List Bytes} :
      text ≠ [] → CrlfFree text → text.length + 2 ≤ lineSize →
      Feeds script (text ++ [13, 10]) middle → Reads text middle headers rest →
      Reads prev script (text :: headers) rest

/-! ## The buffer between two lines -/

/-- The buffer starts as an empty line does. -/
def StartsEmpty (line : Bytes) : Prop := line.take 2 = [13, 10]

/-- The buffer after the line `prev`. -/
structure Follows (prev line : Bytes) : Prop where
  size : line.length = lineSize
  free : CrlfFree prev
  start : line.take 2 = (prev ++ [0]).take 2

theorem startsEmpty_line {text : Bytes} (hfree : CrlfFree text) (hne : text ≠ []) (back : Bytes) :
    ¬ StartsEmpty (text ++ 0 :: back) := by
  intro hstarts
  cases text with
  | nil => exact hne rfl
  | cons c text =>
      cases text with
      | nil => exact absurd (congrArg (·.getD 1 0) hstarts) (by decide : (0 : UInt8) ≠ 10)
      | cons d text =>
          simp only [StartsEmpty, List.cons_append, List.take_succ_cons, List.take_zero,
            List.cons.injEq, and_true] at hstarts
          rw [hstarts.1, hstarts.2] at hfree
          exact hfree ⟨[], text, rfl⟩

theorem Follows.not_startsEmpty {prev line : Bytes} (h : Follows prev line) (hne : prev ≠ []) :
    ¬ StartsEmpty line := by
  unfold StartsEmpty
  rw [h.start]
  exact startsEmpty_line h.free hne []

theorem Follows.second {prev line : Bytes} (h : Follows prev line) (hne : prev ≠ []) :
    line.getD 1 0 = prev.getD 1 0 := by
  have hfirst : ∀ text : Bytes, text.getD 1 0 = (text.take 2).getD 1 0 := by
    intro text
    cases text with
    | nil => rfl
    | cons c text => cases text <;> rfl
  rw [hfirst line, h.start, ← hfirst]
  cases prev with
  | nil => exact absurd rfl hne
  | cons c prev => cases prev <;> rfl

/-- The value of a header starts after its name and the colon. -/
theorem take_cutValue (line : Bytes) : (cutValue line).take 2 = line.take 2 := by
  unfold cutValue
  dsimp only
  split
  case isTrue hfield =>
    apply List.take_set_of_le
    simp only [isField, Bool.and_eq_true, decide_eq_true_eq] at hfield
    unfold valueEnd valueStart
    omega
  case isFalse => rfl

theorem length_cutValue (line : Bytes) : (cutValue line).length = line.length := by
  unfold cutValue
  dsimp only
  split
  · exact List.length_set
  · rfl

theorem cstring_line (text back : Bytes) : cstring (text ++ 0 :: back) = cstring text := by
  induction text with
  | nil => rfl
  | cons c text ih =>
      unfold cstring at ih ⊢
      rw [List.cons_append, List.takeWhile_cons, List.takeWhile_cons, ih]

/-- The buffer when a line has been received. -/
theorem follows_line {line line' : Bytes} {script rest : List Arrival} {text back' seen : Bytes}
    (hsize : line.length = lineSize) (hsees : Sees script line seen rest back')
    (heq : seen = text ++ [13, 10]) (hfree : CrlfFree text) (hne : text ≠ [])
    (hline' : line' = text ++ 0 :: 10 :: back') : Follows text line' := by
  rcases hsees.back with ⟨hback, hle⟩
  constructor
  · rw [hline', ← hback, ← hsize]
    rw [heq] at hle ⊢
    simp only [List.length_append, List.length_cons, List.length_nil, List.length_drop] at hle ⊢
    omega
  · exact hfree
  · rw [hline']
    cases text with
    | nil => exact absurd rfl hne
    | cons c text => cases text <;> rfl

theorem Follows.cutValue {prev line : Bytes} (h : Follows prev line) :
    Follows prev (cutValue line) := by
  constructor
  · rw [length_cutValue, h.size]
  · exact h.free
  · rw [take_cutValue, h.start]

/-- A line that has been received over a whole buffer. -/
structure Received (script : List Arrival) (n : Nat) (line' : Bytes) (rest : List Arrival)
    (text : Bytes) : Prop where
  free : CrlfFree text
  fits : text.length + 2 ≤ lineSize
  length : n = text.length
  read : cstring line' = cstring text
  follows : text ≠ [] → Follows text line'
  origin : Feeds script (text ++ [13, 10]) rest ∨ rest = []

theorem receiveLine_received {line line' : Bytes} {script rest : List Arrival} {n : Nat}
    (hsize : line.length = lineSize) (h : receiveLine line script = (some n, line', rest)) :
    ∃ text, Received script n line' rest text := by
  rcases receiveLine_iff.mp h with ⟨text, seen, back', hsees, heq, hfree, hn, hline'⟩
  rw [List.nil_append] at heq
  refine ⟨text, hfree, ?_, hn, ?_, fun hne => follows_line hsize hsees heq hfree hne hline', ?_⟩
  · have hle := hsees.back.2
    rw [heq, hsize, List.length_append] at hle
    exact hle
  · rw [hline', cstring_line]
  · rcases hsees.origin with hfeeds | ⟨-, -, -, -, -, -, -, hended, -⟩
    · exact .inl (heq ▸ hfeeds)
    · exact .inr hended

/-! ## The loop over the header lines -/

section Headers

variable {protocols : List Bytes} {ack : Bytes}

theorem receiveHeaders_eq (s : Scan) (line : Bytes) (script : List Arrival) :
    receiveHeaders protocols ack s line script =
      match receiveLine line script with
      | (none, _, rest) => (none, rest)
      | (some 0, _, rest) => (some s, rest)
      | (some (_ + 1), line', rest) =>
          receiveHeaders protocols ack (scanHeader protocols ack s (cstring line')) (cutValue line')
            rest := by
  rw [receiveHeaders]
  split <;> rename_i hreceived <;> simp only [hreceived]

/-- After the end of the stream no empty line is found: each line starts as the buffer. -/
theorem receiveHeaders_ended {s : Scan} {line : Bytes} (hstart : ¬ StartsEmpty line) :
    (receiveHeaders protocols ack s line []).1 = none := by
  cases hreceived : receiveLine line [] with
  | mk rc received =>
      rcases received with ⟨line', rest⟩
      cases rc with
      | none => rw [receiveHeaders_eq, hreceived]
      | some n =>
          rcases receiveLine_iff.mp hreceived with ⟨text, seen, back', hsees, heq, hfree, hn, hline'⟩
          rcases hsees.kept with ⟨rfl, hline⟩
          rw [List.nil_append] at heq
          have hne : text ≠ [] := by
            rintro rfl
            apply hstart
            rw [hline, heq]
            rfl
          rcases Nat.exists_eq_succ_of_ne_zero (mt List.eq_nil_of_length_eq_zero hne)
            with ⟨k, hk⟩
          rw [hn, hk] at hreceived
          rw [receiveHeaders_eq, hreceived]
          apply receiveHeaders_ended
          unfold StartsEmpty
          rw [take_cutValue, hline']
          exact startsEmpty_line hfree hne _
termination_by line.count 13
decreasing_by
  have hless := receiveLine_measure hreceived
  have hcut := count_cutValue line'
  change 0 + _ < 0 + _ at hless
  omega

/-- What the loop makes of the header lines. -/
def scanLines (protocols : List Bytes) (ack : Bytes) (s : Scan) (headers : List Bytes) : Scan :=
  headers.foldl (fun s header => scanHeader protocols ack s (cstring header)) s

theorem reads_empty {prev line line' : Bytes} {script rest : List Arrival}
    (hfollows : Follows prev line) (hne : prev ≠ [])
    (h : receiveLine line script = (some 0, line', rest)) : Reads prev script [] rest := by
  rcases receiveLine_iff.mp h with ⟨text, seen, back', hsees, heq, -, hn, -⟩
  have hnil : text = [] := List.eq_nil_of_length_eq_zero hn.symm
  rw [hnil, List.nil_append, List.nil_append] at heq
  rw [heq] at hsees
  rcases hsees.origin with hfeeds | ⟨data, kept, middle, hsplit, hkept, hfeeds, hended, rfl, hback⟩
  · exact .empty hfeeds
  · cases data with
    | nil =>
        rw [List.nil_append] at hsplit
        rw [← hsplit] at hback
        have hline : line = [13, 10] ++ back' := hback
        have hstart : StartsEmpty line := by
          rw [hline]
          rfl
        exact absurd hstart (hfollows.not_startsEmpty hne)
    | cons c data =>
        cases data with
        | nil =>
            simp only [List.cons_append, List.nil_append, List.cons.injEq] at hsplit
            rcases hsplit with ⟨rfl, rfl⟩
            apply Reads.cut hfeeds hended
            rw [← hfollows.second hne]
            have hdrop : line.drop 1 = [10] ++ back' := hback
            have hsecond : line.getD 1 0 = (line.drop 1).getD 0 0 := by simp
            rw [hsecond, hdrop]
            rfl
        | cons d data =>
            have hlen := congrArg List.length hsplit
            have hpos := List.length_pos_iff.mpr hkept
            simp only [List.length_cons, List.length_append, List.length_nil] at hlen
            omega

theorem receiveHeaders_reads {s s' : Scan} {prev line : Bytes} {script rest : List Arrival}
    (hfollows : Follows prev line) (hne : prev ≠ [])
    (h : receiveHeaders protocols ack s line script = (some s', rest)) :
    ∃ headers, Reads prev script headers rest ∧ s' = scanLines protocols ack s headers := by
  rw [receiveHeaders_eq] at h
  cases hreceived : receiveLine line script with
  | mk rc received =>
      rcases received with ⟨line', middle⟩
      rw [hreceived] at h
      cases rc with
      | none => cases h
      | some n =>
          cases n with
          | zero =>
              cases h
              exact ⟨[], reads_empty hfollows hne hreceived, rfl⟩
          | succ n =>
              dsimp only at h
              rcases receiveLine_received hfollows.size hreceived with ⟨text, hreceived'⟩
              have htext : text ≠ [] := by
                rintro rfl
                cases hreceived'.length
              have hnext := (hreceived'.follows htext).cutValue
              rcases hreceived'.origin with hfeeds | rfl
              · rcases receiveHeaders_reads hnext htext h with ⟨headers, hreads, hs'⟩
                refine ⟨text :: headers, .line htext hreceived'.free hreceived'.fits hfeeds hreads, ?_⟩
                rw [hs', hreceived'.read]
                rfl
              · have hnone := @receiveHeaders_ended protocols ack
                  (scanHeader protocols ack s (cstring line')) _ (hnext.not_startsEmpty htext)
                rw [h] at hnone
                cases hnone
termination_by (arriving script).length + line.count 13
decreasing_by
  have hless := receiveLine_measure hreceived
  have hcut := count_cutValue line'
  omega

/-- The LF of the empty line is the byte that the buffer holds. -/
theorem Ended.sees_lf {middle : List Arrival} (hended : Ended middle) {line : Bytes}
    (hsecond : line.getD 1 0 = 10) : ∃ back, Sees middle (line.drop 1) [10] [] back := by
  have hbyte : line.getD 1 0 = (line.drop 1).getD 0 0 := by simp
  rw [hbyte] at hsecond
  cases hdrop : line.drop 1 with
  | nil =>
      rw [hdrop] at hsecond
      exact absurd hsecond (by decide)
  | cons c back =>
      rw [hdrop] at hsecond
      have hlf : c = 10 := hsecond
      rw [hlf]
      exact ⟨back, .step hended .done⟩

theorem receiveHeaders_of_reads {s : Scan} {prev line : Bytes} {script rest : List Arrival}
    {headers : List Bytes} (hfollows : Follows prev line) (hne : prev ≠ [])
    (h : Reads prev script headers rest) :
    receiveHeaders protocols ack s line script = (some (scanLines protocols ack s headers), rest) := by
  induction h generalizing s line with
  | @empty prev script rest hfeeds =>
      have hroom : [13, 10].length ≤ line.length := by
        rw [hfollows.size]
        decide
      have hreceived := receiveLine_iff.mpr
        ⟨[], _, _, hfeeds.sees hroom, rfl, crlfFree_nil, rfl, rfl⟩
      rw [receiveHeaders_eq, hreceived]
      rfl
  | @cut prev script middle hfeeds hended hsecond =>
      rw [← hfollows.second hne] at hsecond
      have hroom : [13].length ≤ line.length := by
        rw [hfollows.size]
        decide
      rcases hended.sees_lf hsecond with ⟨back, hlast⟩
      have hreceived := receiveLine_iff.mpr
        ⟨[], _, _, (hfeeds.sees hroom).append hlast, rfl, crlfFree_nil, rfl, rfl⟩
      rw [receiveHeaders_eq, hreceived]
      rfl
  | @line prev text script middle rest headers htext hfree hfits hfeeds _ ih =>
      have hroom : (text ++ [13, 10]).length ≤ line.length := by
        rw [hfollows.size, List.length_append]
        exact hfits
      have hsees := hfeeds.sees hroom
      have hreceived := receiveLine_iff.mpr ⟨text, _, _, hsees, rfl, hfree, rfl, rfl⟩
      have hnext := (follows_line hfollows.size hsees rfl hfree htext rfl).cutValue
      rcases Nat.exists_eq_succ_of_ne_zero (mt List.eq_nil_of_length_eq_zero htext) with ⟨k, hk⟩
      rw [hk] at hreceived
      rw [receiveHeaders_eq, hreceived]
      dsimp only
      rw [ih hnext htext, cstring_line]
      rfl

end Headers

/-! ## The whole block -/

/-- The reads give a status line and the header lines up to the empty one. -/
structure Answered (script : List Arrival) (status : Bytes) (headers : List Bytes)
    (rest : List Arrival) : Prop where
  free : CrlfFree status
  fits : status.length + 2 ≤ lineSize
  feeds : ∃ middle, Feeds script (status ++ [13, 10]) middle ∧ Reads status middle headers rest

/-- The status line and the header lines of a stream.  It may end before the LF of the empty
line. -/
structure Block (stream status : Bytes) (headers : List Bytes) : Prop where
  status_free : CrlfFree status
  headers_free : ∀ header ∈ headers, CrlfFree header ∧ header ≠ []
  split : ∃ rest, EmptyLine rest ∧ stream = status ++ 13 :: 10 :: (crlfLines headers ++ rest)

theorem Block.unique {stream status status' : Bytes} {headers headers' : List Bytes}
    (h : Block stream status headers) (h' : Block stream status' headers') :
    status = status' ∧ headers = headers' := by
  rcases h.split with ⟨rest, hrest, hsplit⟩
  rcases h'.split with ⟨rest', hrest', hsplit'⟩
  rcases h.status_free.unique h'.status_free (hsplit.symm.trans hsplit') with ⟨hstatus, hmore⟩
  exact ⟨hstatus, crlfLines_unique h.headers_free hrest h'.headers_free hrest' hmore⟩

theorem Reads.lines {prev : Bytes} {script rest : List Arrival} {headers : List Bytes}
    (h : Reads prev script headers rest) :
    (∀ header ∈ headers, CrlfFree header ∧ header ≠ []) ∧
      ∃ left, EmptyLine left ∧ arriving script = crlfLines headers ++ left := by
  induction h with
  | @empty prev script rest hfeeds =>
      exact ⟨List.forall_mem_nil _, 13 :: 10 :: arriving rest, .inr ⟨_, rfl⟩, hfeeds.arriving⟩
  | @cut prev script middle hfeeds hended _ =>
      refine ⟨List.forall_mem_nil _, [13], .inl rfl, ?_⟩
      rw [hfeeds.arriving, hended.arriving]
      rfl
  | @line prev text script middle rest headers htext hfree _ hfeeds _ ih =>
      rcases ih with ⟨hheaders, left, hleft, harriving⟩
      refine ⟨List.forall_mem_cons.mpr ⟨⟨hfree, htext⟩, hheaders⟩, left, hleft, ?_⟩
      rw [hfeeds.arriving, harriving]
      simp

theorem Reads.fits {prev : Bytes} {script rest : List Arrival} {headers : List Bytes}
    (h : Reads prev script headers rest) : ∀ header ∈ headers, header.length + 2 ≤ lineSize := by
  induction h with
  | empty => exact List.forall_mem_nil _
  | cut => exact List.forall_mem_nil _
  | line _ _ hfits _ _ ih => exact List.forall_mem_cons.mpr ⟨hfits, ih⟩

theorem Answered.block {script rest : List Arrival} {status : Bytes} {headers : List Bytes}
    (h : Answered script status headers rest) : Block (arriving script) status headers := by
  rcases h.feeds with ⟨middle, hfeeds, hreads⟩
  rcases hreads.lines with ⟨hheaders, left, hleft, harriving⟩
  refine ⟨h.free, hheaders, left, hleft, ?_⟩
  rw [hfeeds.arriving, harriving]
  simp

/-- A whole block whose bytes the reads give. -/
theorem answered_of_feeds {script rest : List Arrival} {status : Bytes} {headers : List Bytes}
    (hstatus : CrlfFree status ∧ status.length + 2 ≤ lineSize)
    (hheaders : ∀ header ∈ headers, (CrlfFree header ∧ header ≠ []) ∧ header.length + 2 ≤ lineSize)
    (h : Feeds script (crlfLines (status :: headers) ++ [13, 10]) rest) :
    Answered script status headers rest := by
  have hlines : ∀ {prev : Bytes} {middle : List Arrival},
      Feeds middle (crlfLines headers ++ [13, 10]) rest → Reads prev middle headers rest := by
    clear h
    induction headers with
    | nil =>
        intro prev middle hfeeds
        exact .empty hfeeds
    | cons header headers ih =>
        intro prev middle hfeeds
        rcases hheaders header List.mem_cons_self with ⟨⟨hfree, hne⟩, hfits⟩
        have hsplit : crlfLines (header :: headers) ++ [13, 10] =
            (header ++ [13, 10]) ++ (crlfLines headers ++ [13, 10]) := by simp
        rw [hsplit] at hfeeds
        rcases hfeeds.split with ⟨next, hfeeds, hmore⟩
        exact .line hne hfree hfits hfeeds
          (ih (fun header hin => hheaders header (List.mem_cons_of_mem _ hin)) hmore)
  have hsplit : crlfLines (status :: headers) ++ [13, 10] =
      (status ++ [13, 10]) ++ (crlfLines headers ++ [13, 10]) := by simp
  rw [hsplit] at h
  rcases h.split with ⟨middle, hfeeds, hmore⟩
  exact ⟨hstatus.1, hstatus.2, middle, hfeeds, hlines hmore⟩

/-- The variables at the end of the header lines. -/
def scanned (protocols : List Bytes) (ack : Bytes) (headers : List Bytes) : Scan :=
  scanLines protocols ack ⟨-1, false, 0, 3⟩ headers

theorem acceptsStatus_nil : acceptsStatus (cstring []) = false := by decide

theorem acceptsStatus_ne_nil {status : Bytes} (h : acceptsStatus (cstring status) = true) :
    status ≠ [] := by
  rintro rfl
  rw [acceptsStatus_nil] at h
  cases h

section Response

variable {protocols : List Bytes} {ack : Bytes} {line : LineBuffer} {script rest : List Arrival}

/-- The result and what is left to read, once the block is read. -/
theorem receiveResponse_of_answered {status : Bytes} {headers : List Bytes}
    (h : Answered script status headers rest) (haccepts : acceptsStatus (cstring status) = true) :
    receiveResponse protocols ack line script =
      let s := scanned protocols ack headers
      let rest := skipBody s.len s.clen rest
      if s.haserr ∨ s.result < 0 then (-1, rest) else (s.result, rest) := by
  have hne := acceptsStatus_ne_nil haccepts
  rcases h.feeds with ⟨middle, hfeeds, hreads⟩
  have hroom : (status ++ [13, 10]).length ≤ line.bytes.length := by
    rw [line.size, List.length_append]
    exact h.fits
  have hsees := hfeeds.sees hroom
  have hreceived := receiveLine_iff.mpr ⟨status, _, _, hsees, rfl, h.free, rfl, rfl⟩
  have hheaders := @receiveHeaders_of_reads protocols ack ⟨-1, false, 0, 3⟩ _ _ _ _ _
    (follows_line line.size hsees rfl h.free hne rfl) hne hreads
  rw [receiveResponse, hreceived]
  dsimp only
  rw [cstring_line, haccepts, hheaders]
  rfl

/-- The status line and the header lines, once they are all read. -/
theorem Received.answered {status line' : Bytes} {middle : List Arrival} {n : Nat} {s : Scan}
    (hstatus : Received script n line' middle status) (hne : status ≠ [])
    (hheaders : receiveHeaders protocols ack ⟨-1, false, 0, 3⟩ line' middle = (some s, rest)) :
    ∃ headers, Answered script status headers rest ∧ s = scanned protocols ack headers := by
  have hfollows := hstatus.follows hne
  rcases receiveHeaders_reads hfollows hne hheaders with ⟨headers, hreads, hs⟩
  rcases hstatus.origin with hfeeds | rfl
  · exact ⟨headers, ⟨hstatus.free, hstatus.fits, middle, hfeeds, hreads⟩, hs⟩
  · have hnone := @receiveHeaders_ended protocols ack ⟨-1, false, 0, 3⟩ _
      (hfollows.not_startsEmpty hne)
    rw [hheaders] at hnone
    cases hnone

/-- A response that is accepted has been read as a block. -/
theorem receiveResponse_answered {i : Int} (hi : 0 ≤ i)
    (h : receiveResponse protocols ack line script = (i, rest)) :
    ∃ status headers left, Answered script status headers left ∧
      acceptsStatus (cstring status) = true ∧ (scanned protocols ack headers).haserr = false ∧
      (scanned protocols ack headers).result = i ∧
      rest = skipBody (scanned protocols ack headers).len (scanned protocols ack headers).clen
        left := by
  have hrefused : ∀ left : List Arrival, ((-1 : Int), left) ≠ (i, rest) := by
    intro left heq
    have hvalue := congrArg Prod.fst heq
    change (-1 : Int) = i at hvalue
    omega
  rw [receiveResponse] at h
  cases hreceived : receiveLine line.bytes script with
  | mk rc received =>
      rcases received with ⟨line', middle⟩
      rw [hreceived] at h
      cases rc with
      | none => exact absurd h (hrefused _)
      | some n =>
          dsimp only at h
          rcases receiveLine_received line.size hreceived with ⟨status, hstatus⟩
          rw [hstatus.read] at h
          cases haccepts : acceptsStatus (cstring status) with
          | false =>
              rw [haccepts] at h
              exact absurd h (hrefused _)
          | true =>
              rw [haccepts] at h
              have hne := acceptsStatus_ne_nil haccepts
              cases hheaders : receiveHeaders protocols ack ⟨-1, false, 0, 3⟩ line' middle with
              | mk s left =>
                  rw [hheaders] at h
                  cases s with
                  | none => exact absurd h (hrefused _)
                  | some s =>
                      rcases hstatus.answered hne hheaders with ⟨headers, hanswered, rfl⟩
                      refine ⟨status, headers, left, hanswered, haccepts, ?_⟩
                      change (if (scanned protocols ack headers).haserr = true ∨
                        (scanned protocols ack headers).result < 0 then _ else _) = _ at h
                      split at h
                      case isTrue => exact absurd h (hrefused _)
                      case isFalse hnot =>
                        rw [not_or, Bool.not_eq_true] at hnot
                        cases h
                        exact ⟨hnot.1, rfl, rfl⟩

end Response

end AfbBinder.WsClient
