import AfbBinder.Lib.Crlf

/-!
# Reading lines without buffering

`receive_line` of the websocket client, which reads a line byte by byte into a buffer.
What the blocking socket answers is a script; after it the peer has closed, and a `read`
gives no byte: the loop then goes on with what the buffer holds.
-/

namespace AfbBinder.WsClient

open Lib

/-! ## Reading -/

/-- What a `read` finds: at least one byte, a signal or an error. -/
inductive Arrival where
  | data (first : UInt8) (rest : Bytes)
  | intr
  | fail (code : Nat)
deriving DecidableEq, Repr

/-- The bytes of the script, however they are cut. -/
def arriving : List Arrival → Bytes
  | [] => []
  | .data first rest :: script => first :: rest ++ arriving script
  | .intr :: script => arriving script
  | .fail _ :: script => arriving script

/-- `read` of at most `size` bytes, again on `EINTR`; `none` is the result -1. -/
def read : Nat → List Arrival → Option Bytes × List Arrival
  | 0, script => (some [], script)
  | _ + 1, [] => (some [], [])
  | n + 1, .intr :: rest => read (n + 1) rest
  | _ + 1, .fail _ :: rest => (none, rest)
  | n + 1, .data first more :: rest =>
      match more.drop n with
      | [] => (some (first :: more), rest)
      | b :: left => (some (first :: more.take n), .data b left :: rest)

/-- The loop of `receive_line`, the buffer being split at `length`.  At the end of the
stream nothing is written: the loop goes on with the byte that the buffer holds. -/
def receiveFrom (cr : Bool) (front : Bytes) :
    Bytes → List Arrival → Option Nat × Bytes × List Arrival
  | [], script => (none, front, script)
  | old :: back, script =>
      match read 1 script with
      | (none, rest) => (none, front ++ old :: back, rest)
      | (some got, rest) =>
          let c := got.headD old
          if c = 13 then receiveFrom true (front ++ [c]) back rest
          else if cr && c = 10 then
            (some (front.length - 1), front.dropLast ++ 0 :: c :: back, rest)
          else receiveFrom false (front ++ [c]) back rest

/-- `receive_line`: the length of the line, the buffer and what is left to read. -/
def receiveLine (line : Bytes) (script : List Arrival) : Option Nat × Bytes × List Arrival :=
  receiveFrom false [] line script

/-! ## What the reads give -/

/-- No read fails. -/
def Plain (script : List Arrival) : Prop := ∀ code, .fail code ∉ script

theorem Plain.rest {a : Arrival} {script : List Arrival} (h : Plain (a :: script)) : Plain script :=
  fun code hin => h code (List.mem_cons_of_mem a hin)

theorem read_cases (n : Nat) (script : List Arrival) :
    (∃ rest, read (n + 1) script = (none, rest) ∧ ¬ Plain script) ∨
      (read (n + 1) script = (some [], []) ∧ arriving script = []) ∨
      ∃ data rest, read (n + 1) script = (some data, rest) ∧ 0 < data.length ∧
        data.length ≤ n + 1 ∧ arriving script = data ++ arriving rest ∧
        (Plain script → Plain rest) := by
  induction script with
  | nil => exact .inr (.inl ⟨rfl, rfl⟩)
  | cons a script ih =>
      cases a with
      | intr =>
          rcases ih with ⟨rest, hread, hfail⟩ | hend | ⟨data, rest, hread, hpos, hle, harriving, hplain⟩
          · exact .inl ⟨rest, hread, fun h => hfail h.rest⟩
          · exact .inr (.inl hend)
          · exact .inr (.inr ⟨data, rest, hread, hpos, hle, harriving, fun h => hplain h.rest⟩)
      | fail code => exact .inl ⟨script, rfl, fun h => h code List.mem_cons_self⟩
      | data first more =>
          right
          right
          rw [read]
          cases hdrop : more.drop n with
          | nil =>
              have hle : more.length ≤ n := List.drop_eq_nil_iff.mp hdrop
              exact ⟨first :: more, script, rfl, Nat.succ_pos _, Nat.succ_le_succ hle, rfl,
                fun h => h.rest⟩
          | cons b left =>
              refine ⟨first :: more.take n, .data b left :: script, rfl, Nat.succ_pos _, ?_, ?_, ?_⟩
              · rw [List.length_cons, List.length_take]
                omega
              · conv =>
                  lhs
                  rw [← List.take_append_drop n more, hdrop]
                simp [arriving]
              · intro h code hin
                rcases List.mem_cons.mp hin with heq | hin
                · cases heq
                · exact h.rest code hin

/-- The peer has closed and no error is left. -/
def Ended (script : List Arrival) : Prop := read 1 script = (some [], [])

/-- One `read` after another takes these bytes. -/
inductive Feeds : List Arrival → Bytes → List Arrival → Prop
  | done {script : List Arrival} : Feeds script [] script
  | byte {script middle rest : List Arrival} {b : UInt8} {data : Bytes} :
      read 1 script = (some [b], middle) → Feeds middle data rest → Feeds script (b :: data) rest

/-- The bytes that the loop of `receive_line` sees over a part of the buffer. -/
inductive Sees : List Arrival → Bytes → Bytes → List Arrival → Bytes → Prop
  | done {script : List Arrival} {back : Bytes} : Sees script back [] script back
  | step {script middle rest : List Arrival} {got back back' seen : Bytes} {old : UInt8} :
      read 1 script = (some got, middle) → Sees middle back seen rest back' →
      Sees script (old :: back) (got.headD old :: seen) rest back'

theorem read_one {script rest : List Arrival} {b : UInt8} (h : read 1 script = (some [b], rest)) :
    arriving script = b :: arriving rest := by
  rcases read_cases 0 script with ⟨left, hfail, -⟩ | ⟨hend, -⟩ | ⟨data, left, hread, -, -, harriving, -⟩
  · rw [hfail] at h
    cases h
  · rw [hend] at h
    cases h
  · rw [hread] at h
    cases h
    exact harriving

theorem Feeds.arriving {script rest : List Arrival} {data : Bytes} (h : Feeds script data rest) :
    arriving script = data ++ arriving rest := by
  induction h with
  | done => rfl
  | byte hread _ ih => rw [read_one hread, ih, List.cons_append]

theorem Feeds.append {script middle rest : List Arrival} {data more : Bytes}
    (h : Feeds script data middle) (hmore : Feeds middle more rest) :
    Feeds script (data ++ more) rest := by
  induction h with
  | done => exact hmore
  | byte hread _ ih => exact .byte hread (ih hmore)

theorem Feeds.split {script rest : List Arrival} {data more : Bytes}
    (h : Feeds script (data ++ more) rest) :
    ∃ middle, Feeds script data middle ∧ Feeds middle more rest := by
  induction data generalizing script with
  | nil => exact ⟨script, .done, h⟩
  | cons b data ih =>
      cases h with
      | byte hread hrest =>
          rcases ih hrest with ⟨middle, hfeeds, hmore⟩
          exact ⟨middle, .byte hread hfeeds, hmore⟩

theorem Feeds.unique {script rest rest' : List Arrival} {data : Bytes} (h : Feeds script data rest)
    (h' : Feeds script data rest') : rest = rest' := by
  induction h with
  | done =>
      cases h'
      rfl
  | byte hread _ ih =>
      cases h' with
      | byte hread' hrest' =>
          rw [hread] at hread'
          cases hread'
          exact ih hrest'

/-- The bytes that arrive can be read one after another when no read fails. -/
theorem feeds_of_arriving {script : List Arrival} {data more : Bytes} (hplain : Plain script)
    (h : arriving script = data ++ more) :
    ∃ rest, Feeds script data rest ∧ arriving rest = more ∧ Plain rest := by
  induction data generalizing script with
  | nil => exact ⟨script, .done, h, hplain⟩
  | cons b data ih =>
      rcases read_cases 0 script with ⟨-, -, hfail⟩ | ⟨-, hnone⟩ |
        ⟨got, middle, hread, hpos, hle, harriving, hmiddle⟩
      · exact absurd hplain hfail
      · rw [h] at hnone
        cases hnone
      · rcases List.length_eq_one_iff.mp (Nat.le_antisymm hle hpos) with ⟨c, rfl⟩
        rw [h] at harriving
        rcases List.cons_eq_cons.mp harriving with ⟨rfl, hmore⟩
        rcases ih (hmiddle hplain) hmore.symm with ⟨rest, hfeeds, hrest, hplain'⟩
        exact ⟨rest, .byte hread hfeeds, hrest, hplain'⟩

theorem Ended.arriving {script : List Arrival} (h : Ended script) : arriving script = [] := by
  rcases read_cases 0 script with ⟨left, hfail, -⟩ | ⟨-, hnone⟩ | ⟨data, left, hread, hpos, -⟩
  · have := hfail.symm.trans h
    cases this
  · exact hnone
  · have := hread.symm.trans h
    cases this
    cases hpos

theorem Feeds.sees {script rest : List Arrival} {data : Bytes} (h : Feeds script data rest)
    {back : Bytes} (hroom : data.length ≤ back.length) :
    Sees script back data rest (back.drop data.length) := by
  induction h generalizing back with
  | done => exact .done
  | byte hread _ ih =>
      cases back with
      | nil => cases hroom
      | cons old back => exact .step hread (ih (Nat.le_of_succ_le_succ hroom))

theorem Sees.append {script middle rest : List Arrival} {back back' back'' seen more : Bytes}
    (h : Sees script back seen middle back') (hmore : Sees middle back' more rest back'') :
    Sees script back (seen ++ more) rest back'' := by
  induction h with
  | done => exact hmore
  | step hread _ ih => exact .step hread (ih hmore)

/-- After the end of the stream the loop sees what the buffer holds. -/
theorem Sees.kept {rest : List Arrival} {back seen back' : Bytes} (h : Sees [] back seen rest back') :
    rest = [] ∧ back = seen ++ back' := by
  induction back generalizing seen with
  | nil =>
      cases h
      exact ⟨rfl, rfl⟩
  | cons old back ih =>
      cases h with
      | done => exact ⟨rfl, rfl⟩
      | step hread hmore =>
          cases hread
          rcases ih hmore with ⟨hrest, hback⟩
          exact ⟨hrest, congrArg (old :: ·) hback⟩

/-- The bytes seen come from the stream, or the stream ends and the last of them were in
the buffer. -/
theorem Sees.origin {script rest : List Arrival} {back seen back' : Bytes}
    (h : Sees script back seen rest back') :
    Feeds script seen rest ∨
      ∃ data kept middle, seen = data ++ kept ∧ kept ≠ [] ∧ Feeds script data middle ∧
        Ended middle ∧ rest = [] ∧ back.drop data.length = kept ++ back' := by
  induction h with
  | done => exact .inl .done
  | @step script middle rest got back back' seen old hread hrest ih =>
      rcases read_cases 0 script with ⟨left, hfail, -⟩ | ⟨hend, -⟩ | ⟨data, left, hsome, hpos, hle, -⟩
      · rw [hfail] at hread
        cases hread
      · rw [hend] at hread
        cases hread
        rcases hrest.kept with ⟨rfl, rfl⟩
        exact .inr ⟨[], old :: seen, script, rfl, List.cons_ne_nil _ _, .done, hend, rfl, rfl⟩
      · rw [hsome] at hread
        cases hread
        rcases List.length_eq_one_iff.mp (Nat.le_antisymm hle hpos) with ⟨b, rfl⟩
        rcases ih with hfeeds | ⟨data, kept, ended, rfl, hkept, hfeeds, hended, hnil, hback⟩
        · exact .inl (.byte hsome hfeeds)
        · exact .inr ⟨b :: data, kept, ended, rfl, hkept, .byte hsome hfeeds, hended, hnil, hback⟩

theorem Sees.back {script rest : List Arrival} {back seen back' : Bytes}
    (h : Sees script back seen rest back') :
    back.drop seen.length = back' ∧ seen.length ≤ back.length := by
  induction h with
  | done => exact ⟨rfl, Nat.zero_le _⟩
  | step _ _ ih => exact ⟨ih.1, Nat.succ_le_succ ih.2⟩

/-! ## The line -/

/-- A line is seen after the bytes at the front of the buffer; then the buffer holds its
text, and the LF is left where it was read. -/
def SeesLine (front : Bytes) (script : List Arrival) (back : Bytes) (n : Nat) (line' : Bytes)
    (rest : List Arrival) : Prop :=
  ∃ text seen back', Sees script back seen rest back' ∧ front ++ seen = text ++ [13, 10] ∧
    CrlfFree text ∧ n = text.length ∧ line' = text ++ 0 :: 10 :: back'

section SeesLine

variable {front back line' : Bytes} {script middle rest : List Arrival} {n : Nat} {old : UInt8}

theorem front_not_line (hfree : CrlfFree front) (text : Bytes) : front ++ [] ≠ text ++ [13, 10] := by
  intro heq
  rw [List.append_nil] at heq
  exact hfree ⟨text, [], by rw [heq, List.append_nil]⟩

theorem not_seesLine_full (hfree : CrlfFree front) : ¬ SeesLine front script [] n line' rest := by
  rintro ⟨text, seen, back', hsees, heq, -⟩
  cases hsees
  exact front_not_line hfree text heq

theorem not_seesLine_fail (hfree : CrlfFree front) (hread : read 1 script = (none, middle)) :
    ¬ SeesLine front script (old :: back) n line' rest := by
  rintro ⟨text, seen, back', hsees, heq, -⟩
  cases hsees with
  | done => exact front_not_line hfree text heq
  | step hread' _ =>
      rw [hread] at hread'
      cases hread'

theorem seesLine_step (hfree : CrlfFree front) {got : Bytes} (hread : read 1 script = (some got, middle)) :
    SeesLine front script (old :: back) n line' rest ↔
      SeesLine (front ++ [got.headD old]) middle back n line' rest := by
  constructor
  · rintro ⟨text, seen, back', hsees, heq, hline⟩
    cases hsees with
    | done => exact absurd heq (front_not_line hfree text)
    | step hread' hmore =>
        rw [hread] at hread'
        cases hread'
        exact ⟨text, _, back', hmore, by rw [List.append_assoc]; exact heq, hline⟩
  · rintro ⟨text, seen, back', hsees, heq, hline⟩
    rw [List.append_assoc] at heq
    exact ⟨text, _, back', .step hread hsees, heq, hline⟩

/-- The line ends on its LF. -/
theorem seesLine_end {text : Bytes} (hfree : CrlfFree text) :
    SeesLine (text ++ [13, 10]) script back n line' rest ↔
      n = text.length ∧ line' = text ++ 0 :: 10 :: back ∧ rest = script := by
  constructor
  · rintro ⟨text', seen, back', hsees, heq, hfree', rfl, rfl⟩
    have hsplit : text ++ 13 :: 10 :: seen = text' ++ 13 :: 10 :: [] := by simpa using heq
    rcases hfree.unique hfree' hsplit with ⟨rfl, rfl⟩
    cases hsees
    exact ⟨rfl, rfl, rfl⟩
  · rintro ⟨rfl, rfl, rfl⟩
    exact ⟨text, [], back, .done, List.append_nil _, hfree, rfl, rfl⟩

end SeesLine

theorem receiveFrom_iff {cr : Bool} {front back line' : Bytes} {script rest : List Arrival} {n : Nat}
    (hfree : CrlfFree front) (hcr : cr = true ↔ front.getLast? = some 13) :
    receiveFrom cr front back script = (some n, line', rest) ↔
      SeesLine front script back n line' rest := by
  induction back generalizing cr front script with
  | nil => exact iff_of_false (fun h => nomatch h) (not_seesLine_full hfree)
  | cons old back ih =>
      rw [receiveFrom]
      cases hread : read 1 script with
      | mk got middle =>
          cases got with
          | none => exact iff_of_false (fun h => nomatch h) (not_seesLine_fail hfree hread)
          | some got =>
              rw [seesLine_step hfree hread]
              dsimp only
              generalize got.headD old = c
              split
              case isTrue hc =>
                rw [hc]
                have hfree' := hfree.snoc (c := 13) (fun h => absurd h.1 (by decide))
                exact ih hfree' (iff_of_true rfl List.getLast?_concat)
              case isFalse hother =>
                split
                case isTrue hend =>
                  rw [Bool.and_eq_true, decide_eq_true_eq, hcr] at hend
                  rcases List.getLast?_eq_some_iff.mp hend.1 with ⟨text, rfl⟩
                  rw [hend.2, List.append_assoc, List.singleton_append, seesLine_end hfree.front,
                    List.dropLast_concat, List.length_append]
                  constructor
                  · intro h
                    cases h
                    exact ⟨rfl, rfl, rfl⟩
                  · rintro ⟨rfl, rfl, rfl⟩
                    rfl
                case isFalse hmore =>
                  have hfree' := hfree.snoc (c := c) (by
                    intro h
                    rw [Bool.and_eq_true, decide_eq_true_eq, hcr] at hmore
                    exact hmore ⟨h.2, h.1⟩)
                  refine ih hfree' (iff_of_false (fun h => nomatch h) ?_)
                  rw [List.getLast?_concat]
                  exact fun h => hother (Option.some.inj h)

theorem receiveLine_iff {line line' : Bytes} {script rest : List Arrival} {n : Nat} :
    receiveLine line script = (some n, line', rest) ↔ SeesLine [] script line n line' rest :=
  receiveFrom_iff crlfFree_nil (iff_of_false (fun h => nomatch h) (fun h => nomatch h))

/-! ## The measure of the loop over the lines -/

/-- Each byte read may leave a CR in the buffer. -/
theorem Sees.crs {script rest : List Arrival} {back seen back' : Bytes}
    (h : Sees script back seen rest back') :
    (arriving rest).length + (seen.count 13 + back'.count 13) ≤
      (arriving script).length + back.count 13 := by
  induction h with
  | done => simp
  | @step script middle rest got back back' seen old hread _ ih =>
      rcases read_cases 0 script with ⟨left, hfail, -⟩ | ⟨hend, hnone⟩ |
        ⟨data, left, hsome, hpos, hle, harriving, -⟩
      · rw [hfail] at hread
        cases hread
      · rw [hend] at hread
        cases hread
        rw [hnone, List.headD_nil, List.count_cons, List.count_cons]
        change _ ≤ 0 + back.count 13 at ih
        simp only [List.length_nil]
        omega
      · rw [hsome] at hread
        cases hread
        rcases List.length_eq_one_iff.mp (Nat.le_antisymm hle hpos) with ⟨b, rfl⟩
        rw [harriving, List.headD_cons, List.count_cons, List.count_cons, List.singleton_append,
          List.length_cons]
        have hone : (if (b == 13) = true then 1 else 0) ≤ 1 := by
          split
          · exact Nat.le_refl _
          · exact Nat.zero_le _
        omega

/-- A line takes bytes from the stream or a CR from the buffer. -/
theorem receiveLine_measure {line line' : Bytes} {script rest : List Arrival} {n : Nat}
    (h : receiveLine line script = (some n, line', rest)) :
    (arriving rest).length + line'.count 13 < (arriving script).length + line.count 13 := by
  rcases receiveLine_iff.mp h with ⟨text, seen, back', hsees, heq, -, -, rfl⟩
  have hcrs := hsees.crs
  rw [List.nil_append] at heq
  have hseen : seen.count 13 = text.count 13 + 1 := by
    rw [heq, List.count_append]
    rfl
  have hline : (text ++ 0 :: 10 :: back').count 13 = text.count 13 + back'.count 13 := by
    rw [List.count_append]
    rfl
  omega

end AfbBinder.WsClient
