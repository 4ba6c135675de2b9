import AfbBinder.Lib.Bytes

/-!
# The socket under a websocket

What the socket answers is a script: each entry of `List Rx` is what one `readv`
finds, each entry of `List Tx` what one `writev` finds.  A chunk longer than the
room given to `readv` is kept for the next one.  After the script nothing more
arrives and every write is taken whole.
-/

namespace AfbBinder.Ws

open Lib

inductive Errno where
  | EAGAIN
  | EPIPE
  | EINVAL
  | other (code : Nat)
deriving DecidableEq, Repr

/-- What a `readv` finds: at least one byte, or a reason to have none. -/
inductive Rx where
  | data (first : UInt8) (rest : Bytes)
  | again
  | intr
  | eof
  | fail (code : Nat)
deriving DecidableEq, Repr

/-- What a `writev` finds: room for `more + 1` bytes, or a reason to write none. -/
inductive Tx where
  | room (more : Nat)
  | again
  | intr
  | fail (code : Nat)
deriving DecidableEq, Repr

/-- What a function returning 0 or -1 returns, with `errno`. -/
inductive Rc where
  | ok
  | error (errno : Errno)
deriving DecidableEq, Repr

inductive Received where
  | bytes (data : Bytes)
  | error (errno : Errno)
deriving DecidableEq, Repr

/-- `aws_readv` with one vector of `size` bytes: it starts again on `EINTR`, and the
count 0 becomes `EPIPE`. -/
def awsReadv : Nat → List Rx → Received × List Rx
  | 0, script => (.error .EPIPE, script)
  | _ + 1, [] => (.error .EAGAIN, [])
  | _ + 1, .again :: rest => (.error .EAGAIN, rest)
  | n + 1, .intr :: rest => awsReadv (n + 1) rest
  | _ + 1, .eof :: rest => (.error .EPIPE, rest)
  | _ + 1, .fail code :: rest => (.error (.other code), rest)
  | n + 1, .data first more :: rest =>
      match more.drop n with
      | [] => (.bytes (first :: more), rest)
      | b :: left => (.bytes (first :: more.take n), .data b left :: rest)

/-- `aws_writev` on the bytes of its vectors: it starts again on `EINTR` and, after a
poll, on `EAGAIN`.  Gives the bytes taken by the socket. -/
def awsWritev (data : Bytes) : List Tx → Received × List Tx
  | [] => (.bytes data, [])
  | .room more :: rest => (.bytes (data.take (more + 1)), rest)
  | .again :: rest => awsWritev data rest
  | .intr :: rest => awsWritev data rest
  | .fail code :: rest => (.error (.other code), rest)

/-! ## What arrives -/

/-- The bytes of the script, however they are cut. -/
def arriving : List Rx → Bytes
  | [] => []
  | .data first rest :: script => first :: rest ++ arriving script
  | _ :: script => arriving script

/-- The script fails before it delivers the given number of bytes. -/
def failsWithin : Nat → List Rx → Bool
  | 0, _ => false
  | _ + 1, [] => false
  | _ + 1, .eof :: _ => true
  | _ + 1, .fail _ :: _ => true
  | n + 1, .again :: script => failsWithin (n + 1) script
  | n + 1, .intr :: script => failsWithin (n + 1) script
  | n + 1, .data _ rest :: script => failsWithin (n - rest.length) script

/-- A read that is only delayed or interrupted. -/
def Rx.delays : Rx → Bool
  | .data _ _ => true
  | .again => true
  | .intr => true
  | .eof => false
  | .fail _ => false

theorem failsWithin_of_delays {n : Nat} {script : List Rx} (h : ∀ rx ∈ script, rx.delays = true) :
    failsWithin n script = false := by
  induction script generalizing n with
  | nil => cases n <;> rfl
  | cons rx script ih =>
      have hrest : ∀ rx ∈ script, rx.delays = true := fun r hr => h r (by simp [hr])
      cases n with
      | zero => rfl
      | succ n =>
          cases rx with
          | eof => simp [Rx.delays] at h
          | fail code => simp [Rx.delays] at h
          | again => exact ih hrest
          | intr => exact ih hrest
          | data first rest => exact ih hrest

/-- The three ways a `readv` for some bytes can end: it says `EAGAIN`; it fails; it takes
some of the bytes that arrive, and the whole entry unless it is given all it asked for. -/
theorem awsReadv_cases (n : Nat) (script : List Rx) :
    ∃ rest, ((∀ rx ∈ script, rx.delays = true) → ∀ rx ∈ rest, rx.delays = true) ∧
      ((awsReadv (n + 1) script = (.error .EAGAIN, rest) ∧ arriving rest = arriving script ∧
          (rest = [] ∨ rest.length < script.length) ∧
          failsWithin (n + 1) rest = failsWithin (n + 1) script) ∨
        (∃ errno, awsReadv (n + 1) script = (.error errno, rest) ∧ errno ≠ .EAGAIN ∧
          failsWithin (n + 1) script = true) ∨
        ∃ data, awsReadv (n + 1) script = (.bytes data, rest) ∧ 0 < data.length ∧
          data.length ≤ n + 1 ∧ arriving script = data ++ arriving rest ∧
          (data.length < n + 1 → rest.length < script.length) ∧ rest.length ≤ script.length ∧
          failsWithin (n + 1 - data.length) rest = failsWithin (n + 1) script) := by
  induction script with
  | nil => exact ⟨[], fun h => h, Or.inl ⟨rfl, rfl, Or.inl rfl, rfl⟩⟩
  | cons rx script ih =>
      have hrest : (∀ r ∈ rx :: script, r.delays = true) → ∀ r ∈ script, r.delays = true :=
        fun h r hr => h r (by simp [hr])
      cases rx with
      | again => exact ⟨script, hrest, Or.inl ⟨rfl, rfl, Or.inr (by simp), rfl⟩⟩
      | eof => exact ⟨script, hrest, Or.inr (Or.inl ⟨.EPIPE, rfl, by simp, rfl⟩)⟩
      | fail code => exact ⟨script, hrest, Or.inr (Or.inl ⟨.other code, rfl, by simp, rfl⟩)⟩
      | intr =>
          -- the loop of `aws_readv`: what holds of the rest of the script
          obtain ⟨rest, hdelays, hcase⟩ := ih
          refine ⟨rest, fun h => hdelays (hrest h), ?_⟩
          simp only [awsReadv, arriving, failsWithin, List.length_cons]
          rcases hcase with ⟨hread, harr, hlen, hfail⟩ | hfailed |
            ⟨data, hread, hpos, hle, harr, hlen, hbound, hfail⟩
          · exact Or.inl ⟨hread, harr, hlen.imp_right fun hlt => by omega, hfail⟩
          · exact Or.inr (Or.inl hfailed)
          · refine Or.inr (Or.inr ⟨data, hread, hpos, hle, harr, fun hlt => ?_, ?_, hfail⟩)
            · have := hlen hlt
              omega
            · omega
      | data first more =>
          cases hdrop : more.drop n with
          | nil =>
              have hle : more.length ≤ n := List.drop_eq_nil_iff.mp hdrop
              refine ⟨script, hrest, Or.inr (Or.inr ⟨first :: more, by simp [awsReadv, hdrop], by simp,
                by simpa using hle, rfl, fun _ => by simp, by simp, ?_⟩)⟩
              simp [failsWithin]
          | cons b left =>
              have hlt : n < more.length := by
                rcases Nat.lt_or_ge n more.length with hlt | hge
                · exact hlt
                · simp [List.drop_eq_nil_of_le hge] at hdrop
              have hlen : (first :: more.take n).length = n + 1 := by
                simp only [List.length_cons, List.length_take]
                omega
              have hsplit : more = more.take n ++ b :: left := by
                rw [← hdrop, List.take_append_drop]
              refine ⟨.data b left :: script, ?_, Or.inr (Or.inr ⟨first :: more.take n,
                by simp [awsReadv, hdrop], by simp, by omega, ?_, fun hshort => by omega,
                by simp, ?_⟩)⟩
              · intro h r hr
                rcases List.mem_cons.mp hr with rfl | hr
                · rfl
                · exact hrest h r hr
              · simp only [arriving, List.cons_append]
                rw [← List.cons_append (a := b), ← List.append_assoc, ← hsplit]
              · have hnone : n - more.length = 0 := by omega
                rw [hlen, Nat.sub_self, failsWithin, failsWithin, hnone, failsWithin]

/-- A `readv` takes the bytes that arrive in their order; when it has none, none is lost. -/
theorem awsReadv_arriving (size : Nat) (script : List Rx) :
    match awsReadv size script with
    | (.error _, rest) => arriving rest = arriving script
    | (.bytes data, rest) => data.length ≤ size ∧ arriving script = data ++ arriving rest := by
  induction script with
  | nil => cases size <;> rfl
  | cons rx script ih =>
      cases size with
      | zero => rfl
      | succ n =>
          cases rx with
          | again => rfl
          | eof => rfl
          | fail code => rfl
          | intr => exact ih
          | data first more =>
              rw [awsReadv]
              cases hdrop : more.drop n with
              | nil =>
                  have hle : more.length ≤ n := List.drop_eq_nil_iff.mp hdrop
                  exact ⟨Nat.succ_le_succ hle, rfl⟩
              | cons b left =>
                  have hsplit : more = more.take n ++ b :: left := by
                    rw [← hdrop, List.take_append_drop]
                  constructor
                  · rw [List.length_cons, List.length_take]
                    omega
                  · conv =>
                      lhs
                      rw [hsplit]
                    simp [arriving]

end AfbBinder.Ws
