import Mathlib.Algebra.Group.Nat.Defs
import Mathlib.Data.List.TakeWhile
import Mathlib.Logic.Function.Basic

/-!
# Byte strings

C strings are their bytes without the final NUL; buffers are lists of bytes.
-/

namespace AfbBinder.Lib

abbrev Bytes := List UInt8

/-- The bytes of a text are checked one after the other, not the 256 values. -/
theorem forall_mem_of_all {P : UInt8 → Prop} [DecidablePred P] {bytes : Bytes}
    (h : bytes.all (fun c => decide (P c)) = true) : ∀ c ∈ bytes, P c := by
  simpa only [List.all_eq_true, decide_eq_true_eq] using h

/-- The text of a C string. -/
structure CString where
  bytes : Bytes
  nulFree : (0 : UInt8) ∉ bytes

/-- The C string that starts at the head of the bytes. -/
def cstring (bytes : Bytes) : Bytes := bytes.takeWhile (· ≠ 0)

theorem cstring_append (s : CString) (rest : Bytes) :
    cstring (s.bytes ++ 0 :: rest) = s.bytes := by
  unfold cstring
  rw [List.takeWhile_append_of_pos]
  · simp
  · intro b hb
    simpa using fun h : b = 0 => s.nulFree (h ▸ hb)

theorem nul_not_mem_cstring (text : Bytes) : 0 ∉ cstring text := by
  intro hin
  simpa using List.mem_takeWhile_imp hin

theorem nul_split {s front back : Bytes} (hnul : (0 : UInt8) ∉ s)
    (h : s ++ [0] = front ++ 0 :: back) : s = front ∧ back = [] := by
  induction s generalizing front with
  | nil =>
      cases front with
      | nil => simpa using h.symm
      | cons c front => simp at h
  | cons b s ih =>
      rw [List.mem_cons, not_or] at hnul
      cases front with
      | nil =>
          have hb := (List.cons_eq_cons.mp h).1
          exact absurd hb.symm hnul.1
      | cons c front =>
          obtain ⟨rfl, htail⟩ := List.cons_eq_cons.mp h
          obtain ⟨rfl, hback⟩ := ih hnul.2 htail
          exact ⟨rfl, hback⟩

/-! ## Comparing without the case -/

/-- `tolower` in the C locale. -/
def tolower (c : UInt8) : UInt8 := if 65 ≤ c ∧ c ≤ 90 then c + 32 else c

/-- `strncasecmp(s, t, n) == 0`, on texts that a NUL follows. -/
def strncaseeq : Nat → Bytes → Bytes → Bool
  | 0, _, _ => true
  | _ + 1, [], [] => true
  | n + 1, c :: s, d :: t => tolower c = tolower d && strncaseeq n s t
  | _ + 1, _, _ => false

/-- `strcasecmp(s, t) == 0` -/
def strcaseeq (s t : Bytes) : Bool := s.map tolower = t.map tolower

theorem strncaseeq_iff (n : Nat) (s t : Bytes) :
    strncaseeq n s t = true ↔ (s.take n).map tolower = (t.take n).map tolower := by
  induction n generalizing s t with
  | zero => simp [strncaseeq]
  | succ n ih =>
      cases s with
      | nil =>
          cases t with
          | nil => simp [strncaseeq]
          | cons d t => simp [strncaseeq]
      | cons c s =>
          cases t with
          | nil => simp [strncaseeq]
          | cons d t => simp [strncaseeq, ih]

/-- `strncasecmp(s, t, n)`, on texts that a NUL follows. -/
def strncasecmp : Nat → Bytes → Bytes → Int
  | 0, _, _ => 0
  | n + 1, s, t =>
      let c := tolower (s.headD 0)
      let d := tolower (t.headD 0)
      if c = d ∧ c ≠ 0 then strncasecmp n s.tail t.tail else c.toNat - d.toNat

/-- `tolower` leaves the bytes before the letters and gives none of them for a letter. -/
theorem tolower_eq_iff {b : UInt8} (hb : b < 65) (c : UInt8) : tolower c = b ↔ c = b := by
  unfold tolower
  split
  · rename_i hupper
    rw [UInt8.le_iff_toNat_le, UInt8.le_iff_toNat_le] at hupper
    rw [UInt8.lt_iff_toNat_lt] at hb
    rw [← UInt8.toNat_inj, ← UInt8.toNat_inj, UInt8.toNat_add]
    simp only [UInt8.reduceToNat] at hupper hb ⊢
    omega
  · rfl

/-- The comparison reads the bytes before the given number, without their case. -/
theorem strncasecmp_congr {n : Nat} (s : Bytes) {t t' : Bytes}
    (h : (t.take n).map tolower = (t'.take n).map tolower) :
    strncasecmp n s t = strncasecmp n s t' := by
  induction n generalizing s t t' with
  | zero => rfl
  | succ n ih =>
      cases t with
      | nil =>
          cases t' with
          | nil => rfl
          | cons d t' => simp at h
      | cons c t =>
          cases t' with
          | nil => simp at h
          | cons d t' =>
              simp only [List.take_succ_cons, List.map_cons, List.cons.injEq] at h
              have hhead : tolower ((c :: t).headD 0) = tolower ((d :: t').headD 0) := h.1
              have hrest : strncasecmp n s.tail (c :: t).tail =
                strncasecmp n s.tail (d :: t').tail := ih s.tail h.2
              simp only [strncasecmp, hhead, hrest]

/-- One byte of the comparison, on numbers. -/
theorem strncasecmp_succ (n : Nat) (s t : Bytes) :
    strncasecmp (n + 1) s t =
      if (tolower (s.headD 0)).toNat = (tolower (t.headD 0)).toNat ∧
          (tolower (s.headD 0)).toNat ≠ 0 then strncasecmp n s.tail t.tail
      else (tolower (s.headD 0)).toNat - (tolower (t.headD 0)).toNat := by
  have hsame : tolower (s.headD 0) = tolower (t.headD 0) ↔
      (tolower (s.headD 0)).toNat = (tolower (t.headD 0)).toNat := UInt8.toNat_inj.symm
  have hzero : tolower (s.headD 0) = 0 ↔ (tolower (s.headD 0)).toNat = 0 := UInt8.toNat_inj.symm
  simp only [strncasecmp, ne_eq, hsame, hzero]

/-- A text that is not after another one, compared with a third text over as many bytes or
fewer: it is before the third one when the other one is. -/
theorem strncasecmp_before {n m : Nat} (hnm : n ≤ m) {s t u : Bytes} (hst : strncasecmp m s t ≤ 0)
    (h : strncasecmp n t u < 0) : strncasecmp n s u < 0 := by
  induction n generalizing m s t u with
  | zero => cases h
  | succ n ih =>
      rcases Nat.exists_eq_succ_of_ne_zero (Nat.ne_of_gt (Nat.lt_of_lt_of_le (Nat.succ_pos n) hnm))
        with ⟨m, rfl⟩
      rw [strncasecmp_succ] at hst h ⊢
      split at hst
      case isTrue hboth =>
        split at h
        case isTrue hother =>
          rw [if_pos ⟨hboth.1.trans hother.1, hboth.2⟩]
          exact ih (Nat.le_of_succ_le_succ hnm) hst h
        case isFalse =>
          rw [if_neg (by omega)]
          omega
      case isFalse =>
        split at h
        case isTrue =>
          rw [if_neg (by omega)]
          omega
        case isFalse =>
          rw [if_neg (by omega)]
          omega

theorem strncasecmp_after {n m : Nat} (hnm : n ≤ m) {s t u : Bytes} (hst : strncasecmp m s t ≤ 0)
    (h : 0 < strncasecmp n s u) : 0 < strncasecmp n t u := by
  induction n generalizing m s t u with
  | zero => cases h
  | succ n ih =>
      rcases Nat.exists_eq_succ_of_ne_zero (Nat.ne_of_gt (Nat.lt_of_lt_of_le (Nat.succ_pos n) hnm))
        with ⟨m, rfl⟩
      rw [strncasecmp_succ] at hst h ⊢
      split at hst
      case isTrue hboth =>
        split at h
        case isTrue hother =>
          rw [if_pos (by omega)]
          exact ih (Nat.le_of_succ_le_succ hnm) hst h
        case isFalse =>
          rw [if_neg (by omega)]
          omega
      case isFalse =>
        split at h
        case isTrue =>
          rw [if_neg (by omega)]
          omega
        case isFalse =>
          rw [if_neg (by omega)]
          omega

/-- A text that goes on after another one is after it. -/
theorem strncasecmp_longer {n : Nat} {s t : Bytes} (hn : t.length < n) (hs : (0 : UInt8) ∉ s)
    (hlonger : t.length < s.length) (h : (s.take t.length).map tolower = t.map tolower) :
    0 < strncasecmp n s t := by
  have hletter : ∀ c ∈ s, (tolower c).toNat ≠ 0 := by
    intro c hc hzero
    have hlow : tolower c = 0 := UInt8.toNat_inj.mp hzero
    rw [tolower_eq_iff (by decide)] at hlow
    exact hs (hlow ▸ hc)
  induction n generalizing s t with
  | zero => cases hn
  | succ n ih =>
      rw [strncasecmp_succ]
      cases s with
      | nil => cases hlonger
      | cons c s =>
          have hc := hletter c List.mem_cons_self
          cases t with
          | nil =>
              have hzero : (tolower (([] : Bytes).headD 0)).toNat = 0 := rfl
              rw [hzero, List.headD_cons, if_neg (fun hboth => hc hboth.1)]
              omega
          | cons d t =>
              simp only [List.length_cons, List.take_succ_cons, List.map_cons,
                List.cons.injEq] at h
              change 0 < if (tolower c).toNat = (tolower d).toNat ∧ (tolower c).toNat ≠ 0 then
                strncasecmp n s t else _
              rw [if_pos ⟨congrArg UInt8.toNat h.1, hc⟩]
              rw [List.mem_cons, not_or] at hs
              exact ih (Nat.lt_of_succ_lt_succ hn) hs.2 (Nat.lt_of_succ_lt_succ hlonger) h.2
                fun c' hc' => hletter c' (List.mem_cons_of_mem c hc')

/-! ## Splitting -/

/-- The shorter front of two splits of one text starts the longer one. -/
theorem append_split {front back front' back' : Bytes} (h : front ++ back = front' ++ back')
    (hle : front'.length ≤ front.length) :
    ∃ middle, front = front' ++ middle ∧ back' = middle ++ back := by
  rcases List.append_eq_append_iff.mp h with ⟨middle, hfront, hback⟩ | hsplit
  · have hnil : middle = [] := by
      have := congrArg List.length hfront
      simp only [List.length_append] at this
      exact List.eq_nil_of_length_eq_zero (by omega)
    exact ⟨[], by simp [hfront, hnil], by simp [hback, hnil]⟩
  · exact hsplit

/-! ## Little-endian words -/

/-- The four bytes of a word, the lowest first. -/
def le32 (value : UInt32) : Bytes :=
  [UInt8.ofNat value.toNat, UInt8.ofNat (value.toNat / 256), UInt8.ofNat (value.toNat / 65536),
    UInt8.ofNat (value.toNat / 16777216)]

theorem word_succ {n : Nat} (h : n + 1 < 2 ^ 32) :
    (UInt32.ofNat (n + 1)).toNat = n + 1 ∧ UInt32.ofNat (n + 1) ≠ 0 := by
  have hval : (UInt32.ofNat (n + 1)).toNat = n + 1 := by
    rw [UInt32.toNat_ofNat']
    exact Nat.mod_eq_of_lt h
  refine ⟨hval, fun hzero => ?_⟩
  have hcongr := congrArg UInt32.toNat hzero
  rw [hval] at hcongr
  exact Nat.succ_ne_zero n hcongr

/-- The word at the head of the bytes. -/
def ofLe32 (bytes : Bytes) : UInt32 :=
  UInt32.ofNat ((bytes.getD 0 0).toNat + 256 * (bytes.getD 1 0).toNat +
    65536 * (bytes.getD 2 0).toNat + 16777216 * (bytes.getD 3 0).toNat)

@[simp] theorem le32_length (value : UInt32) : (le32 value).length = 4 := rfl

theorem ofLe32_le32 (value : UInt32) (rest : Bytes) : ofLe32 (le32 value ++ rest) = value := by
  have hlt := value.toNat_lt
  apply UInt32.toNat_inj.mp
  simp only [ofLe32, le32, List.cons_append, List.getD_cons_zero, List.getD_cons_succ,
    UInt8.toNat_ofNat', UInt32.toNat_ofNat']
  omega

/-! ## Writing to a buffer -/

/-- Copies `data` at the offset `pos`, as `memcpy` does inside the buffer. -/
def copyAt (buffer : Bytes) (pos : Nat) (data : Bytes) : Bytes :=
  buffer.take pos ++ data ++ buffer.drop (pos + data.length)

theorem length_copyAt {buffer data : Bytes} {pos : Nat} (h : pos + data.length ≤ buffer.length) :
    (copyAt buffer pos data).length = buffer.length := by
  simp only [copyAt, List.length_append, List.length_take, List.length_drop]
  omega

theorem copyAt_append (front back data : Bytes) :
    copyAt (front ++ back) front.length data = front ++ data ++ back.drop data.length := by
  simp [copyAt, List.drop_append]

theorem take_copyAt {buffer : Bytes} {pos : Nat} (h : pos ≤ buffer.length) (data : Bytes) :
    (copyAt buffer pos data).take (pos + data.length) = buffer.take pos ++ data := by
  have hfront : (buffer.take pos ++ data).length = pos + data.length := by
    rw [List.length_append, List.length_take]
    omega
  rw [copyAt, ← hfront, List.take_left]

theorem drop_copyAt {buffer data : Bytes} {pos n : Nat} (hn : n ≤ pos) (h : pos ≤ buffer.length) :
    (copyAt buffer pos data).drop n = copyAt (buffer.drop n) (pos - n) data := by
  have hlen : (buffer.take pos).length = pos := by
    rw [List.length_take]
    omega
  have hrest : n + (pos - n + data.length) = pos + data.length := by omega
  rw [copyAt, copyAt, List.append_assoc, List.drop_append_of_le_length (by omega), List.drop_take,
    List.drop_drop, hrest, List.append_assoc]

theorem drop_copyAt_of_le {buffer data : Bytes} {pos n : Nat}
    (h : pos + data.length ≤ buffer.length) (hn : pos + data.length ≤ n) :
    (copyAt buffer pos data).drop n = buffer.drop n := by
  have hfront : (buffer.take pos ++ data).length = pos + data.length := by
    rw [List.length_append, List.length_take]
    omega
  rw [copyAt, List.drop_append, hfront, List.drop_eq_nil_of_le (by omega), List.nil_append,
    List.drop_drop]
  congr 1
  omega

end AfbBinder.Lib
