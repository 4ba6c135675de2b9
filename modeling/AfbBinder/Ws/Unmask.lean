import Mathlib.Logic.Function.Iterate
import AfbBinder.Lib.Loop
import AfbBinder.Ws.Frame

/-!
# The loops of `unmask`

`unmask` combines a buffer with the mask byte by byte up to an aligned address, then by
words of 32 bits as the machine loads and stores them, then byte by byte again, and keeps
the mask for the next call.  Here are its three loops, `websock_read` over them, and what
they make of a payload that several calls read.
-/

namespace AfbBinder.Ws

open Lib

/-! ## Words in memory -/

inductive Endian where
  | little
  | big
deriving DecidableEq, Repr

/-- The word loaded from four bytes, in the order of their addresses. -/
def Endian.load : Endian → UInt8 → UInt8 → UInt8 → UInt8 → BitVec 32
  | .little, b0, b1, b2, b3 => b3.toBitVec ++ b2.toBitVec ++ b1.toBitVec ++ b0.toBitVec
  | .big, b0, b1, b2, b3 => b0.toBitVec ++ b1.toBitVec ++ b2.toBitVec ++ b3.toBitVec

/-- The byte of a word that has the weight `256 ^ i`. -/
def wordByte (word : BitVec 32) (i : Nat) : UInt8 := UInt8.ofBitVec (word.extractLsb' (8 * i) 8)

/-- The four bytes stored for a word. -/
def Endian.store : Endian → BitVec 32 → Bytes
  | .little, word => [wordByte word 0, wordByte word 1, wordByte word 2, wordByte word 3]
  | .big, word => [wordByte word 3, wordByte word 2, wordByte word 1, wordByte word 0]

/-- The mask read as a word. -/
def Mask.word (endian : Endian) (mask : Mask) : BitVec 32 :=
  endian.load mask.m0 mask.m1 mask.m2 mask.m3

/-! ## The loops -/

/-- The variables of `unmask`: the address of the pointer, the bytes before it that are done
and the `size` ones from it on. -/
structure Unmasking where
  address : Nat
  mask : Mask
  done : Bytes
  left : Bytes
deriving DecidableEq, Repr

/-- The body of the two loops on bytes. -/
def Unmasking.byteTurn (s : Unmasking) : Unmasking :=
  match s.left with
  | [] => s
  | b :: rest =>
      { address := s.address + 1
        mask := s.mask.rotate
        done := s.done ++ [b ^^^ s.mask.m0]
        left := rest }

/-- The body of the loop on words. -/
def Unmasking.wordTurn (endian : Endian) (s : Unmasking) : Unmasking :=
  match s.left with
  | b0 :: b1 :: b2 :: b3 :: rest =>
      { address := s.address + 4
        mask := s.mask
        done := s.done ++ endian.store (endian.load b0 b1 b2 b3 ^^^ s.mask.word endian)
        left := rest }
  | _ => s

/-- `size && ((sizeof(uint32_t) - 1) & (uintptr_t) b8)` -/
def Unmasking.unaligned (s : Unmasking) : Bool := s.left.length ≠ 0 && s.address % 4 ≠ 0

/-- `size >= sizeof(uint32_t)` -/
def Unmasking.hasWord (s : Unmasking) : Bool := s.left.length ≥ 4

def Unmasking.hasByte (s : Unmasking) : Bool := s.left.length ≠ 0

/-- `unmask`, loop by loop. -/
def unmaskLoops (endian : Endian) (address : Nat) (mask : Mask) (buffer : Bytes) : Mask × Bytes :=
  let head := whileDo Unmasking.unaligned Unmasking.byteTurn buffer.length ⟨address, mask, [], buffer⟩
  let words := whileDo Unmasking.hasWord (Unmasking.wordTurn endian) head.left.length head
  let tail := whileDo Unmasking.hasByte Unmasking.byteTurn words.left.length words
  (tail.mask, tail.done)

/-- `websock_read` with these loops. -/
def websockReadLoops (endian : Endian) (ws : Websock) (address size : Nat) (rx : List Rx) :
    Received × Websock × List Rx :=
  if ws.state ≠ .data then (.bytes [], ws, rx)
  else
    match awsReadv (min size ws.length) rx with
    | (.error errno, rx) => (.error errno, ws, rx)
    | (.bytes data, rx) =>
        let ws := { ws with length := ws.length - data.length }
        if ws.mask = Mask.zero then (.bytes data, ws, rx)
        else
          let (mask, plain) := unmaskLoops endian address ws.mask data
          (.bytes plain, { ws with mask := mask }, rx)

/-- Calls of `websock_read`, each with an address and a size: all the bytes they return, and
what they leave. -/
def readCalls (endian : Endian) : List (Nat × Nat) → Websock → List Rx → Bytes × Websock × List Rx
  | [], ws, rx => ([], ws, rx)
  | (address, size) :: calls, ws, rx =>
      match websockReadLoops endian ws address size rx with
      | (.error _, ws, rx) => readCalls endian calls ws rx
      | (.bytes data, ws, rx) =>
          let (plain, ws, rx) := readCalls endian calls ws rx
          (data ++ plain, ws, rx)

/-! ## A word is its bytes -/

theorem wordByte_xor (v w : BitVec 32) (i : Nat) :
    wordByte (v ^^^ w) i = wordByte v i ^^^ wordByte w i := by
  rw [wordByte, BitVec.extractLsb'_xor]
  rfl

theorem wordByte_eq {word : BitVec 32} {n : Nat} {b : UInt8}
    (h : ∀ i < 8, word.getLsbD (8 * n + i) = b.toBitVec.getLsbD i) : wordByte word n = b := by
  apply UInt8.toBitVec_inj.mp
  apply BitVec.eq_of_getLsbD_eq
  intro i hi
  rw [wordByte, UInt8.toBitVec_ofBitVec, BitVec.getLsbD_extractLsb', h i hi]
  simp [hi]

/-- The bytes of a word made of four ones, the highest first. -/
theorem wordByte_append (b0 b1 b2 b3 : UInt8) :
    let word := b3.toBitVec ++ b2.toBitVec ++ b1.toBitVec ++ b0.toBitVec
    wordByte word 0 = b0 ∧ wordByte word 1 = b1 ∧ wordByte word 2 = b2 ∧ wordByte word 3 = b3 := by
  refine ⟨?_, ?_, ?_, ?_⟩ <;> apply wordByte_eq <;> intro i hi <;>
    simp only [BitVec.getLsbD_append] <;> grind

theorem store_xor (endian : Endian) (b0 b1 b2 b3 m0 m1 m2 m3 : UInt8) :
    endian.store (endian.load b0 b1 b2 b3 ^^^ endian.load m0 m1 m2 m3) =
      [b0 ^^^ m0, b1 ^^^ m1, b2 ^^^ m2, b3 ^^^ m3] := by
  cases endian with
  | little =>
      rcases wordByte_append b0 b1 b2 b3 with ⟨hb0, hb1, hb2, hb3⟩
      rcases wordByte_append m0 m1 m2 m3 with ⟨hm0, hm1, hm2, hm3⟩
      simp only [Endian.store, Endian.load, wordByte_xor, hb0, hb1, hb2, hb3, hm0, hm1, hm2, hm3]
  | big =>
      rcases wordByte_append b3 b2 b1 b0 with ⟨hb3, hb2, hb1, hb0⟩
      rcases wordByte_append m3 m2 m1 m0 with ⟨hm3, hm2, hm1, hm0⟩
      simp only [Endian.store, Endian.load, wordByte_xor, hb0, hb1, hb2, hb3, hm0, hm1, hm2, hm3]

/-! ## The loops go byte by byte -/

/-- What the byte loop alone would make from here on. -/
def Unmasking.outcome (s : Unmasking) : Mask × Bytes :=
  ((unmaskBytes s.mask s.left).1, s.done ++ (unmaskBytes s.mask s.left).2)

theorem Unmasking.byteTurn_outcome (s : Unmasking) : s.byteTurn.outcome = s.outcome := by
  rcases s with ⟨address, mask, done, left⟩
  cases left with
  | nil => rfl
  | cons b rest => simp [Unmasking.byteTurn, Unmasking.outcome, unmaskBytes]

theorem Unmasking.wordTurn_outcome (endian : Endian) (s : Unmasking) :
    (s.wordTurn endian).outcome = s.outcome := by
  rcases s with ⟨address, mask, done, left⟩
  unfold Unmasking.wordTurn
  dsimp only
  split
  case h_1 b0 b1 b2 b3 rest =>
    have hround : mask.rotate.rotate.rotate.rotate = mask := rfl
    simp only [Unmasking.outcome, Mask.word, store_xor, unmaskBytes, hround, List.append_assoc]
    rfl
  case h_2 => rfl

theorem Unmasking.byteTurn_left {s : Unmasking} (h : s.left.length ≠ 0) :
    s.byteTurn.left.length < s.left.length := by
  rcases s with ⟨address, mask, done, left⟩
  cases left with
  | nil => exact absurd rfl h
  | cons b rest => exact Nat.lt_succ_self _

theorem Unmasking.wordTurn_left (endian : Endian) {s : Unmasking} (h : 4 ≤ s.left.length) :
    (s.wordTurn endian).left.length < s.left.length := by
  rcases s with ⟨address, mask, done, left⟩
  unfold Unmasking.wordTurn
  dsimp only at h ⊢
  split
  case h_1 =>
    simp only [List.length_cons]
    omega
  case h_2 hshort =>
    rcases left with _ | ⟨b0, _ | ⟨b1, _ | ⟨b2, _ | ⟨b3, rest⟩⟩⟩⟩
    · simp at h
    · simp at h
    · simp at h
    · simp at h
    · exact absurd rfl (hshort b0 b1 b2 b3 rest)

/-- A loop whose body keeps the outcome and makes the bytes left fewer. -/
theorem Unmasking.loop_outcome {test : Unmasking → Bool} {body : Unmasking → Unmasking}
    (houtcome : ∀ s, (body s).outcome = s.outcome)
    (hless : ∀ s, test s = true → (body s).left.length < s.left.length) (s : Unmasking) :
    (whileDo test body s.left.length s).outcome = s.outcome ∧
      test (whileDo test body s.left.length s) = false :=
  whileDo_spec (fun s' => s'.outcome = s.outcome) (fun s' => s'.left.length)
    (fun s' hs htest => ⟨(houtcome s').trans hs, hless s' htest⟩) rfl (Nat.le_refl _)

/-- The loops make of a buffer what the byte loop alone makes of it, at any address and on
any machine. -/
theorem unmaskLoops_eq (endian : Endian) (address : Nat) (mask : Mask) (buffer : Bytes) :
    unmaskLoops endian address mask buffer = unmaskBytes mask buffer := by
  have hhead := Unmasking.loop_outcome Unmasking.byteTurn_outcome
    (fun s (htest : s.unaligned = true) => by
      simp only [Unmasking.unaligned, Bool.and_eq_true, decide_eq_true_eq] at htest
      exact Unmasking.byteTurn_left htest.1) ⟨address, mask, [], buffer⟩
  unfold unmaskLoops
  dsimp only at hhead ⊢
  generalize whileDo Unmasking.unaligned Unmasking.byteTurn buffer.length
    ⟨address, mask, [], buffer⟩ = head at hhead ⊢
  have hwords := Unmasking.loop_outcome (Unmasking.wordTurn_outcome endian)
    (fun s (htest : s.hasWord = true) => by
      simp only [Unmasking.hasWord, decide_eq_true_eq] at htest
      exact Unmasking.wordTurn_left endian htest) head
  generalize whileDo Unmasking.hasWord (Unmasking.wordTurn endian) head.left.length head = words
    at hwords ⊢
  have htail := Unmasking.loop_outcome Unmasking.byteTurn_outcome
    (fun s (htest : s.hasByte = true) => by
      simp only [Unmasking.hasByte, decide_eq_true_eq] at htest
      exact Unmasking.byteTurn_left htest) words
  generalize whileDo Unmasking.hasByte Unmasking.byteTurn words.left.length words = tail at htail ⊢
  rcases htail with ⟨houtcome, hend⟩
  simp only [Unmasking.hasByte, decide_eq_false_iff_not, ne_eq, Decidable.not_not] at hend
  have hnil := List.eq_nil_of_length_eq_zero hend
  have hall : tail.outcome = unmaskBytes mask buffer :=
    houtcome.trans (hwords.1.trans hhead.1)
  rw [← hall, Unmasking.outcome, hnil]
  simp [unmaskBytes]

theorem websockReadLoops_eq (endian : Endian) (ws : Websock) (address size : Nat) (rx : List Rx) :
    websockReadLoops endian ws address size rx = websockRead ws address size rx := by
  unfold websockReadLoops websockRead
  cases awsReadv (min size ws.length) rx with
  | mk received rx' =>
      cases received with
      | error errno => rfl
      | bytes data => simp only [unmaskLoops_eq, unmask_eq]

/-! ## The mask between two calls -/

theorem unmaskBytes_rotates (mask : Mask) (data : Bytes) :
    (unmaskBytes mask data).1 = Mask.rotate^[data.length] mask := by
  induction data generalizing mask with
  | nil => rfl
  | cons b rest ih => exact ih mask.rotate

theorem rotate_mod (n : Nat) (mask : Mask) : Mask.rotate^[n % 4] mask = Mask.rotate^[n] mask := by
  have hround : Mask.rotate^[4] = id := rfl
  have hsum : n % 4 + 4 * (n / 4) = n := Nat.mod_add_div n 4
  have hall : Mask.rotate^[n % 4 + 4 * (n / 4)] mask = Mask.rotate^[n % 4] mask := by
    rw [Function.iterate_add_apply, Function.iterate_mul, hround, Function.iterate_id, id]
  rw [← hall, hsum]

/-! ## Payloads -/

/-- What calls of `websock_read` return and leave, by the definition of the mask: the bytes
that arrived, each combined with the byte of the key for its position in the payload. -/
structure Unmasked (ws : Websock) (rx : List Rx) (plain : Bytes) (ws' : Websock)
    (rx' : List Rx) : Prop where
  bytes : plain = maskPayload ws.mask ((arriving rx).take plain.length)
  mask : ws'.mask = Mask.rotate^[plain.length % 4] ws.mask
  within : plain.length ≤ ws.length
  length : ws'.length = ws.length - plain.length
  rest : arriving rx' = (arriving rx).drop plain.length

/-- The byte loop over what arrived. -/
structure UnmaskedBy (ws : Websock) (rx : List Rx) (plain : Bytes) (ws' : Websock)
    (rx' : List Rx) : Prop where
  raw : ∃ raw, arriving rx = raw ++ arriving rx' ∧ raw.length ≤ ws.length ∧
    ws'.length = ws.length - raw.length ∧ unmaskBytes ws.mask raw = (ws'.mask, plain)

theorem UnmaskedBy.refl {ws : Websock} {rx rx' : List Rx} (h : arriving rx' = arriving rx) :
    UnmaskedBy ws rx [] ws rx' :=
  ⟨[], h.symm, Nat.zero_le _, rfl, rfl⟩

theorem UnmaskedBy.trans {ws ws' ws'' : Websock} {rx rx' rx'' : List Rx} {plain plain' : Bytes}
    (h : UnmaskedBy ws rx plain ws' rx') (h' : UnmaskedBy ws' rx' plain' ws'' rx'') :
    UnmaskedBy ws rx (plain ++ plain') ws'' rx'' := by
  rcases h.raw with ⟨raw, harrive, hle, hlength, hplain⟩
  rcases h'.raw with ⟨raw', harrive', hle', hlength', hplain'⟩
  refine ⟨raw ++ raw', ?_, ?_, ?_, ?_⟩
  · rw [harrive, harrive', List.append_assoc]
  · rw [List.length_append]
    omega
  · rw [List.length_append]
    omega
  · rw [unmaskBytes_append, hplain, hplain']

theorem UnmaskedBy.unmasked {ws ws' : Websock} {rx rx' : List Rx} {plain : Bytes}
    (h : UnmaskedBy ws rx plain ws' rx') : Unmasked ws rx plain ws' rx' := by
  rcases h.raw with ⟨raw, harrive, hle, hlength, hplain⟩
  have hplain' : plain = maskPayload ws.mask raw := by
    rw [← unmaskBytes_eq, hplain]
  have hsame : plain.length = raw.length := by
    rw [← unmaskBytes_length ws.mask raw, hplain]
  constructor
  · rw [hsame, harrive, List.take_left]
    exact hplain'
  · rw [rotate_mod, hsame, ← unmaskBytes_rotates, hplain]
  · omega
  · omega
  · rw [hsame, harrive, List.drop_left]

/-- One call. -/
theorem websockRead_unmasks (ws : Websock) (address size : Nat) (rx : List Rx) :
    match websockRead ws address size rx with
    | (.error _, ws', rx') => UnmaskedBy ws rx [] ws' rx'
    | (.bytes plain, ws', rx') => UnmaskedBy ws rx plain ws' rx' := by
  unfold websockRead
  by_cases hstate : ws.state ≠ .data
  · rw [if_pos hstate]
    exact .refl rfl
  · rw [if_neg hstate]
    have hread := awsReadv_arriving (min size ws.length) rx
    cases hcase : awsReadv (min size ws.length) rx with
    | mk received rest =>
        rw [hcase] at hread
        cases received with
        | error errno => exact .refl hread
        | bytes data =>
            have hle : data.length ≤ ws.length := Nat.le_trans hread.1 (Nat.min_le_right _ _)
            dsimp only
            by_cases hzero : ws.mask = Mask.zero
            · have hplain : unmaskBytes ws.mask data = (ws.mask, data) := by
                rw [hzero]
                exact unmaskBytes_zero data
              rw [if_pos hzero]
              exact ⟨data, hread.2, hle, rfl, hplain⟩
            · rw [if_neg hzero, unmask_eq]
              exact ⟨data, hread.2, hle, rfl, rfl⟩

theorem readCalls_unmasks (endian : Endian) (calls : List (Nat × Nat)) (ws : Websock)
    (rx : List Rx) :
    UnmaskedBy ws rx (readCalls endian calls ws rx).1 (readCalls endian calls ws rx).2.1
      (readCalls endian calls ws rx).2.2 := by
  induction calls generalizing ws rx with
  | nil => exact .refl rfl
  | cons call calls ih =>
      rcases call with ⟨address, size⟩
      have hstep := websockRead_unmasks ws address size rx
      rw [readCalls, websockReadLoops_eq]
      cases hcase : websockRead ws address size rx with
      | mk received after =>
          rcases after with ⟨ws', rx'⟩
          rw [hcase] at hstep
          cases received with
          | error errno => exact hstep.trans (ih ws' rx')
          | bytes plain => exact hstep.trans (ih ws' rx')

/-- However a payload is cut and wherever its pieces are stored, its byte `i` is combined
with the byte `i` modulo 4 of the key, and the mask is left rotated by as many bytes. -/
theorem unmask_bytewise (endian : Endian) (calls : List (Nat × Nat)) (ws : Websock)
    (rx : List Rx) :
    Unmasked ws rx (readCalls endian calls ws rx).1 (readCalls endian calls ws rx).2.1
      (readCalls endian calls ws rx).2.2 :=
  (readCalls_unmasks endian calls ws rx).unmasked

end AfbBinder.Ws
