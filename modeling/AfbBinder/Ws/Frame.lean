import AfbBinder.Ws.Websock

/-!
# Frames on the wire

The frame format of RFC 6455 without the reserved bits, stated apart from the code:
lengths are in their shortest form, the payload of a masked frame is combined with
the key byte by byte.  The encoder writes this format, and the header bytes of a frame
of it are read back by the accessors of `websock.c`.
-/

namespace AfbBinder.Ws

open Lib

/-! ## The format -/

structure Frame where
  fin : Bool
  opcode : Opcode
  key : Option Mask
  payload : Bytes

/-- The `count` low digits of the number in base 256, the highest first. -/
def bigEndian (count number : Nat) : Bytes :=
  (List.range count).map fun i => UInt8.ofNat (number / 256 ^ (count - 1 - i))

def Mask.bytes (mask : Mask) : Bytes := [mask.m0, mask.m1, mask.m2, mask.m3]

/-- The seven bits of the second byte. -/
def shortLength (size : Nat) : Nat :=
  if size < 126 then size else if size < 65536 then 126 else 127

def extendedLength (size : Nat) : Bytes :=
  if size < 126 then [] else if size < 65536 then bigEndian 2 size else bigEndian 8 size

/-- The octet `i` of the payload is combined with the octet `i` modulo 4 of the key. -/
def maskPayload (key : Mask) (payload : Bytes) : Bytes :=
  payload.mapIdx fun i b => b ^^^ key.bytes.getD (i % 4) 0

def Frame.second (frame : Frame) : UInt8 :=
  UInt8.ofNat ((if frame.key.isSome then 128 else 0) + shortLength frame.payload.length)

def Frame.keyBytes (frame : Frame) : Bytes := (frame.key.map Mask.bytes).getD []

def Frame.head (frame : Frame) : Bytes :=
  frameFirst frame.fin frame.opcode :: frame.second ::
    (extendedLength frame.payload.length ++ frame.keyBytes)

def Frame.body (frame : Frame) : Bytes :=
  match frame.key with
  | none => frame.payload
  | some key => maskPayload key frame.payload

def Frame.wire (frame : Frame) : Bytes := frame.head ++ frame.body

theorem head_two (frame : Frame) : 2 ≤ frame.head.length := by
  simp only [Frame.head, List.length_cons]
  omega

/-! ## The encoder writes the format -/

theorem frameHeader_eq (fin : Bool) (opcode : Opcode) (payload : Bytes) :
    frameHeader (frameFirst fin opcode) payload.length = Frame.head ⟨fin, opcode, none, payload⟩ := by
  unfold frameHeader Frame.head Frame.second Frame.keyBytes extendedLength shortLength
  split
  · simp [frameSetLength]
  · split
    · simp [frameSetLength, bigEndian, List.range_succ]
    · simp [frameSetLength, bigEndian, List.range_succ]

/-! ## Reading the first two bytes back -/

def Opcode.isData : Opcode → Bool
  | .text => true
  | .binary => true
  | .continuation => true
  | _ => false

theorem shortLength_le (size : Nat) : shortLength size ≤ 127 := by
  unfold shortLength
  split
  · omega
  · split <;> omega

theorem second_toNat (frame : Frame) :
    frame.second.toNat =
      (if frame.key.isSome then 128 else 0) + shortLength frame.payload.length := by
  have hle := shortLength_le frame.payload.length
  rw [Frame.second, UInt8.toNat_ofNat']
  split <;> omega

theorem bigEndian_two {n : Nat} (h : n < 65536) :
    ∃ b0 b1, bigEndian 2 n = [b0, b1] ∧ b0.toNat * 256 + b1.toNat = n := by
  refine ⟨UInt8.ofNat (n / 256), UInt8.ofNat n, by simp [bigEndian, List.range_succ], ?_⟩
  rw [UInt8.toNat_ofNat', UInt8.toNat_ofNat']
  omega

/-! ## Masks -/

theorem unmaskBytes_append (mask : Mask) (front back : Bytes) :
    unmaskBytes mask (front ++ back) =
      ((unmaskBytes (unmaskBytes mask front).1 back).1,
        (unmaskBytes mask front).2 ++ (unmaskBytes (unmaskBytes mask front).1 back).2) := by
  induction front generalizing mask with
  | nil => rfl
  | cons b front ih => simp [unmaskBytes, ih]

@[simp] theorem unmaskBytes_length (mask : Mask) (data : Bytes) :
    (unmaskBytes mask data).2.length = data.length := by
  induction data generalizing mask with
  | nil => rfl
  | cons b rest ih => simp [unmaskBytes, ih]

/-- The words are what the byte loop makes of them. -/
theorem unmaskWords_eq (mask : Mask) (data : Bytes) :
    ∃ front, data = front ++ (unmaskWords mask data).2 ∧
      unmaskBytes mask front = (mask, (unmaskWords mask data).1) := by
  fun_induction unmaskWords mask data with
  | case1 b0 b1 b2 b3 rest words left hrest ih =>
      obtain ⟨front, hsplit, hfront⟩ := ih
      refine ⟨b0 :: b1 :: b2 :: b3 :: front, ?_, ?_⟩
      · simpa [hrest] using hsplit
      · have hround : mask.rotate.rotate.rotate.rotate = mask := rfl
        simp only [unmaskBytes, hround, hfront, hrest]
        rfl
  | case2 left hshort => exact ⟨[], rfl, rfl⟩

/-- Whatever the alignment, `unmask` goes byte by byte. -/
theorem unmask_eq (address : Nat) (mask : Mask) (buffer : Bytes) :
    unmask address mask buffer = unmaskBytes mask buffer := by
  have hsplit := List.take_append_drop ((4 - address % 4) % 4) buffer
  generalize hfront : buffer.take ((4 - address % 4) % 4) = front at hsplit
  generalize hback : buffer.drop ((4 - address % 4) % 4) = back at hsplit
  obtain ⟨words, hwords, hplain⟩ := unmaskWords_eq (unmaskBytes mask front).1 back
  unfold unmask
  simp only [hfront, hback]
  have htail := unmaskBytes_append (unmaskBytes mask front).1 words
    (unmaskWords (unmaskBytes mask front).1 back).2
  rw [← hwords, hplain] at htail
  rw [← hsplit, unmaskBytes_append, htail, List.append_assoc]

theorem unmaskBytes_eq (mask : Mask) (data : Bytes) :
    (unmaskBytes mask data).2 = maskPayload mask data := by
  induction data generalizing mask with
  | nil => rfl
  | cons b rest ih =>
      have hshift : (fun i (c : UInt8) => c ^^^ mask.rotate.bytes.getD (i % 4) 0) =
          fun i c => c ^^^ mask.bytes.getD ((i + 1) % 4) 0 := by
        funext i c
        have hi : i % 4 = 0 ∨ i % 4 = 1 ∨ i % 4 = 2 ∨ i % 4 = 3 := by omega
        rcases hi with hi | hi | hi | hi <;>
          simp [Nat.add_mod, hi, Mask.rotate, Mask.bytes]
      simp only [unmaskBytes, ih mask.rotate, maskPayload, hshift, List.mapIdx_cons]
      rfl

theorem maskPayload_maskPayload (mask : Mask) (data : Bytes) :
    maskPayload mask (maskPayload mask data) = data := by
  simp only [maskPayload, List.mapIdx_mapIdx]
  apply List.ext_getElem
  · simp
  · intro i h₁ h₂
    simp only [List.getElem_mapIdx, Function.comp_apply, UInt8.xor_assoc, UInt8.xor_self,
      UInt8.xor_zero]

theorem unmaskBytes_zero (data : Bytes) : unmaskBytes Mask.zero data = (Mask.zero, data) := by
  induction data with
  | nil => rfl
  | cons b rest ih =>
      have hrotate : Mask.zero.rotate = Mask.zero := rfl
      have hzero : Mask.zero.m0 = 0 := rfl
      simp [unmaskBytes, hrotate, hzero, ih]

theorem body_eq (frame : Frame) :
    frame.body = (unmaskBytes (frame.key.getD Mask.zero) frame.payload).2 := by
  unfold Frame.body
  cases frame.key with
  | none => simp [unmaskBytes_zero]
  | some key => simp [unmaskBytes_eq]

theorem unmask_body (frame : Frame) :
    (unmaskBytes (frame.key.getD Mask.zero) frame.body).2 = frame.payload := by
  unfold Frame.body
  cases frame.key with
  | none => simp [unmaskBytes_zero]
  | some key => simp [unmaskBytes_eq, maskPayload_maskPayload]

theorem body_length (frame : Frame) : frame.body.length = frame.payload.length := by
  unfold Frame.body
  cases frame.key with
  | none => rfl
  | some key => simp [maskPayload]

/-! ## Reading payloads -/

theorem websockRead_cases {ws : Websock} (hdata : ws.state = .data) {size n : Nat}
    (hn : min size ws.length = n + 1) (address : Nat) (rx : List Rx) :
    ∃ rest, ((∀ entry ∈ rx, entry.delays = true) → ∀ entry ∈ rest, entry.delays = true) ∧
      ((websockRead ws address size rx = (.error .EAGAIN, ws, rest) ∧
          arriving rest = arriving rx ∧ (rest = [] ∨ rest.length < rx.length) ∧
          failsWithin (n + 1) rest = failsWithin (n + 1) rx) ∨
        (∃ errno, websockRead ws address size rx = (.error errno, ws, rest) ∧ errno ≠ .EAGAIN ∧
          failsWithin (n + 1) rx = true) ∨
        ∃ data, websockRead ws address size rx = (.bytes (unmaskBytes ws.mask data).2,
            { ws with
              length := ws.length - data.length
              mask := (unmaskBytes ws.mask data).1 }, rest) ∧ 0 < data.length ∧
          data.length ≤ n + 1 ∧ arriving rx = data ++ arriving rest ∧
          (data.length < n + 1 → rest.length < rx.length) ∧ rest.length ≤ rx.length ∧
          failsWithin (n + 1 - data.length) rest = failsWithin (n + 1) rx) := by
  obtain ⟨rest, hdelays, hcase⟩ := awsReadv_cases n rx
  refine ⟨rest, hdelays, ?_⟩
  simp only [websockRead, hdata, ne_eq, not_true_eq_false, if_false, hn]
  rcases hcase with ⟨hread, hrest⟩ | ⟨errno, hread, hrest⟩ | ⟨data, hread, hrest⟩
  · rw [hread]
    exact Or.inl ⟨rfl, hrest⟩
  · rw [hread]
    exact Or.inr (Or.inl ⟨errno, rfl, hrest⟩)
  · rw [hread]
    refine Or.inr (Or.inr ⟨data, ?_, hrest⟩)
    dsimp only
    split
    · rename_i hzero
      rw [hzero, unmaskBytes_zero]
    · rw [unmask_eq]

end AfbBinder.Ws
