import AfbBinder.ApiWs.Wire

/-!
# The bounds of the fields received

The readers of `afb-api-ws.c` on addresses that are words of `w` bits.  The length of a
field comes from the peer and is added to the head before the comparison with the end: when
the sum wraps, the comparison passes.  A reader that refuses may have moved the head, so
that each one gives the buffer it leaves.
-/

namespace AfbBinder.ApiWs

open Lib

/-! ## The readers -/

/-- The bytes of the memory by their addresses. -/
abbrev Memory (w : Nat) := BitVec w → UInt8

/-- `struct readbuf`, with `end` as `stop`. -/
structure Cursor (w : Nat) where
  head : BitVec w
  stop : BitVec w
deriving DecidableEq, Repr

variable {w : Nat}

/-- The buffer that `api_ws_server_on_binary` makes of its data. -/
def Cursor.ofData (data : BitVec w) (size : Nat) : Cursor w := ⟨data, data + BitVec.ofNat w size⟩

/-- The little-endian word at an address. -/
def wordAt (mem : Memory w) (address : BitVec w) : UInt32 :=
  ofLe32 [mem address, mem (address + 1), mem (address + 2), mem (address + 3)]

/-- The C string at an address, whose NUL is among the first `size` bytes. -/
def textAt (mem : Memory w) (address : BitVec w) (size : Nat) : Bytes :=
  cstring ((List.range size).map fun i => mem (address + BitVec.ofNat w i))

/-- `api_ws_read_get`: an address, which is 0 when it refuses. -/
def Cursor.readGet (c : Cursor w) (length : UInt32) : BitVec w × Cursor w :=
  let before := c.head
  let after := before + length.toBitVec.setWidth w
  if after > c.stop then (0, c) else (before, { c with head := after })

/-- `api_ws_read_uint32` -/
def Cursor.readUint32 (mem : Memory w) (c : Cursor w) : Option UInt32 × Cursor w :=
  let after := c.head + 4
  if after > c.stop then (none, c) else (some (wordAt mem c.head), { c with head := after })

/-- `api_ws_read_string`: the address of the string and its length. -/
def Cursor.readString (mem : Memory w) (c : Cursor w) : Option (BitVec w × Nat) × Cursor w :=
  match c.readUint32 mem with
  | (none, c) => (none, c)
  | (some len, c) =>
      if len = 0 then (none, c)
      else
        let (value, c) := c.readGet len
        if value ≠ 0 ∧ mem (c.head - 1) = 0 then (some (value, len.toNat - 1), c) else (none, c)

/-- `api_ws_read_object`; the outer option is its success. -/
def Cursor.readObject {J : Type} (json : JsonC J) (mem : Memory w) (c : Cursor w) :
    Option (Option J) × Cursor w :=
  match c.readString mem with
  | (none, c) => (none, c)
  | (some (string, length), c) =>
      let text := textAt mem string (length + 1)
      let object := json.tokenerParse text
      (if object.isSome = decide (text ≠ nullText) then some object else none, c)

inductive Read where
  | get (length : UInt32)
  | uint32
  | string
  | object
deriving DecidableEq, Repr

section Reads

variable {J : Type} (json : JsonC J) (mem : Memory w)

/-- The buffer after a read. -/
def Read.leaves : Read → Cursor w → Cursor w
  | .get length, c => (c.readGet length).2
  | .uint32, c => (c.readUint32 mem).2
  | .string, c => (c.readString mem).2
  | .object, c => (c.readObject json mem).2

/-! ## In bounds -/

/-- A read of a field of `size` bytes: when it succeeds the field lies between the head and
the end; the head does not go back, nor beyond the end. -/
structure Advance (c c' : Cursor w) (size : Nat) (success : Prop) : Prop where
  within : success → c.head.toNat + size ≤ c.stop.toNat
  forward : c.head ≤ c'.head
  bounded : c'.head ≤ c'.stop

def GetInBounds (c : Cursor w) (length : UInt32) : Prop :=
  Advance c (c.readGet length).2 length.toNat ((c.readGet length).1 ≠ 0)

def Uint32InBounds (c : Cursor w) : Prop :=
  Advance c (c.readUint32 mem).2 4 ((c.readUint32 mem).1.isSome = true)

/-- The length of a counted field and the field, if it is read. -/
def CountedInBounds (c : Cursor w) : Prop :=
  Uint32InBounds mem c ∧ ∀ len, (c.readUint32 mem).1 = some len → len ≠ 0 →
    GetInBounds (c.readUint32 mem).2 len

/-- A read is in bounds, and so are the reads it is made of. -/
def Read.InBounds : Read → Cursor w → Prop
  | .get length, c => GetInBounds c length
  | .uint32, c => Uint32InBounds mem c
  | .string, c => CountedInBounds mem c ∧
      Advance c (c.readString mem).2 (4 + (wordAt mem c.head).toNat)
        ((c.readString mem).1.isSome = true)
  | .object, c => CountedInBounds mem c ∧
      Advance c (c.readObject json mem).2 (4 + (wordAt mem c.head).toNat)
        ((c.readObject json mem).1.isSome = true)

/-- The reads are in bounds one after the other. -/
def ReadsInBounds : List Read → Cursor w → Prop
  | [], _ => True
  | read :: reads, c => read.InBounds json mem c ∧ ReadsInBounds reads (read.leaves json mem c)

/-! ## Without wrapping -/

/-- The end of the field does not wrap.  The length of a counted field is read when the
buffer has its four bytes. -/
def Read.Fits : Read → Cursor w → Prop
  | .get length, c => c.head.toNat + length.toNat < 2 ^ w
  | .uint32, c => c.head.toNat + 4 < 2 ^ w
  | .string, c => c.head.toNat + 4 < 2 ^ w ∧ (c.head.toNat + 4 ≤ c.stop.toNat →
      c.head.toNat + 4 + (wordAt mem c.head).toNat < 2 ^ w)
  | .object, c => c.head.toNat + 4 < 2 ^ w ∧ (c.head.toNat + 4 ≤ c.stop.toNat →
      c.head.toNat + 4 + (wordAt mem c.head).toNat < 2 ^ w)

instance : (read : Read) → (c : Cursor w) → Decidable (read.Fits mem c)
  | .get length, c => inferInstanceAs (Decidable (c.head.toNat + length.toNat < 2 ^ w))
  | .uint32, c => inferInstanceAs (Decidable (c.head.toNat + 4 < 2 ^ w))
  | .string, _ => inferInstanceAs (Decidable (_ ∧ (_ → _)))
  | .object, _ => inferInstanceAs (Decidable (_ ∧ (_ → _)))

def ReadsFit : List Read → Cursor w → Prop
  | [], _ => True
  | read :: reads, c => read.Fits mem c ∧ ReadsFit reads (read.leaves json mem c)

end Reads

/-! ## One read -/

/-- The buffer that the comparison lets a reader advance over `n` bytes. -/
def Cursor.over (c : Cursor w) (n : BitVec w) : Cursor w :=
  if c.head + n > c.stop then c else { c with head := c.head + n }

section Single

variable {c : Cursor w} {mem : Memory w} {J : Type} {json : JsonC J}

theorem over_stop (n : BitVec w) : (c.over n).stop = c.stop := by
  unfold Cursor.over
  split
  · rfl
  · rfl

theorem readGet_over (length : UInt32) :
    (c.readGet length).2 = c.over (length.toBitVec.setWidth w) := by
  unfold Cursor.readGet Cursor.over
  dsimp only
  split
  · rfl
  · rfl

theorem readUint32_over : (c.readUint32 mem).2 = c.over 4 := by
  unfold Cursor.readUint32 Cursor.over
  dsimp only
  split
  · rfl
  · rfl

/-- When the sum does not wrap, the comparison says whether the bytes are there. -/
theorem over_fits {n : BitVec w} (hfits : c.head.toNat + n.toNat < 2 ^ w) :
    (c.head + n > c.stop ↔ c.stop.toNat < c.head.toNat + n.toNat) ∧
      (c.over n).head.toNat =
        if c.stop.toNat < c.head.toNat + n.toNat then c.head.toNat else c.head.toNat + n.toNat := by
  have hsum : (c.head + n).toNat = c.head.toNat + n.toNat := by
    rw [BitVec.toNat_add]
    exact Nat.mod_eq_of_lt hfits
  have hiff : c.head + n > c.stop ↔ c.stop.toNat < c.head.toNat + n.toNat := by
    rw [gt_iff_lt, BitVec.lt_def, hsum]
  refine ⟨hiff, ?_⟩
  unfold Cursor.over
  by_cases hgt : c.head + n > c.stop
  · rw [if_pos hgt, if_pos (hiff.mp hgt)]
  · rw [if_neg hgt, if_neg (fun hlt => hgt (hiff.mpr hlt))]
    exact hsum

/-- A sum that wraps is below the head, so that the comparison passes and the head goes
back. -/
theorem over_wraps {n : BitVec w} (hc : c.head ≤ c.stop) (hwraps : ¬ c.head.toNat + n.toNat < 2 ^ w) :
    ¬ c.head ≤ (c.over n).head := by
  have hhead := c.head.isLt
  have hn := n.isLt
  have hsum : (c.head + n).toNat = c.head.toNat + n.toNat - 2 ^ w := by
    rw [BitVec.toNat_add, Nat.mod_eq_sub_mod (by omega), Nat.mod_eq_of_lt (by omega)]
  rw [BitVec.le_def] at hc
  have hpass : ¬ c.head + n > c.stop := by
    rw [gt_iff_lt, BitVec.lt_def, hsum]
    omega
  rw [Cursor.over, if_neg hpass, BitVec.le_def]
  dsimp only
  omega

theorem advance_iff {n : BitVec w} {success : Prop} (hc : c.head ≤ c.stop)
    (hsuccess : success → ¬ c.head + n > c.stop) :
    Advance c (c.over n) n.toNat success ↔ c.head.toNat + n.toNat < 2 ^ w := by
  constructor
  · intro hadvance
    by_contra hwraps
    exact over_wraps hc hwraps hadvance.forward
  · intro hfits
    rcases over_fits hfits with ⟨hiff, hhead⟩
    rw [BitVec.le_def] at hc
    constructor
    · intro h
      have := mt hiff.mpr (hsuccess h)
      omega
    · rw [BitVec.le_def, hhead]
      split <;> omega
    · rw [over_stop, BitVec.le_def, hhead]
      split <;> omega

theorem length_toNat (hw : 32 ≤ w) (length : UInt32) :
    (length.toBitVec.setWidth w).toNat = length.toNat := by
  have hlt := length.toBitVec.isLt
  have hpow : 2 ^ 32 ≤ 2 ^ w := Nat.pow_le_pow_right (by omega) hw
  rw [BitVec.toNat_setWidth]
  exact Nat.mod_eq_of_lt (by omega)

theorem four_toNat (hw : 32 ≤ w) : (4 : BitVec w).toNat = 4 := by
  have hpow : 2 ^ 32 ≤ 2 ^ w := Nat.pow_le_pow_right (by omega) hw
  change (BitVec.ofNat w 4).toNat = 4
  rw [BitVec.toNat_ofNat]
  exact Nat.mod_eq_of_lt (by omega)

theorem toNat_one (hw : 0 < w) : (1 : BitVec w).toNat = 1 := by
  change (BitVec.ofNat w 1).toNat = 1
  rw [BitVec.toNat_ofNat, Nat.mod_eq_of_lt (Nat.one_lt_two_pow (Nat.ne_of_gt hw))]

theorem getInBounds_iff (hw : 32 ≤ w) (hc : c.head ≤ c.stop) (length : UInt32) :
    GetInBounds c length ↔ c.head.toNat + length.toNat < 2 ^ w := by
  have hsuccess : (c.readGet length).1 ≠ 0 → ¬ c.head + length.toBitVec.setWidth w > c.stop := by
    intro hne hgt
    simp only [Cursor.readGet, if_pos hgt, ne_eq, not_true_eq_false] at hne
  unfold GetInBounds
  rw [readGet_over, ← length_toNat hw length]
  exact advance_iff hc hsuccess

theorem uint32InBounds_iff (hw : 32 ≤ w) (hc : c.head ≤ c.stop) :
    Uint32InBounds mem c ↔ c.head.toNat + 4 < 2 ^ w := by
  have hsuccess : (c.readUint32 mem).1.isSome = true → ¬ c.head + 4 > c.stop := by
    intro hsome hgt
    simp only [Cursor.readUint32, if_pos hgt, Option.isSome_none, Bool.false_eq_true] at hsome
  have h := @advance_iff w c 4 _ hc hsuccess
  rw [four_toNat hw] at h
  unfold Uint32InBounds
  rw [readUint32_over]
  exact h

theorem readUint32_fits (hw : 32 ≤ w) (hfits : c.head.toNat + 4 < 2 ^ w) :
    (c.stop.toNat < c.head.toNat + 4 ∧ c.readUint32 mem = (none, c)) ∨
      (c.head.toNat + 4 ≤ c.stop.toNat ∧ ∃ c', c.readUint32 mem = (some (wordAt mem c.head), c') ∧
        c'.head.toNat = c.head.toNat + 4 ∧ c'.stop = c.stop) := by
  have hfour := four_toNat hw
  rcases @over_fits w c 4 (by omega) with ⟨hiff, hhead⟩
  rw [hfour] at hiff hhead
  by_cases hgt : c.head + 4 > c.stop
  · exact .inl ⟨hiff.mp hgt, by simp only [Cursor.readUint32, if_pos hgt]⟩
  · have hle : ¬ c.stop.toNat < c.head.toNat + 4 := mt hiff.mpr hgt
    rw [if_neg hle, Cursor.over, if_neg hgt] at hhead
    exact .inr ⟨Nat.le_of_not_lt hle, { c with head := c.head + 4 },
      by simp only [Cursor.readUint32, if_neg hgt], hhead, rfl⟩

theorem countedInBounds_iff (hw : 32 ≤ w) (hc : c.head ≤ c.stop) :
    CountedInBounds mem c ↔ Read.Fits mem .string c := by
  unfold CountedInBounds Read.Fits
  rw [uint32InBounds_iff hw hc]
  apply and_congr_right
  intro hfits
  rcases @readUint32_fits w c mem hw hfits with ⟨hshort, hread⟩ | ⟨hroom, c', hread, hhead, hstop⟩
  · rw [hread]
    constructor
    · intro _ hroom
      omega
    · intro _ len hlen
      cases hlen
  · have hc' : c'.head ≤ c'.stop := by
      rw [hstop, BitVec.le_def, hhead]
      exact hroom
    rw [hread]
    constructor
    · intro hget _
      by_cases hzero : wordAt mem c.head = 0
      · rw [hzero]
        exact hfits
      · have hlen := (getInBounds_iff hw hc' _).mp (hget _ rfl hzero)
        omega
    · intro hlen len heq _
      cases heq
      apply (getInBounds_iff hw hc' _).mpr
      have := hlen hroom
      omega

/-- A reader that refuses has only to keep the head where it may be. -/
theorem Advance.refused {c' : Cursor w} {size size' : Nat} {success success' : Prop}
    (h : Advance c c' size success) (hno : ¬ success') : Advance c c' size' success' :=
  ⟨fun hsuccess => absurd hsuccess hno, h.forward, h.bounded⟩

/-- A read after another one that has succeeded. -/
theorem Advance.trans {c' c'' : Cursor w} {m n : Nat} {success success' success'' : Prop}
    (h : Advance c c' m success) (h' : Advance c' c'' n success')
    (hhead : c'.head.toNat = c.head.toNat + m) (hstop : c'.stop = c.stop)
    (himp : success'' → success') : Advance c c'' (m + n) success'' := by
  constructor
  · intro hsuccess
    have hwithin := h'.within (himp hsuccess)
    rw [hhead, hstop] at hwithin
    omega
  · exact BitVec.le_trans h.forward h'.forward
  · exact h'.bounded

theorem readString_advance (hw : 32 ≤ w) (hc : c.head ≤ c.stop) (h : CountedInBounds mem c) :
    Advance c (c.readString mem).2 (4 + (wordAt mem c.head).toNat)
      ((c.readString mem).1.isSome = true) := by
  rcases h with ⟨hword, hget⟩
  have hfits := (uint32InBounds_iff hw hc).mp hword
  unfold Uint32InBounds at hword
  unfold Cursor.readString
  rcases @readUint32_fits w c mem hw hfits with ⟨-, hread⟩ | ⟨-, c', hread, hhead, hstop⟩
  · rw [hread] at hword ⊢
    exact hword.refused Bool.false_ne_true
  · rw [hread] at hword hget ⊢
    dsimp only at hword hget ⊢
    by_cases hzero : wordAt mem c.head = 0
    · rw [if_pos hzero]
      exact hword.refused Bool.false_ne_true
    · rw [if_neg hzero]
      have hfield := hget _ rfl hzero
      by_cases hboth : (c'.readGet (wordAt mem c.head)).1 ≠ 0 ∧
          mem ((c'.readGet (wordAt mem c.head)).2.head - 1) = 0
      · rw [if_pos hboth]
        exact hword.trans hfield hhead hstop fun _ => hboth.1
      · rw [if_neg hboth]
        have hmoved := hword.trans hfield hhead hstop id
        exact hmoved.refused Bool.false_ne_true

theorem readObject_leaves : (c.readObject json mem).2 = (c.readString mem).2 := by
  unfold Cursor.readObject
  split
  · rename_i hstring
    rw [hstring]
  · rename_i hstring
    rw [hstring]

theorem readObject_success (h : (c.readObject json mem).1.isSome = true) :
    (c.readString mem).1.isSome = true := by
  unfold Cursor.readObject at h
  split at h
  · cases h
  · rename_i hstring
    rw [hstring]
    rfl

theorem inBounds_iff (hw : 32 ≤ w) (hc : c.head ≤ c.stop) (read : Read) :
    read.InBounds json mem c ↔ read.Fits mem c := by
  cases read with
  | get length => exact getInBounds_iff hw hc length
  | uint32 => exact uint32InBounds_iff hw hc
  | string =>
      have hcounted := @countedInBounds_iff w c mem hw hc
      constructor
      · exact fun h => hcounted.mp h.1
      · intro hfits
        have h := hcounted.mpr hfits
        exact ⟨h, readString_advance hw hc h⟩
  | object =>
      have hcounted := @countedInBounds_iff w c mem hw hc
      constructor
      · exact fun h => hcounted.mp h.1
      · intro hfits
        have h := hcounted.mpr hfits
        have hstring := readString_advance hw hc h
        refine ⟨h, ?_, ?_, ?_⟩
        · exact fun hsome => hstring.within (readObject_success hsome)
        · rw [readObject_leaves]
          exact hstring.forward
        · rw [readObject_leaves]
          exact hstring.bounded

theorem InBounds.leaves {read : Read} (h : read.InBounds json mem c) :
    (read.leaves json mem c).head ≤ (read.leaves json mem c).stop := by
  cases read with
  | get length => exact h.bounded
  | uint32 => exact h.bounded
  | string => exact h.2.bounded
  | object => exact h.2.bounded

end Single

/-! ## Runs of reads -/

section Runs

variable {J : Type} {json : JsonC J} {mem : Memory w}

theorem readsInBounds_iff (hw : 32 ≤ w) (reads : List Read) {c : Cursor w} (hc : c.head ≤ c.stop) :
    ReadsInBounds json mem reads c ↔ ReadsFit json mem reads c := by
  induction reads generalizing c with
  | nil => exact Iff.rfl
  | cons read reads ih =>
      constructor
      · intro h
        exact ⟨(inBounds_iff hw hc read).mp h.1, (ih (InBounds.leaves h.1)).mp h.2⟩
      · intro h
        have hread := (@inBounds_iff w c mem J json hw hc read).mpr h.1
        exact ⟨hread, (ih (InBounds.leaves hread)).mpr h.2⟩

theorem readGet_stop (c : Cursor w) (length : UInt32) : (c.readGet length).2.stop = c.stop := by
  rw [readGet_over, over_stop]

theorem readString_stop (c : Cursor w) : (c.readString mem).2.stop = c.stop := by
  have hword : (c.readUint32 mem).2.stop = c.stop := by rw [readUint32_over, over_stop]
  unfold Cursor.readString
  split
  case h_1 hread =>
    rw [hread] at hword
    exact hword
  case h_2 len c' hread =>
    rw [hread] at hword
    have hfield : (c'.readGet len).2.stop = c.stop := (readGet_stop c' len).trans hword
    dsimp only
    split
    · exact hword
    · split
      · exact hfield
      · exact hfield

theorem leaves_stop (c : Cursor w) (read : Read) : (read.leaves json mem c).stop = c.stop := by
  cases read with
  | get length => exact readGet_stop c length
  | uint32 =>
      show (c.readUint32 mem).2.stop = c.stop
      rw [readUint32_over, over_stop]
  | string => exact readString_stop c
  | object =>
      show (c.readObject json mem).2.stop = c.stop
      rw [readObject_leaves, readString_stop]

/-- No field wraps when the addresses after the end are enough for any length. -/
theorem readsFit_wide (hw : 32 ≤ w) (reads : List Read) {c : Cursor w} (hc : c.head ≤ c.stop)
    (hwide : c.stop.toNat + 4 + 2 ^ 32 < 2 ^ w) : ReadsFit json mem reads c := by
  induction reads generalizing c with
  | nil => trivial
  | cons read reads ih =>
      have hfits : read.Fits mem c := by
        have hhead := hc
        rw [BitVec.le_def] at hhead
        have hlen := (wordAt mem c.head).toNat_lt
        cases read with
        | get length =>
            have := length.toNat_lt
            show c.head.toNat + length.toNat < 2 ^ w
            omega
        | uint32 =>
            show c.head.toNat + 4 < 2 ^ w
            omega
        | string => exact ⟨by omega, fun _ => by omega⟩
        | object => exact ⟨by omega, fun _ => by omega⟩
      have hnext := InBounds.leaves ((@inBounds_iff w c mem J json hw hc read).mpr hfits)
      have hstop : (read.leaves json mem c).stop.toNat + 4 + 2 ^ 32 < 2 ^ w := by
        rw [leaves_stop]
        exact hwide
      exact ⟨hfits, ih hnext hstop⟩

theorem ofData_stop {data : BitVec w} {size : Nat} (h : data.toNat + size < 2 ^ w) :
    (Cursor.ofData data size).stop.toNat = data.toNat + size := by
  show (data + BitVec.ofNat w size).toNat = data.toNat + size
  rw [BitVec.toNat_add, BitVec.toNat_ofNat, Nat.mod_eq_of_lt (show size < 2 ^ w by omega)]
  exact Nat.mod_eq_of_lt h

theorem ofData_le {data : BitVec w} {size : Nat} (h : data.toNat + size < 2 ^ w) :
    (Cursor.ofData data size).head ≤ (Cursor.ofData data size).stop := by
  rw [BitVec.le_def, ofData_stop h]
  exact Nat.le_add_right _ _

end Runs

/-! ## The buffer of bytes -/

/-- The buffer whose memory is a list of bytes is this part of the memory. -/
structure Views (mem : Memory w) (rb : Readbuf) (c : Cursor w) : Prop where
  width : rb.width = w
  head : rb.head = c.head.toNat
  stop : rb.stop = c.stop.toNat
  notNull : 0 < rb.base
  above : rb.base ≤ rb.head
  covered : rb.stop ≤ rb.base + rb.mem.length
  bytes : ∀ i < rb.mem.length, rb.mem[i]? = some (mem (BitVec.ofNat w (rb.base + i)))

section Viewed

variable {mem : Memory w} {rb : Readbuf} {c : Cursor w}

/-- A byte of the buffer, from an address on. -/
theorem Views.byte (h : Views mem rb c) {address : BitVec w} {start : Nat} (hbase : rb.base ≤ start)
    (hle : start ≤ address.toNat) (hend : address.toNat < rb.stop) :
    (rb.bytesFrom start)[address.toNat - start]? = some (mem address) := by
  have hcovered := h.covered
  have hat := h.bytes (address.toNat - rb.base) (by omega)
  have hsum : rb.base + (address.toNat - rb.base) = address.toNat := by omega
  have hindex : start - rb.base + (address.toNat - start) = address.toNat - rb.base := by omega
  rw [hsum, BitVec.ofNat_toNat, BitVec.setWidth_eq] at hat
  rw [Readbuf.bytesFrom, List.getElem?_drop, hindex]
  exact hat

theorem Views.advance (h : Views mem rb c) {c' : Cursor w} {n : Nat}
    (hhead : c'.head.toNat = c.head.toNat + n) (hstop : c'.stop = c.stop) :
    Views mem { rb with head := rb.head + n } c' where
  width := h.width
  head := by
    rw [hhead, ← h.head]
  stop := by
    rw [hstop]
    exact h.stop
  notNull := h.notNull
  above := Nat.le_trans h.above (Nat.le_add_right _ _)
  covered := h.covered
  bytes := h.bytes

theorem Views.word (hw : 32 ≤ w) (h : Views mem rb c) (hroom : c.head.toNat + 4 ≤ c.stop.toNat) :
    ofLe32 (rb.bytesFrom rb.head) = wordAt mem c.head := by
  have hlimit := c.stop.isLt
  have hpow : 2 ^ 32 ≤ 2 ^ w := Nat.pow_le_pow_right (by omega) hw
  have hat : ∀ i < 4, (rb.bytesFrom rb.head).getD i 0 = mem (c.head + BitVec.ofNat w i) := by
    intro i hi
    have haddress : (c.head + BitVec.ofNat w i).toNat = rb.head + i := by
      rw [BitVec.toNat_add, BitVec.toNat_ofNat, Nat.mod_eq_of_lt (show i < 2 ^ w by omega), h.head]
      exact Nat.mod_eq_of_lt (by omega)
    have hhead := h.head
    have hstop := h.stop
    have hbyte := @Views.byte w mem rb c h (c.head + BitVec.ofNat w i) rb.head h.above (by omega)
      (by omega)
    rw [haddress, Nat.add_sub_cancel_left] at hbyte
    rw [List.getD, hbyte, Option.getD_some]
  have hzero := hat 0 (by omega)
  rw [BitVec.add_zero] at hzero
  simp only [ofLe32, wordAt, hzero, hat 1 (by omega), hat 2 (by omega), hat 3 (by omega)]
  rfl

theorem Views.readUint32 (hw : 32 ≤ w) (h : Views mem rb c) (hfits : c.head.toNat + 4 < 2 ^ w) :
    (apiWsReadUint32 rb = none ∧ c.readUint32 mem = (none, c)) ∨
      ∃ rb' c', apiWsReadUint32 rb = some (wordAt mem c.head, rb') ∧
        c.readUint32 mem = (some (wordAt mem c.head), c') ∧ Views mem rb' c' := by
  have hhead := h.head
  have hstop := h.stop
  have hmod : (rb.head + 4) % 2 ^ rb.width = rb.head + 4 := by
    rw [h.width]
    exact Nat.mod_eq_of_lt (by omega)
  rcases @readUint32_fits w c mem hw hfits with ⟨hshort, hread⟩ | ⟨hroom, c', hread, hhead', hstop'⟩
  · left
    refine ⟨?_, hread⟩
    simp only [apiWsReadUint32, hmod]
    rw [if_pos (by omega)]
  · right
    refine ⟨{ rb with head := rb.head + 4 }, c', ?_, hread, h.advance hhead' hstop'⟩
    simp only [apiWsReadUint32, hmod, h.word hw hroom]
    rw [if_neg (by omega)]

theorem Views.readGet (hw : 32 ≤ w) (h : Views mem rb c) {length : UInt32}
    (hfits : c.head.toNat + length.toNat < 2 ^ w) :
    (apiWsReadGet rb length = none ∧ c.readGet length = (0, c)) ∨
      ∃ rb' c', apiWsReadGet rb length = some (c.head.toNat, rb') ∧
        c.readGet length = (c.head, c') ∧ c.head ≠ 0 ∧ c'.stop = c.stop ∧
        c'.head.toNat = c.head.toNat + length.toNat ∧ c'.head.toNat ≤ c.stop.toNat ∧
        rb'.base = rb.base ∧ Views mem rb' c' := by
  have hhead := h.head
  have hstop := h.stop
  have habove := h.above
  have hnull := h.notNull
  have hlen := length_toNat hw length
  rw [← hlen] at hfits
  rcases over_fits hfits with ⟨hiff, hover⟩
  rw [hlen] at hiff hover hfits
  have hmod : (rb.head + length.toNat) % 2 ^ rb.width = rb.head + length.toNat := by
    rw [h.width]
    exact Nat.mod_eq_of_lt (by omega)
  by_cases hgt : c.head + length.toBitVec.setWidth w > c.stop
  · left
    have hshort := hiff.mp hgt
    constructor
    · simp only [apiWsReadGet, hmod]
      rw [if_pos (by omega)]
    · simp only [Cursor.readGet, if_pos hgt]
  · right
    have hroom : ¬ c.stop.toNat < c.head.toNat + length.toNat := mt hiff.mpr hgt
    rw [if_neg hroom, Cursor.over, if_neg hgt] at hover
    have hne : c.head ≠ 0 := by
      intro hzero
      have : c.head.toNat = 0 := by simpa using congrArg BitVec.toNat hzero
      omega
    refine ⟨{ rb with head := rb.head + length.toNat },
      { c with head := c.head + length.toBitVec.setWidth w }, ?_, ?_, hne, rfl, hover, ?_, rfl,
      h.advance hover rfl⟩
    · simp only [apiWsReadGet, hmod]
      rw [if_neg (by omega), hhead]
    · simp only [Cursor.readGet, if_neg hgt]
    · rw [hover]
      omega

theorem Views.readString (hw : 32 ≤ w) (h : Views mem rb c) (hfits : Read.Fits mem .string c) :
    (apiWsReadString rb = none ∧ (c.readString mem).1 = none) ∨
      ∃ value length rb' c', apiWsReadString rb = some ((value.toNat, length), rb') ∧
        c.readString mem = (some (value, length), c') ∧ Views mem rb' c' := by
  unfold apiWsReadString Cursor.readString
  rcases h.readUint32 hw hfits.1 with ⟨hnone, hread⟩ | ⟨rb₁, c₁, hsome, hread, h₁⟩
  · rw [hnone, hread]
    exact .inl ⟨rfl, rfl⟩
  · rw [hsome, hread]
    dsimp only [Option.bind_eq_bind, Option.bind_some]
    by_cases hzero : wordAt mem c.head = 0
    · rw [if_pos hzero, if_pos hzero]
      exact .inl ⟨rfl, rfl⟩
    · rw [if_neg hzero, if_neg hzero]
      rcases @readUint32_fits w c mem hw hfits.1 with ⟨-, hread'⟩ | ⟨hroom, c', hread', hhead', hstop'⟩
      · rw [hread] at hread'
        cases hread'
      · rw [hread] at hread'
        cases hread'
        have hlen : c₁.head.toNat + (wordAt mem c.head).toNat < 2 ^ w := by
          rw [hhead']
          exact hfits.2 hroom
        rcases h₁.readGet hw hlen with ⟨hnone, hget⟩ | ⟨rb₂, c₂, hsome₂, hget, hne, hstop₂, hhead₂,
          hle₂, hbase₂, h₂⟩
        · rw [hnone, hget, if_neg (fun hboth => hboth.1 rfl)]
          exact .inl ⟨rfl, rfl⟩
        · -- the byte before the head is in the buffer
          have hnull := h₁.notNull
          have habove := h₁.above
          have hhead₁ := h₁.head
          have hrb₂ := h₂.head
          have hstoprb := h₂.stop
          rw [hstop₂] at hstoprb
          have hlenpos : (wordAt mem c.head).toNat ≠ 0 := fun hnat =>
            hzero (UInt32.toNat_inj.mp hnat)
          have hlast : (c₂.head - 1).toNat = c₂.head.toNat - 1 := by
            have hone := toNat_one (Nat.lt_of_lt_of_le (by decide) hw)
            rw [BitVec.toNat_sub_of_le (by rw [BitVec.le_def, hone]; omega), hone]
          have hbyte := @Views.byte w mem rb₂ c₂ h₂ (c₂.head - 1) (rb₂.head - 1) (by omega)
            (by omega) (by omega)
          have hindex : (c₂.head - 1).toNat - (rb₂.head - 1) = 0 := by omega
          rw [hindex, ← List.head?_eq_getElem?] at hbyte
          rw [hsome₂, hget]
          dsimp only [Option.bind_some]
          rw [hbyte]
          by_cases hnul : mem (c₂.head - 1) = 0
          · rw [if_pos (congrArg some hnul), if_pos ⟨hne, hnul⟩]
            exact .inr ⟨_, _, rb₂, c₂, rfl, rfl, h₂⟩
          · rw [if_neg (fun heq => hnul (Option.some.inj heq)), if_neg (fun hboth => hnul hboth.2)]
            exact .inl ⟨rfl, rfl⟩

end Viewed

/-- The fields received lie in their buffer: always with addresses of 64 bits; with addresses
of 32 bits, exactly when the end of no field wraps. -/
theorem fields_in_bounds_iff {J : Type} (json : JsonC J) (reads : List Read) :
    (∀ (mem : Memory 32) (data : BitVec 32) (size : Nat), data.toNat + size < 2 ^ 32 →
      (ReadsInBounds json mem reads (Cursor.ofData data size) ↔
        ReadsFit json mem reads (Cursor.ofData data size))) ∧
    ∀ (mem : Memory 64) (data : BitVec 64) (size : Nat), data.toNat + size < 2 ^ 47 →
      ReadsInBounds json mem reads (Cursor.ofData data size) := by
  constructor
  · intro mem data size hsize
    exact readsInBounds_iff (Nat.le_refl 32) reads (ofData_le hsize)
  · intro mem data size hsize
    have hspace : data.toNat + size < 2 ^ 64 := by omega
    have hle := ofData_le hspace
    have hwide : (Cursor.ofData data size).stop.toNat + 4 + 2 ^ 32 < 2 ^ 64 := by
      rw [ofData_stop hspace]
      omega
    exact (readsInBounds_iff (by decide) reads hle).mpr (readsFit_wide (by decide) reads hle hwide)

def bareJson : JsonC Unit := ⟨fun _ => nullString, fun _ => none⟩

/-- The memory that has the bytes at the address. -/
def memoryOf (data : BitVec w) (bytes : Bytes) : Memory w :=
  fun address => bytes.getD (address - data).toNat 0

/-- A message whose third word is a length of 2. -/
theorem fields_in_bounds_iff_call :
    ReadsInBounds bareJson
      (memoryOf 4096#32 [7, 0, 0, 0, 0, 0, 0, 0, 2, 0, 0, 0, 97, 0])
      [.uint32, .uint32, .string] (Cursor.ofData 4096#32 14) :=
  ((fields_in_bounds_iff bareJson [.uint32, .uint32, .string]).1 _ _ 14 (by decide)).mpr
    ⟨by decide, by decide, ⟨by decide, fun _ => by decide⟩, trivial⟩

/-- A call whose verb has the length `0xfffffff8`: the third read gives a string and the head
goes back to the second word. -/
theorem fields_in_bounds_fails :
    let mem := memoryOf 4096#32 [7, 0, 0, 0, 0, 0, 0, 0, 248, 255, 255, 255]
    (Cursor.readString mem ⟨4104#32, 4108#32⟩) = (some (4108#32, 4294967287), ⟨4100#32, 4108#32⟩) ∧
      ¬ ReadsInBounds bareJson mem [.uint32, .uint32, .string] (Cursor.ofData 4096#32 12) := by
  refine ⟨by decide, fun h => ?_⟩
  have hback := h.2.2.1.2.forward
  exact absurd hback (by decide)

end AfbBinder.ApiWs
