import AfbBinder.Lib.Bytes

/-!
# The serialisation of binder messages

The readers and writers of `afb-api-ws.c`.  A read buffer is a pair of addresses in the
memory that starts with the received data; addresses are words of `width` bits, so that
`head + length` may wrap.  A write buffer is the list of its vectors.  The size of an
object in memory is unbounded.
-/

namespace AfbBinder.ApiWs

open Lib

/-! ## Reading -/

/-- `struct readbuf`, with the memory from the address `base` on. -/
structure Readbuf where
  width : Nat
  mem : Bytes
  base : Nat
  head : Nat
  stop : Nat

/-- The memory from an address on. -/
def Readbuf.bytesFrom (rb : Readbuf) (address : Nat) : Bytes := rb.mem.drop (address - rb.base)

/-- The C string at an address. -/
def Readbuf.text (rb : Readbuf) (address : Nat) : Bytes := cstring (rb.bytesFrom address)

/-- The bytes at an address. -/
def Readbuf.data (rb : Readbuf) (address length : Nat) : Bytes := (rb.bytesFrom address).take length

/-- The buffer of a received message, whatever follows it in memory. -/
def Readbuf.ofData (width base : Nat) (data beyond : Bytes) : Readbuf :=
  ⟨width, data ++ beyond, base, base, base + data.length⟩

/-- `api_ws_read_get` -/
def apiWsReadGet (rb : Readbuf) (length : UInt32) : Option (Nat × Readbuf) :=
  let before := rb.head
  let after := (before + length.toNat) % 2 ^ rb.width
  if after > rb.stop then none else some (before, { rb with head := after })

/-- `api_ws_read_uint32` -/
def apiWsReadUint32 (rb : Readbuf) : Option (UInt32 × Readbuf) :=
  let after := (rb.head + 4) % 2 ^ rb.width
  if after > rb.stop then none
  else some (ofLe32 (rb.bytesFrom rb.head), { rb with head := after })

/-- `api_ws_read_string`: the address of the string and its length. -/
def apiWsReadString (rb : Readbuf) : Option ((Nat × Nat) × Readbuf) := do
  let (len, rb) ← apiWsReadUint32 rb
  if len = 0 then none
  else
    let (value, rb) ← apiWsReadGet rb len
    if (rb.bytesFrom (rb.head - 1)).head? = some 0 then some ((value, len.toNat - 1), rb) else none

/-- json-c: objects are printed plain, and `NULL` stands for the value null. -/
structure JsonC (J : Type) where
  toJsonString : Option J → CString
  tokenerParse : Bytes → Option J

def nullText : Bytes := [110, 117, 108, 108]

def nullString : CString := ⟨nullText, by decide⟩

/-- Printing and parsing are inverse, null is printed as such. -/
structure JsonC.Inverse {J : Type} (json : JsonC J) : Prop where
  parse_print : ∀ object, json.tokenerParse (json.toJsonString object).bytes = object
  print_null : (json.toJsonString none).bytes = nullText

/-- `api_ws_read_object` -/
def apiWsReadObject {J : Type} (json : JsonC J) (rb : Readbuf) : Option (Option J × Readbuf) := do
  let ((string, _), rb) ← apiWsReadString rb
  let object := json.tokenerParse (rb.text string)
  if object.isSome = decide (rb.text string ≠ nullText) then some (object, rb) else none

/-! ## Writing -/

/-- `struct writebuf` -/
abbrev Writebuf := List Bytes

def writebufCountMax : Nat := 32

/-- `api_ws_write_put` of the bytes in memory from `value` on. -/
def apiWsWritePut (value : Bytes) (length : Nat) (wb : Writebuf) : Option Writebuf :=
  if wb.length = writebufCountMax then none else some (wb ++ [value.take length])

/-- `api_ws_write_char` -/
def apiWsWriteChar (value : UInt8) (wb : Writebuf) : Option Writebuf :=
  if wb.length = writebufCountMax then none else some (wb ++ [[value]])

/-- `api_ws_write_uint32` -/
def apiWsWriteUint32 (value : UInt32) (wb : Writebuf) : Option Writebuf :=
  if wb.length = writebufCountMax then none else some (wb ++ [le32 value])

/-- `api_ws_write_string_nz` -/
def apiWsWriteStringNz (value : Bytes) (length : Nat) (wb : Writebuf) : Option Writebuf :=
  let len := UInt32.ofNat length
  if len.toNat = length ∧ len + 1 ≠ 0 then do
    let wb ← apiWsWriteUint32 (len + 1) wb
    let wb ← apiWsWritePut value length wb
    apiWsWriteChar 0 wb
  else none

/-- `api_ws_write_string_length` -/
def apiWsWriteStringLength (value : Bytes) (length : Nat) (wb : Writebuf) : Option Writebuf :=
  let length := length + 1
  let len := UInt32.ofNat length
  if len.toNat = length ∧ len ≠ 0 then do
    let wb ← apiWsWriteUint32 len wb
    apiWsWritePut value length wb
  else none

/-- `api_ws_write_string` -/
def apiWsWriteString (value : CString) : Writebuf → Option Writebuf :=
  apiWsWriteStringLength (value.bytes ++ [0]) value.bytes.length

/-- `api_ws_write_object` -/
def apiWsWriteObject {J : Type} (json : JsonC J) (object : Option J) : Writebuf → Option Writebuf :=
  apiWsWriteString (json.toJsonString object)

/-! ## Reading what was written -/

/-- The bytes between the head and the end of the buffer, and what follows in memory. -/
structure Unread (bytes beyond : Bytes) (rb : Readbuf) : Prop where
  fits : rb.stop < 2 ^ rb.width
  above : rb.base ≤ rb.head
  stop : rb.stop = rb.head + bytes.length
  content : rb.bytesFrom rb.head = bytes ++ beyond

theorem unread_ofData {width base : Nat} (data beyond : Bytes)
    (h : base + data.length < 2 ^ width) :
    Unread data beyond (Readbuf.ofData width base data beyond) :=
  ⟨h, Nat.le_refl _, rfl, by simp [Readbuf.bytesFrom, Readbuf.ofData]⟩

variable {beyond rest : Bytes} {rb : Readbuf}

/-- Advancing over bytes of the buffer never wraps. -/
theorem Unread.advance {front : Bytes} (h : Unread (front ++ rest) beyond rb) :
    (rb.head + front.length) % 2 ^ rb.width = rb.head + front.length ∧
      rb.head + front.length ≤ rb.stop ∧
      Unread rest beyond { rb with head := rb.head + front.length } := by
  have hstop := h.stop
  have hfits := h.fits
  have habove := h.above
  rw [List.length_append] at hstop
  refine ⟨Nat.mod_eq_of_lt (by omega), by omega, hfits, by simp only; omega, by simp only; omega, ?_⟩
  have hcontent := congrArg (List.drop front.length) h.content
  simp only [Readbuf.bytesFrom, List.drop_drop] at hcontent ⊢
  have hpos : rb.head - rb.base + front.length = rb.head + front.length - rb.base := by omega
  rw [← hpos, hcontent]
  simp

theorem Unread.done (h : Unread [] beyond rb) : rb.head = rb.stop := by
  simpa using h.stop.symm

theorem readUint32_written {value : UInt32} (h : Unread (le32 value ++ rest) beyond rb) :
    ∃ rb', apiWsReadUint32 rb = some (value, rb') ∧ Unread rest beyond rb' ∧
      rb'.mem = rb.mem ∧ rb'.base = rb.base := by
  obtain ⟨hmod, hle, hrest⟩ := h.advance
  rw [le32_length] at hmod hle hrest
  refine ⟨{ rb with head := rb.head + 4 }, ?_, hrest, rfl, rfl⟩
  have hvalue : ofLe32 (rb.bytesFrom rb.head) = value := by
    rw [h.content, List.append_assoc]
    exact ofLe32_le32 value (rest ++ beyond)
  have hgo : ¬ rb.head + 4 > rb.stop := by omega
  simp only [apiWsReadUint32, hmod, hgo, if_false, hvalue]

/-- A counted string, as both writers of strings put it on the wire. -/
def countedString (bytes : Bytes) : Bytes :=
  le32 (UInt32.ofNat (bytes.length + 1)) ++ (bytes ++ [0])

/-- The string at an address, as long as the buffer lives. -/
def Readbuf.Holds (rb : Readbuf) (address : Nat) (bytes : Bytes) : Prop :=
  ∃ after, rb.bytesFrom address = bytes ++ 0 :: after

theorem readString_written {bytes : Bytes} (hsize : bytes.length + 1 < 2 ^ 32)
    (h : Unread (countedString bytes ++ rest) beyond rb) :
    ∃ address rb', apiWsReadString rb = some ((address, bytes.length), rb') ∧
      Unread rest beyond rb' ∧ rb'.mem = rb.mem ∧ rb'.base = rb.base ∧
      rb'.Holds address bytes := by
  obtain ⟨hlen, hne⟩ := word_succ hsize
  rw [countedString, List.append_assoc] at h
  obtain ⟨rb₁, hread, h₁, hmem₁, hbase₁⟩ := readUint32_written h
  obtain ⟨hmod, hle, hrest⟩ := h₁.advance
  have hsplit : (bytes ++ [(0 : UInt8)]).length = bytes.length + 1 := by simp
  rw [hsplit] at hmod hle hrest
  have hgo : ¬ rb₁.head + (bytes.length + 1) > rb₁.stop := by omega
  have hcontent := h₁.content
  have hlast : (Readbuf.bytesFrom { rb₁ with head := rb₁.head + (bytes.length + 1) }
      (rb₁.head + (bytes.length + 1) - 1)).head? = some 0 := by
    have hdrop := congrArg (List.drop bytes.length) hcontent
    have habove := h₁.above
    have hpos : rb₁.head - rb₁.base + bytes.length =
        rb₁.head + (bytes.length + 1) - 1 - rb₁.base := by omega
    simp only [Readbuf.bytesFrom, List.drop_drop] at hdrop ⊢
    rw [← hpos, hdrop]
    simp
  refine ⟨rb₁.head, { rb₁ with head := rb₁.head + (bytes.length + 1) }, ?_, hrest, hmem₁, hbase₁,
    rest ++ beyond, ?_⟩
  · simp only [apiWsReadString, hread, Option.bind_eq_bind, Option.bind_some, hne, if_false,
      apiWsReadGet, hlen, hmod, hgo, hlast, if_true, Nat.add_sub_cancel]
  · have hsame : Readbuf.bytesFrom { rb₁ with head := rb₁.head + (bytes.length + 1) } rb₁.head =
        rb₁.bytesFrom rb₁.head := rfl
    rw [hsame, hcontent]
    simp

/-- Reading further leaves the string. -/
theorem Readbuf.Holds.later {rb' : Readbuf} {address : Nat} {bytes : Bytes} (h : rb.Holds address bytes)
    (hmem : rb'.mem = rb.mem) (hbase : rb'.base = rb.base) : rb'.Holds address bytes := by
  obtain ⟨after, hfrom⟩ := h
  refine ⟨after, ?_⟩
  rw [← hfrom, Readbuf.bytesFrom, Readbuf.bytesFrom, hmem, hbase]

theorem Readbuf.Holds.text {address : Nat} {string : CString} (h : rb.Holds address string.bytes) :
    rb.text address = string.bytes := by
  obtain ⟨after, hfrom⟩ := h
  rw [Readbuf.text, hfrom]
  exact cstring_append string after

theorem Readbuf.Holds.data {address : Nat} {bytes : Bytes} (h : rb.Holds address bytes) :
    rb.data address bytes.length = bytes := by
  obtain ⟨after, hfrom⟩ := h
  rw [Readbuf.data, hfrom]
  simp

theorem readObject_written {J : Type} {json : JsonC J} (hjson : json.Inverse) {object : Option J}
    (hsize : (json.toJsonString object).bytes.length + 1 < 2 ^ 32)
    (h : Unread (countedString (json.toJsonString object).bytes ++ rest) beyond rb) :
    ∃ rb', apiWsReadObject json rb = some (object, rb') ∧ Unread rest beyond rb' ∧
      rb'.mem = rb.mem ∧ rb'.base = rb.base := by
  obtain ⟨address, rb', hread, hrest, hmem, hbase, hholds⟩ := readString_written hsize h
  refine ⟨rb', ?_, hrest, hmem, hbase⟩
  have hcheck : object.isSome = decide ((json.toJsonString object).bytes ≠ nullText) := by
    cases object with
    | none => simp [hjson.print_null]
    | some value =>
        -- a value printed as null would be parsed as null
        have hne : (json.toJsonString (some value)).bytes ≠ nullText := fun heq => by
          have hparse := hjson.parse_print (some value)
          rw [heq, ← hjson.print_null, hjson.parse_print none] at hparse
          cases hparse
        simp [hne]
  simp only [apiWsReadObject, hread, Option.bind_eq_bind, Option.bind_some, hholds.text,
    hjson.parse_print, hcheck, if_true]

/-! ## Sequences of writes -/

/-- The buffer is built with the given bytes in the given number of vectors. -/
def Built (wb : Option Writebuf) (bytes : Bytes) (count : Nat) : Prop :=
  ∃ vectors, wb = some vectors ∧ vectors.flatten = bytes ∧ vectors.length = count

theorem built_nil : Built (some []) [] 0 := ⟨[], rfl, rfl, rfl⟩

variable {wb : Option Writebuf} {bytes : Bytes} {count : Nat}

theorem Built.cast {bytes' : Bytes} (h : Built wb bytes count) (heq : bytes = bytes') :
    Built wb bytes' count := heq ▸ h

theorem Built.put (value : Bytes) (length : Nat) (h : Built wb bytes count) (hcount : count < 32) :
    Built (wb >>= apiWsWritePut value length) (bytes ++ value.take length) (count + 1) := by
  obtain ⟨vectors, rfl, rfl, rfl⟩ := h
  have hroom : vectors.length ≠ writebufCountMax := Nat.ne_of_lt hcount
  exact ⟨vectors ++ [value.take length], by simp [apiWsWritePut, hroom], by simp, by simp⟩

theorem Built.char (value : UInt8) (h : Built wb bytes count) (hcount : count < 32) :
    Built (wb >>= apiWsWriteChar value) (bytes ++ [value]) (count + 1) := by
  obtain ⟨vectors, rfl, rfl, rfl⟩ := h
  have hroom : vectors.length ≠ writebufCountMax := Nat.ne_of_lt hcount
  exact ⟨vectors ++ [[value]], by simp [apiWsWriteChar, hroom], by simp, by simp⟩

theorem Built.uint32 (value : UInt32) (h : Built wb bytes count) (hcount : count < 32) :
    Built (wb >>= apiWsWriteUint32 value) (bytes ++ le32 value) (count + 1) := by
  obtain ⟨vectors, rfl, rfl, rfl⟩ := h
  have hroom : vectors.length ≠ writebufCountMax := Nat.ne_of_lt hcount
  exact ⟨vectors ++ [le32 value], by simp [apiWsWriteUint32, hroom], by simp, by simp⟩

theorem Built.stringLength (value : Bytes) (h : Built wb bytes count) (hcount : count + 1 < 32)
    (hsize : value.length + 1 < 2 ^ 32) :
    Built (wb >>= apiWsWriteStringLength (value ++ [0]) value.length)
      (bytes ++ countedString value) (count + 2) := by
  obtain ⟨hlen, hne⟩ := word_succ hsize
  have hwhole : (value ++ [(0 : UInt8)]).take (value.length + 1) = value ++ [0] :=
    List.take_of_length_le (by simp)
  have hput := (h.uint32 (UInt32.ofNat (value.length + 1)) (by omega)).put (value ++ [0])
    (value.length + 1) hcount
  rw [hwhole, List.append_assoc] at hput
  obtain ⟨vectors, rfl, -, -⟩ := h
  simp only [Option.bind_eq_bind, Option.bind_some, apiWsWriteStringLength, hlen, ne_eq, hne,
    not_false_eq_true, and_self, if_true] at hput ⊢
  exact hput

/-- A string written without NUL, to which one is added. -/
theorem Built.stringNz (value : Bytes) {length : Nat} (h : Built wb bytes count)
    (hcount : count + 2 < 32) (hlength : (value.take length).length = length)
    (hsize : length + 1 < 2 ^ 32) :
    Built (wb >>= apiWsWriteStringNz value length)
      (bytes ++ countedString (value.take length)) (count + 3) := by
  obtain ⟨-, hne⟩ := word_succ hsize
  have hnext : UInt32.ofNat length + 1 = UInt32.ofNat (length + 1) := by simp
  have hlen : (UInt32.ofNat length).toNat = length := by
    rw [UInt32.toNat_ofNat']
    exact Nat.mod_eq_of_lt (by omega)
  have hput := ((h.uint32 (UInt32.ofNat (length + 1)) (by omega)).put value length (by omega)).char 0
    hcount
  rw [List.append_assoc, List.append_assoc] at hput
  rw [countedString, hlength]
  obtain ⟨vectors, rfl, -, -⟩ := h
  simp only [Option.bind_eq_bind, Option.bind_some, Option.bind_assoc, apiWsWriteStringNz, hlen,
    hnext, ne_eq, hne, not_false_eq_true, and_self, if_true] at hput ⊢
  exact hput

theorem Built.string (value : CString) (h : Built wb bytes count) (hcount : count + 1 < 32)
    (hsize : value.bytes.length + 1 < 2 ^ 32) :
    Built (wb >>= apiWsWriteString value) (bytes ++ countedString value.bytes) (count + 2) :=
  h.stringLength value.bytes hcount hsize

/-- A length that does not fit 32 bits is refused by both writers. -/
theorem writeStringLength_refused {value : Bytes} {length : Nat} (h : ¬ length + 1 < 2 ^ 32)
    (wb : Option Writebuf) : (wb >>= apiWsWriteStringLength value length) = none := by
  have hne : (UInt32.ofNat (length + 1)).toNat ≠ length + 1 := by
    have := (UInt32.ofNat (length + 1)).toNat_lt
    omega
  cases wb with
  | none => rfl
  | some vectors =>
      simp only [Option.bind_eq_bind, Option.bind_some, apiWsWriteStringLength, hne, false_and,
        if_false]

theorem writeString_refused {value : CString} (h : ¬ value.bytes.length + 1 < 2 ^ 32)
    (wb : Option Writebuf) : (wb >>= apiWsWriteString value) = none :=
  writeStringLength_refused h wb

theorem writeStringNz_refused {value : Bytes} {length : Nat} (h : ¬ length + 1 < 2 ^ 32)
    (wb : Option Writebuf) : (wb >>= apiWsWriteStringNz value length) = none := by
  have hcheck : ¬ ((UInt32.ofNat length).toNat = length ∧ UInt32.ofNat length + 1 ≠ 0) := by
    rintro ⟨hlen, hne⟩
    have hlt := (UInt32.ofNat length).toNat_lt
    apply hne
    apply UInt32.toNat_inj.mp
    rw [UInt32.toNat_add, hlen]
    have : length + 1 = 2 ^ 32 := by omega
    simp [this]
  cases wb with
  | none => rfl
  | some vectors =>
      simp only [Option.bind_eq_bind, Option.bind_some, apiWsWriteStringNz, hcheck, if_false]

end AfbBinder.ApiWs
