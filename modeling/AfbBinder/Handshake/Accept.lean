import AfbBinder.Lib.Base64
import AfbBinder.Lib.Sha1
import AfbBinder.WsClient.Response

/-!
# The accept value

`make_accept_value` of the websocket server encodes the digest of the key with `enc64`, three
bytes at a time, and writes the padding over the last digit.
-/

namespace AfbBinder.Handshake

open Lib WsClient

/-- `websocket_guid` -/
def websocketGuid : Bytes := ascii "258EAFA5-E914-47DA-95CA-C5AB0DC85B11"

/-- `tob64` -/
def tob64 : Bytes := ascii "ABCDEFGHIJKLMNOPQRSTUVWXYZabcdefghijklmnopqrstuvwxyz0123456789+/"

/-- `enc64`, on the three bytes at the start of the input. -/
def enc64 (input : Bytes) : Bytes :=
  let a := input.getD 0 0
  let b := input.getD 1 0
  let c := input.getD 2 0
  [tob64.getD (a >>> 2).toNat 0, tob64.getD ((a &&& 0x03) <<< 4 ||| (b &&& 0xf0) >>> 4).toNat 0,
    tob64.getD ((b &&& 0x0f) <<< 2 ||| (c &&& 0xc0) >>> 6).toNat 0, tob64.getD (c &&& 0x3f).toNat 0]

/-- The calls `enc64(&md[3 * i], &result[4 * i])` for the `n` first groups. -/
def enc64s : Nat → Bytes → Bytes
  | 0, _ => []
  | n + 1, md => enc64 md ++ enc64s n (md.drop 3)

/-- `make_accept_value`, with the hash function that it is given. -/
def makeAcceptValue (sha1 : Bytes → Bytes) (key : Bytes) : Bytes :=
  let md := (sha1 (key ++ websocketGuid)).take 20 ++ [0]
  (enc64s 7 md).set 27 61

/-! ## Base 64 -/

theorem tob64_digit {n : Nat} (h : n < 64) : tob64.getD n 0 = Base64.digit n := by
  have hall : ∀ m < 64, tob64.getD m 0 = Base64.digit m := by decide +kernel
  exact hall n h

theorem shift_two (a : UInt8) : (a >>> 2).toNat = a.toNat / 4 := by
  rw [UInt8.toNat_shiftRight]
  exact Nat.shiftRight_eq_div_pow a.toNat 2

/-- The low bits of a byte above the high bits of the next one. -/
theorem join_bits (a b : UInt8) {low high : Nat} (hlow : low + high = 6) (hpos : 0 < low) :
    (a.toNat % 2 ^ low) <<< high ||| b.toNat / 2 ^ (8 - high) =
      a.toNat % 2 ^ low * 2 ^ high + b.toNat / 2 ^ (8 - high) := by
  have hb := b.toNat_lt
  have hsmall : b.toNat / 2 ^ (8 - high) < 2 ^ high := by
    rw [Nat.div_lt_iff_lt_mul (Nat.two_pow_pos _), ← Nat.pow_add,
      show high + (8 - high) = 8 by omega]
    exact hb
  rw [← Nat.shiftLeft_add_eq_or_of_lt hsmall, Nat.shiftLeft_eq]

theorem second_index (a b : UInt8) :
    ((a &&& 0x03) <<< 4 ||| (b &&& 0xf0) >>> 4).toNat = a.toNat % 4 * 16 + b.toNat / 16 := by
  have ha := a.toNat_lt
  have hb := b.toNat_lt
  have hand : a.toNat &&& 3 = a.toNat % 4 := Nat.and_two_pow_sub_one_eq_mod a.toNat 2
  have hlow : (a.toNat % 4) <<< 4 % 256 = (a.toNat % 4) <<< 4 := by
    apply Nat.mod_eq_of_lt
    rw [Nat.shiftLeft_eq]
    omega
  have hhigh : (b.toNat &&& 240) >>> 4 = b.toNat / 16 := by
    rw [Nat.shiftRight_and_distrib, Nat.shiftRight_eq_div_pow]
    exact (Nat.and_two_pow_sub_one_eq_mod (b.toNat / 16) 4).trans (Nat.mod_eq_of_lt (by omega))
  rw [UInt8.toNat_or, UInt8.toNat_shiftLeft, UInt8.toNat_shiftRight, UInt8.toNat_and,
    UInt8.toNat_and]
  exact (congrArg₂ (· ||| ·) ((congrArg (fun n => n <<< 4 % 256) hand).trans hlow) hhigh).trans
    (join_bits a b (show 2 + 4 = 6 from rfl) (by decide))

theorem third_index (b c : UInt8) :
    ((b &&& 0x0f) <<< 2 ||| (c &&& 0xc0) >>> 6).toNat = b.toNat % 16 * 4 + c.toNat / 64 := by
  have hb := b.toNat_lt
  have hc := c.toNat_lt
  have hand : b.toNat &&& 15 = b.toNat % 16 := Nat.and_two_pow_sub_one_eq_mod b.toNat 4
  have hlow : (b.toNat % 16) <<< 2 % 256 = (b.toNat % 16) <<< 2 := by
    apply Nat.mod_eq_of_lt
    rw [Nat.shiftLeft_eq]
    omega
  have hhigh : (c.toNat &&& 192) >>> 6 = c.toNat / 64 := by
    rw [Nat.shiftRight_and_distrib, Nat.shiftRight_eq_div_pow]
    exact (Nat.and_two_pow_sub_one_eq_mod (c.toNat / 64) 2).trans (Nat.mod_eq_of_lt (by omega))
  rw [UInt8.toNat_or, UInt8.toNat_shiftLeft, UInt8.toNat_shiftRight, UInt8.toNat_and,
    UInt8.toNat_and]
  exact (congrArg₂ (· ||| ·) ((congrArg (fun n => n <<< 2 % 256) hand).trans hlow) hhigh).trans
    (join_bits b c (show 4 + 2 = 6 from rfl) (by decide))

theorem fourth_index (c : UInt8) : (c &&& 0x3f).toNat = c.toNat % 64 := by
  rw [UInt8.toNat_and]
  exact Nat.and_two_pow_sub_one_eq_mod c.toNat 6

theorem enc64_eq (a b c : UInt8) (rest : Bytes) :
    enc64 (a :: b :: c :: rest) =
      [Base64.digit (a.toNat / 4), Base64.digit (a.toNat % 4 * 16 + b.toNat / 16),
        Base64.digit (b.toNat % 16 * 4 + c.toNat / 64), Base64.digit (c.toNat % 64)] := by
  have ha := a.toNat_lt
  have hb := b.toNat_lt
  have hc := c.toNat_lt
  have hunfold : enc64 (a :: b :: c :: rest) =
      [tob64.getD (a >>> 2).toNat 0,
        tob64.getD ((a &&& 0x03) <<< 4 ||| (b &&& 0xf0) >>> 4).toNat 0,
        tob64.getD ((b &&& 0x0f) <<< 2 ||| (c &&& 0xc0) >>> 6).toNat 0,
        tob64.getD (c &&& 0x3f).toNat 0] := rfl
  rw [hunfold, shift_two, second_index, third_index, fourth_index, tob64_digit (by omega),
    tob64_digit (by omega), tob64_digit (by omega), tob64_digit (by omega)]

theorem enc64s_eq (n : Nat) (bytes : Bytes) (h : bytes.length = 3 * n + 2) :
    (enc64s (n + 1) (bytes ++ [0])).set (4 * n + 3) 61 = Base64.encode bytes := by
  induction n generalizing bytes with
  | zero =>
      match bytes, h with
      | [a, b], _ =>
          rw [enc64s, List.cons_append, List.cons_append, List.nil_append, enc64_eq]
          rfl
  | succ n ih =>
      match bytes, h with
      | a :: b :: c :: rest, h =>
          have hrest : rest.length = 3 * n + 2 := by
            simp only [List.length_cons] at h
            omega
          rw [enc64s, List.cons_append, List.cons_append, List.cons_append, enc64_eq,
            Base64.encode, ← ih rest hrest]
          rfl

theorem makeAcceptValue_eq (sha1 : Bytes → Bytes) (hsize : ∀ message, (sha1 message).length = 20)
    (key : Bytes) :
    makeAcceptValue sha1 key = Base64.encode (sha1 (key ++ websocketGuid)) := by
  have htake : (sha1 (key ++ websocketGuid)).take 20 = sha1 (key ++ websocketGuid) := by
    apply List.take_of_length_le
    exact Nat.le_of_eq (hsize _)
  rw [makeAcceptValue, htake]
  exact enc64s_eq 6 _ (hsize _)

/-- The accept value is the digest of the key and the GUID in base 64, which it gives back. -/
theorem makeAcceptValue_decodes (sha1 : Bytes → Bytes) (hsize : ∀ message, (sha1 message).length = 20)
    (key : Bytes) :
    makeAcceptValue sha1 key = Base64.encode (sha1 (key ++ websocketGuid)) ∧
      Base64.decode (makeAcceptValue sha1 key) = some (sha1 (key ++ websocketGuid)) := by
  have hencode := makeAcceptValue_eq sha1 hsize key
  rw [hencode]
  exact ⟨rfl, Base64.decode_encode _⟩

theorem makeAcceptValue_decodes_sample :
    makeAcceptValue Sha1.hash (ascii "dGhlIHNhbXBsZSBub25jZQ==") = ascii "s3pPLMBiTxaQ9kYGzzhZRbK+xOo=" ∧
      Base64.decode (makeAcceptValue Sha1.hash (ascii "dGhlIHNhbXBsZSBub25jZQ==")) =
        some (Sha1.hash (ascii "dGhlIHNhbXBsZSBub25jZQ==" ++ websocketGuid)) :=
  ⟨by decide +kernel, (makeAcceptValue_decodes Sha1.hash Sha1.length_hash _).2⟩

/-- No character of an accept value ends a header or an element of its list. -/
theorem makeAcceptValue_plain (sha1 : Bytes → Bytes) (hsize : ∀ message, (sha1 message).length = 20)
    (key : Bytes) :
    makeAcceptValue sha1 key ≠ [] ∧
      ∀ c ∈ makeAcceptValue sha1 key, c ≠ 0 ∧ c ∉ ([32, 44] : Bytes) := by
  have hdigits : ∀ n < 64, Base64.digit n ≠ 0 ∧ Base64.digit n ∉ ([32, 44] : Bytes) := by
    decide +kernel
  rw [makeAcceptValue_eq sha1 hsize]
  constructor
  · intro hempty
    have hdecode := Base64.decode_encode (sha1 (key ++ websocketGuid))
    rw [hempty] at hdecode
    have hlength := hsize (key ++ websocketGuid)
    rw [← Option.some.inj hdecode] at hlength
    cases hlength
  · intro c hc
    rcases Base64.printable_encode _ c hc with rfl | ⟨n, hn, rfl⟩
    · decide +kernel
    · exact hdigits n hn

end AfbBinder.Handshake
