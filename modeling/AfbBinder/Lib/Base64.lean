import AfbBinder.Lib.Bytes

/-!
# Base 64

The encoding of bytes by four digits for three bytes, with its padding, and its decoding.
-/

namespace AfbBinder.Lib.Base64

def padding : UInt8 := 61

/-- The digit of a value below 64. -/
def digit (n : Nat) : UInt8 :=
  if n < 26 then UInt8.ofNat (65 + n)
  else if n < 52 then UInt8.ofNat (71 + n)
  else if n < 62 then UInt8.ofNat (n - 4)
  else if n = 62 then 43
  else 47

/-- The value of a digit. -/
def value (c : UInt8) : Option Nat :=
  if 65 ≤ c ∧ c ≤ 90 then some (c.toNat - 65)
  else if 97 ≤ c ∧ c ≤ 122 then some (c.toNat - 71)
  else if 48 ≤ c ∧ c ≤ 57 then some (c.toNat + 4)
  else if c = 43 then some 62
  else if c = 47 then some 63
  else none

theorem value_digit {n : Nat} (h : n < 64) : value (digit n) = some n := by
  have hall : ∀ m < 64, value (digit m) = some m := by decide
  exact hall n h

theorem digit_ne_padding {n : Nat} (h : n < 64) : digit n ≠ padding := by
  intro heq
  have hvalue := value_digit h
  rw [heq] at hvalue
  cases hvalue

def encode : Bytes → Bytes
  | a :: b :: c :: rest =>
      digit (a.toNat / 4) :: digit (a.toNat % 4 * 16 + b.toNat / 16) ::
        digit (b.toNat % 16 * 4 + c.toNat / 64) :: digit (c.toNat % 64) :: encode rest
  | [a, b] =>
      [digit (a.toNat / 4), digit (a.toNat % 4 * 16 + b.toNat / 16), digit (b.toNat % 16 * 4),
        padding]
  | [a] => [digit (a.toNat / 4), digit (a.toNat % 4 * 16), padding, padding]
  | [] => []

/-- The bytes of a group of digits. -/
def group (w x y z : UInt8) : Option Bytes := do
  let w ← value w
  let x ← value x
  let first := UInt8.ofNat (w * 4 + x / 16)
  if y = padding then return [first]
  let y ← value y
  let second := UInt8.ofNat (x % 16 * 16 + y / 4)
  if z = padding then return [first, second]
  let z ← value z
  return [first, second, UInt8.ofNat (y % 4 * 64 + z)]

def decode : Bytes → Option Bytes
  | w :: x :: y :: z :: rest => do
      let bytes ← group w x y z
      let more ← decode rest
      return bytes ++ more
  | [] => some []
  | _ => none

theorem group_three (a b c : UInt8) :
    group (digit (a.toNat / 4)) (digit (a.toNat % 4 * 16 + b.toNat / 16))
      (digit (b.toNat % 16 * 4 + c.toNat / 64)) (digit (c.toNat % 64)) = some [a, b, c] := by
  have ha := a.toNat_lt
  have hb := b.toNat_lt
  have hc := c.toNat_lt
  have hy : b.toNat % 16 * 4 + c.toNat / 64 < 64 := by omega
  have hz : c.toNat % 64 < 64 := by omega
  have hfirst : a.toNat / 4 * 4 + (a.toNat % 4 * 16 + b.toNat / 16) / 16 = a.toNat := by omega
  have hsecond : (a.toNat % 4 * 16 + b.toNat / 16) % 16 * 16 +
      (b.toNat % 16 * 4 + c.toNat / 64) / 4 = b.toNat := by omega
  have hthird : (b.toNat % 16 * 4 + c.toNat / 64) % 4 * 64 + c.toNat % 64 = c.toNat := by omega
  simp only [group, value_digit (show a.toNat / 4 < 64 by omega),
    value_digit (show a.toNat % 4 * 16 + b.toNat / 16 < 64 by omega), value_digit hy,
    value_digit hz, digit_ne_padding hy, digit_ne_padding hz, hfirst, hsecond, hthird,
    UInt8.ofNat_toNat, Option.bind_eq_bind, Option.bind_some, if_false]
  rfl

theorem group_two (a b : UInt8) :
    group (digit (a.toNat / 4)) (digit (a.toNat % 4 * 16 + b.toNat / 16))
      (digit (b.toNat % 16 * 4)) padding = some [a, b] := by
  have ha := a.toNat_lt
  have hb := b.toNat_lt
  have hy : b.toNat % 16 * 4 < 64 := by omega
  have hfirst : a.toNat / 4 * 4 + (a.toNat % 4 * 16 + b.toNat / 16) / 16 = a.toNat := by omega
  have hsecond : (a.toNat % 4 * 16 + b.toNat / 16) % 16 * 16 + b.toNat % 16 * 4 / 4 = b.toNat := by
    omega
  simp only [group, value_digit (show a.toNat / 4 < 64 by omega),
    value_digit (show a.toNat % 4 * 16 + b.toNat / 16 < 64 by omega), value_digit hy,
    digit_ne_padding hy, hfirst, hsecond, UInt8.ofNat_toNat, Option.bind_eq_bind, Option.bind_some,
    if_false, if_true]
  rfl

theorem group_one (a : UInt8) :
    group (digit (a.toNat / 4)) (digit (a.toNat % 4 * 16)) padding padding = some [a] := by
  have ha := a.toNat_lt
  have hfirst : a.toNat / 4 * 4 + a.toNat % 4 * 16 / 16 = a.toNat := by omega
  simp only [group, value_digit (show a.toNat / 4 < 64 by omega),
    value_digit (show a.toNat % 4 * 16 < 64 by omega), hfirst, UInt8.ofNat_toNat,
    Option.bind_eq_bind, Option.bind_some, if_true]
  rfl

theorem decode_encode (bytes : Bytes) : decode (encode bytes) = some bytes := by
  induction bytes using encode.induct with
  | case1 a b c rest ih =>
      rw [encode, decode, group_three, ih]
      rfl
  | case2 a b =>
      rw [encode, decode, group_two]
      rfl
  | case3 a =>
      rw [encode, decode, group_one]
      rfl
  | case4 => rfl

/-- A digit or the padding is printable, and is neither a space nor a comma. -/
theorem printable_encode (bytes : Bytes) :
    ∀ c ∈ encode bytes, c = padding ∨ ∃ n < 64, c = digit n := by
  induction bytes using encode.induct with
  | case1 a b c rest ih =>
      have ha := a.toNat_lt
      have hb := b.toNat_lt
      have hc := c.toNat_lt
      intro d hd
      rw [encode] at hd
      simp only [List.mem_cons] at hd
      rcases hd with rfl | rfl | rfl | rfl | hd
      · exact .inr ⟨_, by omega, rfl⟩
      · exact .inr ⟨_, by omega, rfl⟩
      · exact .inr ⟨_, by omega, rfl⟩
      · exact .inr ⟨_, by omega, rfl⟩
      · exact ih d hd
  | case2 a b =>
      have ha := a.toNat_lt
      have hb := b.toNat_lt
      intro d hd
      rw [encode] at hd
      simp only [List.mem_cons, List.not_mem_nil, or_false] at hd
      rcases hd with rfl | rfl | rfl | rfl
      · exact .inr ⟨_, by omega, rfl⟩
      · exact .inr ⟨_, by omega, rfl⟩
      · exact .inr ⟨_, by omega, rfl⟩
      · exact .inl rfl
  | case3 a =>
      have ha := a.toNat_lt
      intro d hd
      rw [encode] at hd
      simp only [List.mem_cons, List.not_mem_nil, or_false] at hd
      rcases hd with rfl | rfl | rfl | rfl
      · exact .inr ⟨_, by omega, rfl⟩
      · exact .inr ⟨_, by omega, rfl⟩
      · exact .inl rfl
      · exact .inl rfl
  | case4 => exact fun _ hd => by cases hd

end AfbBinder.Lib.Base64
