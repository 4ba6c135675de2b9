import AfbBinder.Lib.Bytes

/-!
# SHA-1

The hash function of FIPS 180-4, on messages that are lists of bytes.
-/

namespace AfbBinder.Lib.Sha1

/-- The five words of the state. -/
structure State where
  a : UInt32
  b : UInt32
  c : UInt32
  d : UInt32
  e : UInt32
deriving DecidableEq, Repr

def initial : State := ⟨0x67452301, 0xEFCDAB89, 0x98BADCFE, 0x10325476, 0xC3D2E1F0⟩

def rotl (n : UInt32) (x : UInt32) : UInt32 := x <<< n ||| x >>> (32 - n)

/-- The function and the constant of the round `t`. -/
def mixed (t : Nat) (b c d : UInt32) : UInt32 :=
  if t < 20 then (b &&& c ||| ~~~b &&& d) + 0x5A827999
  else if t < 40 then (b ^^^ c ^^^ d) + 0x6ED9EBA1
  else if t < 60 then (b &&& c ||| b &&& d ||| c &&& d) + 0x8F1BBCDC
  else (b ^^^ c ^^^ d) + 0xCA62C1D6

def round (t : Nat) (word : UInt32) (s : State) : State :=
  ⟨rotl 5 s.a + mixed t s.b s.c s.d + s.e + word, s.a, rotl 30 s.b, s.c, s.d⟩

def rounds : Nat → List UInt32 → State → State
  | _, [], s => s
  | t, word :: words, s => rounds (t + 1) words (round t word s)

/-- More words of the schedule, the last one first. -/
def expand : Nat → List UInt32 → List UInt32
  | 0, words => words
  | n + 1, words =>
      let word := words.getD 2 0 ^^^ words.getD 7 0 ^^^ words.getD 13 0 ^^^ words.getD 15 0
      expand n (rotl 1 word :: words)

/-- The words of four bytes each at the head of the bytes, the most significant byte first. -/
def wordsOf : Nat → Bytes → List UInt32
  | 0, _ => []
  | n + 1, bytes =>
      (bytes.take 4).foldl (fun word b => word <<< 8 ||| b.toUInt32) 0 :: wordsOf n (bytes.drop 4)

def compress (s : State) (block : Bytes) : State :=
  let s' := rounds 0 (expand 64 (wordsOf 16 block).reverse).reverse s
  ⟨s.a + s'.a, s.b + s'.b, s.c + s'.c, s.d + s'.d, s.e + s'.e⟩

/-- The bytes of a number, the most significant one first. -/
def bigEndian : Nat → Nat → Bytes
  | 0, _ => []
  | n + 1, value => UInt8.ofNat (value / 256 ^ n) :: bigEndian n value

/-- One bit, zeros and the number of bits, up to a whole number of blocks. -/
def pad (message : Bytes) : Bytes :=
  message ++ 0x80 :: List.replicate ((119 - message.length % 64) % 64) 0 ++
    bigEndian 8 (8 * message.length)

def blocks : Nat → State → Bytes → State
  | 0, s, _ => s
  | n + 1, s, bytes => blocks n (compress s (bytes.take 64)) (bytes.drop 64)

/-- The hash of a message, of 20 bytes. -/
def hash (message : Bytes) : Bytes :=
  let padded := pad message
  let s := blocks (padded.length / 64) initial padded
  [s.a, s.b, s.c, s.d, s.e].flatMap fun word => bigEndian 4 word.toNat

theorem length_bigEndian (n value : Nat) : (bigEndian n value).length = n := by
  induction n with
  | zero => rfl
  | succ n ih => exact congrArg (· + 1) ih

theorem length_hash (message : Bytes) : (hash message).length = 20 := by
  simp [hash, length_bigEndian]

end AfbBinder.Lib.Sha1
