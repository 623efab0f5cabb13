/-!
# The MD5 digest

The digest of a text is computed over its UTF-8 bytes and written as thirty-two hexadecimal digits.
The message is padded to whole blocks of sixty-four bytes with a one bit, zeros, and its length in
bits; every block is then mixed into a state of four words in sixty-four rounds.
-/

namespace Estate.Digest

/-- The four words that a message is mixed into. -/
structure State where
  a : UInt32
  b : UInt32
  c : UInt32
  d : UInt32
  deriving DecidableEq, Repr

/-- The state before the first block. -/
def State.initial : State :=
  ⟨0x67452301, 0xefcdab89, 0x98badcfe, 0x10325476⟩

/-- How far the sum of each round is rotated; the four amounts of every sixteen rounds repeat. -/
def rotations : List UInt32 :=
  [[7, 12, 17, 22], [5, 9, 14, 20], [4, 11, 16, 23], [6, 10, 15, 21]].flatMap fun four =>
    (List.replicate 4 four).flatten

/-- The words added in the rounds, the binary digits of the sines of 1, 2, … 64. -/
def sines : List UInt32 := [
  0xd76aa478, 0xe8c7b756, 0x242070db, 0xc1bdceee, 0xf57c0faf, 0x4787c62a, 0xa8304613, 0xfd469501,
  0x698098d8, 0x8b44f7af, 0xffff5bb1, 0x895cd7be, 0x6b901122, 0xfd987193, 0xa679438e, 0x49b40821,
  0xf61e2562, 0xc040b340, 0x265e5a51, 0xe9b6c7aa, 0xd62f105d, 0x02441453, 0xd8a1e681, 0xe7d3fbc8,
  0x21e1cde6, 0xc33707d6, 0xf4d50d87, 0x455a14ed, 0xa9e3e905, 0xfcefa3f8, 0x676f02d9, 0x8d2a4c8a,
  0xfffa3942, 0x8771f681, 0x6d9d6122, 0xfde5380c, 0xa4beea44, 0x4bdecfa9, 0xf6bb4b60, 0xbebfbc70,
  0x289b7ec6, 0xeaa127fa, 0xd4ef3085, 0x04881d05, 0xd9d4d039, 0xe6db99e5, 0x1fa27cf8, 0xc4ac5665,
  0xf4292244, 0x432aff97, 0xab9423a7, 0xfc93a039, 0x655b59c3, 0x8f0ccc92, 0xffeff47d, 0x85845dd1,
  0x6fa87e4f, 0xfe2ce6e0, 0xa3014314, 0x4e0811a1, 0xf7537e82, 0xbd3af235, 0x2ad7d2bb, 0xeb86d391]

/-- Rotates a word to the left. -/
def rotateLeft (x n : UInt32) : UInt32 :=
  (x <<< n) ||| (x >>> (32 - n))

/-- The mixture of three words in a round, and the word of the block that the round takes. -/
def mix (round : Nat) (s : State) : UInt32 × Nat :=
  if round < 16 then ((s.b &&& s.c) ||| (~~~s.b &&& s.d), round)
  else if round < 32 then ((s.d &&& s.b) ||| (~~~s.d &&& s.c), (5 * round + 1) % 16)
  else if round < 48 then (s.b ^^^ s.c ^^^ s.d, (3 * round + 5) % 16)
  else (s.c ^^^ (s.b ||| ~~~s.d), 7 * round % 16)

/-- One round on a block of sixteen words. -/
def step (block : Array UInt32) (s : State) (round : Nat × UInt32 × UInt32) : State :=
  let (i, rotation, sine) := round
  let (f, word) := mix i s
  let sum := s.a + f + sine + block[word]?.getD 0
  ⟨s.d, s.b + rotateLeft sum rotation, s.b, s.c⟩

/-- The sixty-four rounds with their rotations and sines. -/
def rounds : List (Nat × UInt32 × UInt32) :=
  (List.range 64).zip (rotations.zip sines)

/-- Mixes one block into a state. -/
def State.absorb (s : State) (block : Array UInt32) : State :=
  let t := rounds.foldl (step block) s
  ⟨s.a + t.a, s.b + t.b, s.c + t.c, s.d + t.d⟩

/-! ## Words and blocks -/

/-- The lowest `n` bytes of a number, least significant first. -/
def littleEndian : Nat → Nat → List UInt8
  | 0, _ => []
  | n + 1, value => UInt8.ofNat (value % 256) :: littleEndian n (value / 256)

/-- Words of four bytes each, least significant byte first. -/
def words : List UInt8 → List UInt32
  | a :: b :: c :: d :: rest =>
    (a.toUInt32 ||| (b.toUInt32 <<< 8) ||| (c.toUInt32 <<< 16) ||| (d.toUInt32 <<< 24)) ::
      words rest
  | _ => []

/-- A message with its padding. -/
def pad (bytes : List UInt8) : List UInt8 :=
  let zeros := (119 - bytes.length % 64) % 64
  bytes ++ 0x80 :: List.replicate zeros 0 ++ littleEndian 8 (8 * bytes.length)

/-- Mixes sixteen words at a time into a state, at most `fuel` times. -/
def absorbAll : Nat → State → List UInt32 → State
  | 0, s, _ => s
  | fuel + 1, s, ws =>
    if ws.isEmpty then s else absorbAll fuel (s.absorb (ws.take 16).toArray) (ws.drop 16)

/-- The bytes of a digest. -/
def digest (bytes : List UInt8) : List UInt8 :=
  let ws := words (pad bytes)
  let s := absorbAll ws.length .initial ws
  [s.a, s.b, s.c, s.d].flatMap fun w => littleEndian 4 w.toNat

/-- One hexadecimal digit. -/
def hex (n : Nat) : Char :=
  if n < 10 then Char.ofNat (48 + n) else Char.ofNat (87 + n)

/-- Bytes as hexadecimal digits. -/
def hexText (bytes : List UInt8) : String :=
  String.ofList <| bytes.flatMap fun b => [hex (b.toNat / 16), hex (b.toNat % 16)]

/-- The digest of a text. -/
def md5 (text : String) : String :=
  hexText (digest text.toByteArray.toList)

end Estate.Digest
