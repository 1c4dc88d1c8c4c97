import StaticStyle.Text.Quoted
import StaticStyle.Text.Utf8

namespace StaticStyle.Md5

/-- The four chained words. -/
structure Words where
  a : UInt32
  b : UInt32
  c : UInt32
  d : UInt32
deriving DecidableEq, Repr

def initial : Words := ⟨0x67452301, 0xefcdab89, 0x98badcfe, 0x10325476⟩

/-- The integer part of 2³² · |sin i| for i from 1 to 64. -/
def constants : List UInt32 :=
  [0xd76aa478, 0xe8c7b756, 0x242070db, 0xc1bdceee, 0xf57c0faf, 0x4787c62a, 0xa8304613, 0xfd469501,
   0x698098d8, 0x8b44f7af, 0xffff5bb1, 0x895cd7be, 0x6b901122, 0xfd987193, 0xa679438e, 0x49b40821,
   0xf61e2562, 0xc040b340, 0x265e5a51, 0xe9b6c7aa, 0xd62f105d, 0x02441453, 0xd8a1e681, 0xe7d3fbc8,
   0x21e1cde6, 0xc33707d6, 0xf4d50d87, 0x455a14ed, 0xa9e3e905, 0xfcefa3f8, 0x676f02d9, 0x8d2a4c8a,
   0xfffa3942, 0x8771f681, 0x6d9d6122, 0xfde5380c, 0xa4beea44, 0x4bdecfa9, 0xf6bb4b60, 0xbebfbc70,
   0x289b7ec6, 0xeaa127fa, 0xd4ef3085, 0x04881d05, 0xd9d4d039, 0xe6db99e5, 0x1fa27cf8, 0xc4ac5665,
   0xf4292244, 0x432aff97, 0xab9423a7, 0xfc93a039, 0x655b59c3, 0x8f0ccc92, 0xffeff47d, 0x85845dd1,
   0x6fa87e4f, 0xfe2ce6e0, 0xa3014314, 0x4e0811a1, 0xf7537e82, 0xbd3af235, 0x2ad7d2bb, 0xeb86d391]

/-- The rotation amounts of the four rounds, each cycle of four used four times. -/
def rotations : List UInt32 :=
  [[7, 12, 17, 22], [5, 9, 14, 20], [4, 11, 16, 23], [6, 10, 15, 21]].flatMap fun cycle =>
    cycle ++ cycle ++ cycle ++ cycle

def rotateLeft (word amount : UInt32) : UInt32 := (word <<< amount) ||| (word >>> (32 - amount))

/-- The mixing function of a step, and which word of the block it takes in. -/
def mixing (step : Nat) (w : Words) : UInt32 × Nat :=
  if step < 16 then ((w.b &&& w.c) ||| (~~~w.b &&& w.d), step)
  else if step < 32 then ((w.d &&& w.b) ||| (~~~w.d &&& w.c), (5 * step + 1) % 16)
  else if step < 48 then (w.b ^^^ w.c ^^^ w.d, (3 * step + 5) % 16)
  else (w.c ^^^ (w.b ||| ~~~w.d), 7 * step % 16)

def advance (block : List UInt32) (w : Words) (step : Nat × UInt32 × UInt32) : Words :=
  let (number, constant, rotation) := step
  let (mixed, index) := mixing number w
  let sum := mixed + w.a + constant + block.getD index 0
  ⟨w.d, w.b + rotateLeft sum rotation, w.b, w.c⟩

/-- Takes one block of sixteen words into the chained words. -/
def compress (w : Words) (block : List UInt32) : Words :=
  let steps := (List.range 64).zip (constants.zip rotations)
  let mixed := steps.foldl (advance block) w
  ⟨w.a + mixed.a, w.b + mixed.b, w.c + mixed.c, w.d + mixed.d⟩

/-- The bytes of a number, lowest first. -/
def littleEndian : (width : Nat) → (number : Nat) → Bytes
  | 0, _ => []
  | width + 1, number => UInt8.ofNat number :: littleEndian width (number / 256)

/-- A one bit, zeros up to 56 modulo 64 bytes, and the length in bits. -/
def pad (message : Bytes) : Bytes :=
  let zeros := (119 - message.length % 64) % 64
  message ++ 0x80 :: List.replicate zeros 0 ++ littleEndian 8 (8 * message.length)

def words : Bytes → List UInt32
  | a :: b :: c :: d :: rest =>
    (a.toUInt32 ||| b.toUInt32 <<< 8 ||| c.toUInt32 <<< 16 ||| d.toUInt32 <<< 24) :: words rest
  | _ => []

/-- Takes in the words, sixteen at a time. -/
def absorb (w : Words) (block : List UInt32) : List UInt32 → Words
  | [] => if block.length = 16 then compress w block.reverse else w
  | next :: rest =>
    if block.length = 16 then absorb (compress w block.reverse) [next] rest
    else absorb w (next :: block) rest

def digest (message : Bytes) : Bytes :=
  let w := absorb initial [] (words (pad message))
  [w.a, w.b, w.c, w.d].flatMap fun word => littleEndian 4 word.toNat

/-- The digest as 32 small hexadecimal digits. -/
def hexDigest (message : Bytes) : Text := (digest message).flatMap fun byte => hexDigits 2 byte.toNat

end StaticStyle.Md5
