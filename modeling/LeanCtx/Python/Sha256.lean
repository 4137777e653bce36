import LeanCtx.Python.Text

/-! SHA-256, as `hashlib.sha256` computes it. The proofs only use that its hexadecimal digest has 64 lowercase
    hexadecimal digits. -/

namespace LeanCtx.Sha256

/-- The eight working words. -/
structure Words where
  (a b c d e f g h : UInt32)

def initial : Words :=
  ⟨0x6a09e667, 0xbb67ae85, 0x3c6ef372, 0xa54ff53a, 0x510e527f, 0x9b05688c, 0x1f83d9ab, 0x5be0cd19⟩

/-- The round constants. -/
def constants : List UInt32 :=
  [0x428a2f98, 0x71374491, 0xb5c0fbcf, 0xe9b5dba5, 0x3956c25b, 0x59f111f1, 0x923f82a4, 0xab1c5ed5,
    0xd807aa98, 0x12835b01, 0x243185be, 0x550c7dc3, 0x72be5d74, 0x80deb1fe, 0x9bdc06a7, 0xc19bf174,
    0xe49b69c1, 0xefbe4786, 0x0fc19dc6, 0x240ca1cc, 0x2de92c6f, 0x4a7484aa, 0x5cb0a9dc, 0x76f988da,
    0x983e5152, 0xa831c66d, 0xb00327c8, 0xbf597fc7, 0xc6e00bf3, 0xd5a79147, 0x06ca6351, 0x14292967,
    0x27b70a85, 0x2e1b2138, 0x4d2c6dfc, 0x53380d13, 0x650a7354, 0x766a0abb, 0x81c2c92e, 0x92722c85,
    0xa2bfe8a1, 0xa81a664b, 0xc24b8b70, 0xc76c51a3, 0xd192e819, 0xd6990624, 0xf40e3585, 0x106aa070,
    0x19a4c116, 0x1e376c08, 0x2748774c, 0x34b0bcb5, 0x391c0cb3, 0x4ed8aa4a, 0x5b9cca4f, 0x682e6ff3,
    0x748f82ee, 0x78a5636f, 0x84c87814, 0x8cc70208, 0x90befffa, 0xa4506ceb, 0xbef9a3f7, 0xc67178f2]

def rotr (x n : UInt32) : UInt32 := (x >>> n) ||| (x <<< (32 - n))

/-- The message padded to whole blocks: a one bit, zeros and the length in bits. -/
def pad (data : Bytes) : Bytes :=
  data ++ 0x80 :: List.replicate ((119 - data.length % 64) % 64) 0 ++
    (List.range 8).map fun i => UInt8.ofNat (data.length * 8 / 2 ^ (8 * (7 - i)))

/-- Bytes as big-endian words. -/
def words : Bytes → List UInt32
  | a :: b :: c :: d :: r =>
    ((a.toUInt32 <<< 24) ||| (b.toUInt32 <<< 16) ||| (c.toUInt32 <<< 8) ||| d.toUInt32) :: words r
  | _ => []

/-- The next word of the message schedule, from the words so far, the latest first. -/
def nextWord (w : List UInt32) : UInt32 :=
  let s0 := w.getD 14 0
  let s1 := w.getD 1 0
  w.getD 15 0 + (rotr s0 7 ^^^ rotr s0 18 ^^^ (s0 >>> 3)) + w.getD 6 0 + (rotr s1 17 ^^^ rotr s1 19 ^^^ (s1 >>> 10))

/-- The message schedule of a block. -/
def schedule (block : List UInt32) : List UInt32 :=
  ((List.range 48).foldl (fun w _ => nextWord w :: w) block.reverse).reverse

def round (v : Words) (kw : UInt32 × UInt32) : Words :=
  let s1 := rotr v.e 6 ^^^ rotr v.e 11 ^^^ rotr v.e 25
  let ch := (v.e &&& v.f) ^^^ (~~~ v.e &&& v.g)
  let t1 := v.h + s1 + ch + kw.1 + kw.2
  let s0 := rotr v.a 2 ^^^ rotr v.a 13 ^^^ rotr v.a 22
  let maj := (v.a &&& v.b) ^^^ (v.a &&& v.c) ^^^ (v.b &&& v.c)
  ⟨t1 + (s0 + maj), v.a, v.b, v.c, v.d + t1, v.e, v.f, v.g⟩

def compress (s : Words) (block : List UInt32) : Words :=
  let v := (constants.zip (schedule block)).foldl round s
  ⟨s.a + v.a, s.b + v.b, s.c + v.c, s.d + v.d, s.e + v.e, s.f + v.f, s.g + v.g, s.h + v.h⟩

/-- The state after the blocks of a list of words. The fuel counts blocks. -/
def absorb : Nat → Words → List UInt32 → Words
  | 0, s, _ => s
  | n + 1, s, w => if w.isEmpty then s else absorb n (compress s (w.take 16)) (w.drop 16)

def digestWords (data : Bytes) : Words :=
  let w := words (pad data)
  absorb (w.length / 16) initial w

/-- A lowercase hexadecimal digit. -/
def hexDigit (n : Nat) : Nat := if n % 16 < 10 then 48 + n % 16 else 87 + n % 16

/-- The eight hexadecimal digits of a word. -/
def hexWord (x : UInt32) : Str := (List.range 8).map fun i => hexDigit (x.toNat / 16 ^ (7 - i))

/-- `hashlib.sha256(data).hexdigest()`. -/
def hexdigest (data : Bytes) : Str :=
  let s := digestWords data
  hexWord s.a ++ hexWord s.b ++ hexWord s.c ++ hexWord s.d ++ hexWord s.e ++ hexWord s.f ++ hexWord s.g ++ hexWord s.h

/-- A lowercase hexadecimal digit, as a character. -/
def isHex (c : Nat) : Bool := (48 ≤ c && c ≤ 57) || (97 ≤ c && c ≤ 102)

theorem isHex_hexDigit (n : Nat) : isHex (hexDigit n) = true := by
  unfold hexDigit isHex
  split_ifs <;> simp <;> omega

theorem isHex_hexWord (x : UInt32) : (hexWord x).all isHex = true := by
  simp [hexWord, isHex_hexDigit]

theorem length_hexdigest (data : Bytes) : (hexdigest data).length = 64 := by
  simp [hexdigest, hexWord]

theorem isHex_hexdigest (data : Bytes) : (hexdigest data).all isHex = true := by
  simp only [hexdigest, List.all_append, isHex_hexWord, Bool.and_self]

attribute [irreducible] hexdigest

end LeanCtx.Sha256
