/-
# SHA-256

The hash function of FIPS 180-4 on byte strings, so that a development that takes its hash as
a parameter can run on the hash its program is linked with.  Words are natural numbers below
`2 ^ 32`, which the kernel computes with directly.
-/
import Pkgexec.Lib.Bytes

namespace Sha256

/-! ## 1. Words

The operations on 32-bit words, with the names they have in the standard. -/

/-- Reduction modulo `2 ^ 32`. -/
def word (x : Nat) : Nat := x % 4294967296

/-- Rotation to the right. -/
def rotr (n x : Nat) : Nat := (x >>> n) ||| word (x <<< (32 - n))

def bigSigma0 (x : Nat) : Nat := rotr 2 x ^^^ rotr 13 x ^^^ rotr 22 x
def bigSigma1 (x : Nat) : Nat := rotr 6 x ^^^ rotr 11 x ^^^ rotr 25 x
def smallSigma0 (x : Nat) : Nat := rotr 7 x ^^^ rotr 18 x ^^^ (x >>> 3)
def smallSigma1 (x : Nat) : Nat := rotr 17 x ^^^ rotr 19 x ^^^ (x >>> 10)
def ch (x y z : Nat) : Nat := (x &&& y) ^^^ ((4294967295 - x) &&& z)
def maj (x y z : Nat) : Nat := (x &&& y) ^^^ (x &&& z) ^^^ (y &&& z)

/-- The round constants. -/
def roundConstants : List Nat := [
  0x428a2f98, 0x71374491, 0xb5c0fbcf, 0xe9b5dba5, 0x3956c25b, 0x59f111f1, 0x923f82a4, 0xab1c5ed5,
  0xd807aa98, 0x12835b01, 0x243185be, 0x550c7dc3, 0x72be5d74, 0x80deb1fe, 0x9bdc06a7, 0xc19bf174,
  0xe49b69c1, 0xefbe4786, 0x0fc19dc6, 0x240ca1cc, 0x2de92c6f, 0x4a7484aa, 0x5cb0a9dc, 0x76f988da,
  0x983e5152, 0xa831c66d, 0xb00327c8, 0xbf597fc7, 0xc6e00bf3, 0xd5a79147, 0x06ca6351, 0x14292967,
  0x27b70a85, 0x2e1b2138, 0x4d2c6dfc, 0x53380d13, 0x650a7354, 0x766a0abb, 0x81c2c92e, 0x92722c85,
  0xa2bfe8a1, 0xa81a664b, 0xc24b8b70, 0xc76c51a3, 0xd192e819, 0xd6990624, 0xf40e3585, 0x106aa070,
  0x19a4c116, 0x1e376c08, 0x2748774c, 0x34b0bcb5, 0x391c0cb3, 0x4ed8aa4a, 0x5b9cca4f, 0x682e6ff3,
  0x748f82ee, 0x78a5636f, 0x84c87814, 0x8cc70208, 0x90befffa, 0xa4506ceb, 0xbef9a3f7, 0xc67178f2]

/-! ## 2. One block

The schedule is kept newest word first, so that the four words an extension looks at are at fixed
places near the front. -/

/-- The eight working variables. -/
structure State where
  a : Nat
  b : Nat
  c : Nat
  d : Nat
  e : Nat
  f : Nat
  g : Nat
  h : Nat

/-- The initial hash value. -/
def initial : State :=
  ⟨0x6a09e667, 0xbb67ae85, 0x3c6ef372, 0xa54ff53a, 0x510e527f, 0x9b05688c, 0x1f83d9ab, 0x5be0cd19⟩

/-- Extend a message schedule, kept newest word first, by `n` words. -/
def schedule : Nat → List Nat → List Nat
  | 0, ws => ws
  | n + 1, ws =>
    schedule n (word (smallSigma1 (ws.getD 1 0) + ws.getD 6 0 + smallSigma0 (ws.getD 14 0)
      + ws.getD 15 0) :: ws)

/-- One round, with its constant and its word of the schedule. -/
def round (s : State) (kw : Nat × Nat) : State :=
  ⟨word (s.h + bigSigma1 s.e + ch s.e s.f s.g + kw.1 + kw.2 + bigSigma0 s.a + maj s.a s.b s.c),
    s.a, s.b, s.c,
    word (s.d + s.h + bigSigma1 s.e + ch s.e s.f s.g + kw.1 + kw.2), s.e, s.f, s.g⟩

def State.add (s t : State) : State :=
  ⟨word (s.a + t.a), word (s.b + t.b), word (s.c + t.c), word (s.d + t.d),
    word (s.e + t.e), word (s.f + t.f), word (s.g + t.g), word (s.h + t.h)⟩

/-- The big-endian words of a block. -/
def words : Bytes → List Nat
  | a :: b :: c :: d :: t => Bytes.ofBigEndian [a, b, c, d] :: words t
  | _ => []

def compress (s : State) (block : Bytes) : State :=
  s.add ((roundConstants.zip (schedule 48 (words block).reverse).reverse).foldl round s)

/-! ## 3. The hash

Padding makes a whole number of blocks, which are taken from the front by count; the recursion is
on the count, so that the kernel can run it. -/

/-- Append a one bit, zeros, and the bit length. -/
def pad (m : Bytes) : Bytes :=
  m ++ 0x80 :: List.replicate ((119 - m.length % 64) % 64) 0 ++ Bytes.bigEndian 8 (8 * m.length)

/-- Compress `n` blocks of 64 bytes. -/
def blocks : Nat → State → Bytes → State
  | 0, s, _ => s
  | n + 1, s, m => blocks n (compress s (m.take 64)) (m.drop 64)

def State.bytes (s : State) : Bytes :=
  [s.a, s.b, s.c, s.d, s.e, s.f, s.g, s.h].flatMap (Bytes.bigEndian 4)

def hash (m : Bytes) : Bytes := (blocks ((pad m).length / 64) initial (pad m)).bytes

theorem length_hash (m : Bytes) : (hash m).length = 32 := by
  simp [hash, State.bytes]

example : Bytes.hexEncode (hash []) =
    Bytes.text "e3b0c44298fc1c149afbf4c8996fb92427ae41e4649b934ca495991b7852b855" := by
  decide +kernel

end Sha256
