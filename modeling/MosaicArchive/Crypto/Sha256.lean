import MosaicArchive.Bytes.FixedWidth

/-!
SHA-256 over byte strings. Every digest in the archive formats is this
function; the proofs use it only through the length of its result.
-/

namespace Sha256

open FixedWidth

/-- The first 32 bits of the fractional parts of the cube roots of the first
64 primes. -/
def roundConstants : List UInt32 :=
  [0x428a2f98, 0x71374491, 0xb5c0fbcf, 0xe9b5dba5, 0x3956c25b, 0x59f111f1, 0x923f82a4, 0xab1c5ed5,
   0xd807aa98, 0x12835b01, 0x243185be, 0x550c7dc3, 0x72be5d74, 0x80deb1fe, 0x9bdc06a7, 0xc19bf174,
   0xe49b69c1, 0xefbe4786, 0x0fc19dc6, 0x240ca1cc, 0x2de92c6f, 0x4a7484aa, 0x5cb0a9dc, 0x76f988da,
   0x983e5152, 0xa831c66d, 0xb00327c8, 0xbf597fc7, 0xc6e00bf3, 0xd5a79147, 0x06ca6351, 0x14292967,
   0x27b70a85, 0x2e1b2138, 0x4d2c6dfc, 0x53380d13, 0x650a7354, 0x766a0abb, 0x81c2c92e, 0x92722c85,
   0xa2bfe8a1, 0xa81a664b, 0xc24b8b70, 0xc76c51a3, 0xd192e819, 0xd6990624, 0xf40e3585, 0x106aa070,
   0x19a4c116, 0x1e376c08, 0x2748774c, 0x34b0bcb5, 0x391c0cb3, 0x4ed8aa4a, 0x5b9cca4f, 0x682e6ff3,
   0x748f82ee, 0x78a5636f, 0x84c87814, 0x8cc70208, 0x90befffa, 0xa4506ceb, 0xbef9a3f7, 0xc67178f2]

/-- The eight working variables. -/
structure State where
  a : UInt32
  b : UInt32
  c : UInt32
  d : UInt32
  e : UInt32
  f : UInt32
  g : UInt32
  h : UInt32

def initialState : State :=
  { a := 0x6a09e667, b := 0xbb67ae85, c := 0x3c6ef372, d := 0xa54ff53a,
    e := 0x510e527f, f := 0x9b05688c, g := 0x1f83d9ab, h := 0x5be0cd19 }

def rotateRight (x : UInt32) (n : UInt32) : UInt32 := (x >>> n) ||| (x <<< (32 - n))

def round (s : State) (k w : UInt32) : State :=
  let s1 := rotateRight s.e 6 ^^^ rotateRight s.e 11 ^^^ rotateRight s.e 25
  let choice := (s.e &&& s.f) ^^^ (~~~s.e &&& s.g)
  let t1 := s.h + s1 + choice + k + w
  let s0 := rotateRight s.a 2 ^^^ rotateRight s.a 13 ^^^ rotateRight s.a 22
  let majority := (s.a &&& s.b) ^^^ (s.a &&& s.c) ^^^ (s.b &&& s.c)
  { a := t1 + (s0 + majority), b := s.a, c := s.b, d := s.c,
    e := s.d + t1, f := s.e, g := s.f, h := s.g }

/-- One word of the message schedule from the sixteen before it, the newest
first. -/
def scheduleWord (recent : List UInt32) : UInt32 :=
  let w2 := recent.getD 1 0
  let w15 := recent.getD 14 0
  let s1 := rotateRight w2 17 ^^^ rotateRight w2 19 ^^^ (w2 >>> 10)
  let s0 := rotateRight w15 7 ^^^ rotateRight w15 18 ^^^ (w15 >>> 3)
  s1 + recent.getD 6 0 + s0 + recent.getD 15 0

def extendSchedule : ℕ → List UInt32 → List UInt32
  | 0, recent => recent.reverse
  | n + 1, recent => extendSchedule n (scheduleWord recent :: recent)

def words : ℕ → Bytes → List UInt32
  | 0, _ => []
  | n + 1, b => UInt32.ofNat (beNat (b.take 4)) :: words n (b.drop 4)

/-- Absorb one 64-byte block. -/
def compress (s : State) (block : Bytes) : State :=
  let schedule := extendSchedule 48 (words 16 block).reverse
  let t := (roundConstants.zip schedule).foldl (fun t kw => round t kw.1 kw.2) s
  { a := s.a + t.a, b := s.b + t.b, c := s.c + t.c, d := s.d + t.d,
    e := s.e + t.e, f := s.f + t.f, g := s.g + t.g, h := s.h + t.h }

/-- The message followed by a one bit, zeros to the block boundary and the bit
length. -/
def padMessage (b : Bytes) : Bytes :=
  b ++ [0x80] ++ List.replicate ((119 - b.length % 64) % 64) 0 ++ beBytes 8 (8 * b.length)

def absorb : ℕ → State → Bytes → State
  | 0, s, _ => s
  | n + 1, s, b => absorb n (compress s (b.take 64)) (b.drop 64)

def State.digest (s : State) : Bytes :=
  [s.a, s.b, s.c, s.d, s.e, s.f, s.g, s.h].flatMap fun x => beBytes 4 x.toNat

end Sha256

open FixedWidth in
/-- The SHA-256 digest of a byte string. -/
@[irreducible] def sha256 (b : Bytes) : Bytes :=
  let padded := Sha256.padMessage b
  (Sha256.absorb (padded.length / 64) Sha256.initialState padded).digest

open FixedWidth in
@[simp] theorem sha256_length (b : Bytes) : (sha256 b).length = 32 := by
  unfold sha256
  simp [Sha256.State.digest]
