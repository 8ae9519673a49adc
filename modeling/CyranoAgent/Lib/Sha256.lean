import Mathlib.Algebra.Group.Nat.Defs
import Mathlib.Tactic.Common

/-!
# SHA-256

`Sha256.hexdigest` is the lowercase hexadecimal SHA-256 of a byte string. Words are
`BitVec 32`; every recursion is structural, on the round constants or on the number of
blocks, so that the kernel can evaluate a digest.
-/

namespace Lib

namespace Sha256

/-- A word of the hash. -/
abbrev Word := BitVec 32

/-! ### The round function -/

/-- Choice: a bit of `y` or of `z`, as the bit of `x` says. -/
def ch (x y z : Word) : Word := (x &&& y) ^^^ (~~~x &&& z)

/-- Majority of three bits. -/
def maj (x y z : Word) : Word := (x &&& y) ^^^ (x &&& z) ^^^ (y &&& z)

/-- `Σ₀`. -/
def bigSigma0 (x : Word) : Word := x.rotateRight 2 ^^^ x.rotateRight 13 ^^^ x.rotateRight 22

/-- `Σ₁`. -/
def bigSigma1 (x : Word) : Word := x.rotateRight 6 ^^^ x.rotateRight 11 ^^^ x.rotateRight 25

/-- `σ₀`. -/
def smallSigma0 (x : Word) : Word := x.rotateRight 7 ^^^ x.rotateRight 18 ^^^ (x >>> 3)

/-- `σ₁`. -/
def smallSigma1 (x : Word) : Word := x.rotateRight 17 ^^^ x.rotateRight 19 ^^^ (x >>> 10)

/-- The round constants. -/
def roundConstants : List Word :=
  [0x428a2f98, 0x71374491, 0xb5c0fbcf, 0xe9b5dba5, 0x3956c25b, 0x59f111f1, 0x923f82a4,
   0xab1c5ed5, 0xd807aa98, 0x12835b01, 0x243185be, 0x550c7dc3, 0x72be5d74, 0x80deb1fe,
   0x9bdc06a7, 0xc19bf174, 0xe49b69c1, 0xefbe4786, 0x0fc19dc6, 0x240ca1cc, 0x2de92c6f,
   0x4a7484aa, 0x5cb0a9dc, 0x76f988da, 0x983e5152, 0xa831c66d, 0xb00327c8, 0xbf597fc7,
   0xc6e00bf3, 0xd5a79147, 0x06ca6351, 0x14292967, 0x27b70a85, 0x2e1b2138, 0x4d2c6dfc,
   0x53380d13, 0x650a7354, 0x766a0abb, 0x81c2c92e, 0x92722c85, 0xa2bfe8a1, 0xa81a664b,
   0xc24b8b70, 0xc76c51a3, 0xd192e819, 0xd6990624, 0xf40e3585, 0x106aa070, 0x19a4c116,
   0x1e376c08, 0x2748774c, 0x34b0bcb5, 0x391c0cb3, 0x4ed8aa4a, 0x5b9cca4f, 0x682e6ff3,
   0x748f82ee, 0x78a5636f, 0x84c87814, 0x8cc70208, 0x90befffa, 0xa4506ceb, 0xbef9a3f7,
   0xc67178f2]

/-- The eight working words. -/
structure State where
  a : Word
  b : Word
  c : Word
  d : Word
  e : Word
  f : Word
  g : Word
  h : Word

/-- The initial hash value. -/
def State.init : State :=
  ⟨0x6a09e667, 0xbb67ae85, 0x3c6ef372, 0xa54ff53a, 0x510e527f, 0x9b05688c, 0x1f83d9ab,
    0x5be0cd19⟩

/-- Wordwise addition. -/
def State.add (s t : State) : State :=
  ⟨s.a + t.a, s.b + t.b, s.c + t.c, s.d + t.d, s.e + t.e, s.f + t.f, s.g + t.g, s.h + t.h⟩

/-- One round, with its constant `k` and its scheduled word `w`. -/
def round (s : State) (k w : Word) : State :=
  let t₁ := s.h + bigSigma1 s.e + ch s.e s.f s.g + k + w
  let t₂ := bigSigma0 s.a + maj s.a s.b s.c
  ⟨t₁ + t₂, s.a, s.b, s.c, s.d + t₁, s.e, s.f, s.g⟩

/-- The next word of the schedule from the last sixteen, oldest first. -/
def nextWord (window : List Word) : Word :=
  smallSigma1 (window.getD 14 0) + window.getD 9 0 + smallSigma0 (window.getD 1 0) +
    window.getD 0 0

/-- The rounds of the remaining constants; `window` holds the next sixteen scheduled words. -/
def rounds : List Word → List Word → State → State
  | [], _, s => s
  | k :: ks, window, s =>
    rounds ks (window.drop 1 ++ [nextWord window]) (round s k (window.getD 0 0))

/-- Absorb one block of sixteen words. -/
def compress (s : State) (block : List Word) : State := s.add (rounds roundConstants block s)

/-- Absorb the first `n` blocks. -/
def absorb : ℕ → List Word → State → State
  | 0, _, s => s
  | n + 1, words, s => absorb n (words.drop 16) (compress s (words.take 16))

/-! ### Bytes, words, digits -/

/-- Big-endian words of a byte string whose length is a multiple of four. -/
def toWords : List UInt8 → List Word
  | b₀ :: b₁ :: b₂ :: b₃ :: rest =>
    BitVec.ofNat 32 (b₀.toNat * 2 ^ 24 + b₁.toNat * 2 ^ 16 + b₂.toNat * 2 ^ 8 + b₃.toNat) ::
      toWords rest
  | _ => []

/-- Pad with a one bit, zeros, and the length in bits as eight bytes. -/
def pad (data : List UInt8) : List UInt8 :=
  data ++ 0x80 :: (List.replicate ((119 - data.length % 64) % 64) 0 ++
    (List.range 8).map fun i => UInt8.ofNat (8 * data.length / 256 ^ (7 - i)))

/-- The eight hexadecimal digits of a word. -/
def hexWord (w : Word) : List Char :=
  (List.range 8).map fun i => Nat.digitChar (w.toNat / 16 ^ (7 - i) % 16)

/-- `sha256(data).hexdigest()`. -/
@[irreducible] def hexdigest (data : ByteArray) : String :=
  let words := toWords (pad data.data.toList)
  let s := absorb (words.length / 16) words .init
  String.ofList ([s.a, s.b, s.c, s.d, s.e, s.f, s.g, s.h].flatMap hexWord)

/-- The hexadecimal digits of the hash of a list of bytes. -/
def digits (data : List UInt8) : List Char :=
  let words := toWords (pad data)
  let s := absorb (words.length / 16) words .init
  [s.a, s.b, s.c, s.d, s.e, s.f, s.g, s.h].flatMap hexWord

theorem hexdigest_eq (data : ByteArray) :
    hexdigest data = String.ofList (digits data.data.toList) := by
  rw [hexdigest]
  rfl

example : hexdigest "abc".toByteArray =
    "ba7816bf8f01cfea414140de5dae2223b00361a396177a9cb410ff61f20015ad" := by decide +kernel

end Sha256

end Lib
