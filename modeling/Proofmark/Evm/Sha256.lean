import Proofmark.Evm.Bytes

/-!
# SHA-256

The hash of files and manifests, executable. A word is a natural number below `2 ^ 32`. Nothing is
proved about the function here; a development takes a hash as a parameter and evaluates this one
where a concrete digest is wanted. After its examples it is irreducible.
-/

namespace Evm.Sha256

/-- Rotation of a word towards the low bits. -/
def rotateRight (n word : ℕ) : ℕ :=
  (word >>> n ||| word <<< (32 - n)) % 2 ^ 32

/-- The constants of the 64 rounds. -/
def roundConstants : List ℕ :=
  [0x428a2f98, 0x71374491, 0xb5c0fbcf, 0xe9b5dba5, 0x3956c25b, 0x59f111f1, 0x923f82a4, 0xab1c5ed5,
   0xd807aa98, 0x12835b01, 0x243185be, 0x550c7dc3, 0x72be5d74, 0x80deb1fe, 0x9bdc06a7, 0xc19bf174,
   0xe49b69c1, 0xefbe4786, 0x0fc19dc6, 0x240ca1cc, 0x2de92c6f, 0x4a7484aa, 0x5cb0a9dc, 0x76f988da,
   0x983e5152, 0xa831c66d, 0xb00327c8, 0xbf597fc7, 0xc6e00bf3, 0xd5a79147, 0x06ca6351, 0x14292967,
   0x27b70a85, 0x2e1b2138, 0x4d2c6dfc, 0x53380d13, 0x650a7354, 0x766a0abb, 0x81c2c92e, 0x92722c85,
   0xa2bfe8a1, 0xa81a664b, 0xc24b8b70, 0xc76c51a3, 0xd192e819, 0xd6990624, 0xf40e3585, 0x106aa070,
   0x19a4c116, 0x1e376c08, 0x2748774c, 0x34b0bcb5, 0x391c0cb3, 0x4ed8aa4a, 0x5b9cca4f, 0x682e6ff3,
   0x748f82ee, 0x78a5636f, 0x84c87814, 0x8cc70208, 0x90befffa, 0xa4506ceb, 0xbef9a3f7, 0xc67178f2]

/-- The state before the first block. -/
def initial : List ℕ :=
  [0x6a09e667, 0xbb67ae85, 0x3c6ef372, 0xa54ff53a, 0x510e527f, 0x9b05688c, 0x1f83d9ab, 0x5be0cd19]

/-- The next word of the schedule, from four of the last sixteen. -/
def nextWord (w₀ w₁ w₉ w₁₄ : ℕ) : ℕ :=
  ((rotateRight 7 w₁ ^^^ rotateRight 18 w₁ ^^^ w₁ >>> 3) + w₉ +
    (rotateRight 17 w₁₄ ^^^ rotateRight 19 w₁₄ ^^^ w₁₄ >>> 10) + w₀) % 2 ^ 32

/-- One round, with the word and the constant of the round. -/
def round (state : List ℕ) (word constant : ℕ) : List ℕ :=
  match state with
  | [a, b, c, d, e, f, g, h] =>
    let t₁ := h + (rotateRight 6 e ^^^ rotateRight 11 e ^^^ rotateRight 25 e) +
      ((e &&& f) ^^^ ((0xffffffff ^^^ e) &&& g)) + constant + word
    let t₂ := (rotateRight 2 a ^^^ rotateRight 13 a ^^^ rotateRight 22 a) +
      ((a &&& b) ^^^ (a &&& c) ^^^ (b &&& c))
    [(t₁ + t₂) % 2 ^ 32, a, b, c, (d + t₁) % 2 ^ 32, e, f, g]
  | state => state

/-- The rounds of a block, each on the oldest of the last sixteen words. -/
def rounds (constants w state : List ℕ) : List ℕ :=
  match constants, w with
  | constant :: constants, [w₀, w₁, w₂, w₃, w₄, w₅, w₆, w₇, w₈, w₉, w₁₀, w₁₁, w₁₂, w₁₃, w₁₄, w₁₅] =>
    rounds constants
      [w₁, w₂, w₃, w₄, w₅, w₆, w₇, w₈, w₉, w₁₀, w₁₁, w₁₂, w₁₃, w₁₄, w₁₅, nextWord w₀ w₁ w₉ w₁₄]
      (round state w₀ constant)
  | _, _ => state

/-- The words of a block. -/
def words : ℕ → Bytes → List ℕ
  | 0, _ => []
  | n + 1, bs => ofBytes (bs.take 4) :: words n (bs.drop 4)

/-- The state after `n` blocks. -/
def blocks : ℕ → List ℕ → Bytes → List ℕ
  | 0, state, _ => state
  | n + 1, state, bs =>
    blocks n (List.zipWith (fun x y ↦ (x + y) % 2 ^ 32) state
      (rounds roundConstants (words 16 (bs.take 64)) state)) (bs.drop 64)

/-- A one bit, zeros, and the length in bits. -/
def pad (message : Bytes) : Bytes :=
  message ++ 0x80 :: List.replicate ((119 - message.length % 64) % 64) 0 ++
    toBytes 8 (8 * message.length)

/-- `sha256(message)` -/
def digest (message : Bytes) : Bytes32 :=
  let padded := pad message
  BitVec.ofNat 256 (ofBytes ((blocks (padded.length / 64) initial padded).flatMap (toBytes 4)))

example : digest (ascii "abc") =
    0xba7816bf8f01cfea414140de5dae2223b00361a396177a9cb410ff61f20015ad := by
  decide +kernel

example : digest (List.replicate 56 0x61) =
    0xb35439a4ac6f0948b6d6f9e3c6af0f5f590ce20f1bde7090ef7970686ec6738a := by
  decide +kernel

attribute [irreducible] digest

end Evm.Sha256
