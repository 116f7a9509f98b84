import Proofmark.Evm.Bytes

/-!
# Keccak-256

The EVM's hash, executable. A state is the flat list of 25 lanes in the order `x + 5 * y`, a lane
a natural number below `2 ^ 64`; each step mapping of the permutation is a list operation, so that
a digest of a short text can be checked by kernel evaluation.

Nothing here is proved about the function. It is defined so that event topics are the topics of
their signatures and not free symbols, and so that an assumption of collision freedom is an
assumption about this function on a finite set. After its last example it is irreducible: a proof
treats a digest as an opaque word.
-/

namespace Evm.Keccak

/-- Rotation of a 64-bit lane towards the high bits. -/
def rotateLeft (n lane : ℕ) : ℕ :=
  (lane <<< n ||| lane >>> (64 - n)) % 2 ^ 64

/-- The round constants of the 24 rounds. -/
def roundConstants : List ℕ :=
  [0x0000000000000001, 0x0000000000008082, 0x800000000000808A, 0x8000000080008000,
   0x000000000000808B, 0x0000000080000001, 0x8000000080008081, 0x8000000000008009,
   0x000000000000008A, 0x0000000000000088, 0x0000000080008009, 0x000000008000000A,
   0x000000008000808B, 0x800000000000008B, 0x8000000000008089, 0x8000000000008003,
   0x8000000000008002, 0x8000000000000080, 0x000000000000800A, 0x800000008000000A,
   0x8000000080008081, 0x8000000000008080, 0x0000000080000001, 0x8000000080008008]

/-- The rotation offset of each lane. -/
def rotationOffsets : List ℕ :=
  [0, 1, 62, 28, 27, 36, 44, 6, 55, 20, 3, 10, 43, 25, 39, 41, 45, 15, 21, 8, 18, 2, 61, 56, 14]

def xorLanes (a b : List ℕ) : List ℕ :=
  List.zipWith (fun x y ↦ x ^^^ y) a b

/-- Add to every lane the parities of the two neighbouring columns. -/
def theta (a : List ℕ) : List ℕ :=
  let c := xorLanes (a.take 5) (xorLanes ((a.drop 5).take 5) (xorLanes ((a.drop 10).take 5)
    (xorLanes ((a.drop 15).take 5) (a.drop 20))))
  let d := xorLanes (c.drop 4 ++ c.take 4) ((c.drop 1 ++ c.take 1).map (rotateLeft 1))
  xorLanes a (d ++ d ++ d ++ d ++ d)

/-- Rotate every lane, then move lane `(x + 3y, x)` to `(x, y)`. -/
def rhoPi (a : List ℕ) : List ℕ :=
  let b := List.zipWith rotateLeft rotationOffsets a
  (List.range 25).map fun i ↦ b.getD ((i % 5 + 3 * (i / 5)) % 5 + 5 * (i % 5)) 0

/-- The nonlinear step on one lane and its two right neighbours. -/
def chiLane (a b c : ℕ) : ℕ :=
  a ^^^ ((0xffffffffffffffff ^^^ b) &&& c)

def chiPlane (p : List ℕ) : List ℕ :=
  List.zipWith (fun f c ↦ f c) (List.zipWith chiLane p (p.drop 1 ++ p.take 1))
    (p.drop 2 ++ p.take 2)

def chi (a : List ℕ) : List ℕ :=
  chiPlane (a.take 5) ++ chiPlane ((a.drop 5).take 5) ++ chiPlane ((a.drop 10).take 5) ++
    chiPlane ((a.drop 15).take 5) ++ chiPlane (a.drop 20)

def iota (constant : ℕ) : List ℕ → List ℕ
  | [] => []
  | lane :: lanes => (lane ^^^ constant) :: lanes

/-- The permutation Keccak-f[1600]. -/
def permute (a : List ℕ) : List ℕ :=
  roundConstants.foldl (fun a constant ↦ iota constant (chi (rhoPi (theta a)))) a

/-- The rate of the sponge, in bytes. -/
def rate : ℕ := 136

/-- The padding of the original submission: `0x01`, zeros, and the top bit of the last byte. -/
def pad (message : Bytes) : Bytes :=
  let q := rate - message.length % rate
  if q = 1 then message ++ [0x81] else message ++ [0x01] ++ List.replicate (q - 2) 0 ++ [0x80]

/-- The first `n` little-endian lanes of a block. -/
def lanes : ℕ → Bytes → List ℕ
  | 0, _ => []
  | n + 1, bs => ofBytes (bs.take 8).reverse :: lanes n (bs.drop 8)

/-- Absorb `n` blocks. -/
def absorb : ℕ → List ℕ → Bytes → List ℕ
  | 0, state, _ => state
  | n + 1, state, message =>
    absorb n (permute (xorLanes state (lanes 17 (message.take rate) ++ List.replicate 8 0)))
      (message.drop rate)

end Evm.Keccak

namespace Evm

open Keccak in
/-- `keccak256(bytes)`: absorb the padded message, then read the first 32 bytes of the state. -/
def keccak256 (message : Bytes) : Bytes32 :=
  let padded := pad message
  let state := absorb (padded.length / rate) (List.replicate 25 0) padded
  BitVec.ofNat 256 (ofBytes ((state.take 4).flatMap fun lane ↦ (toBytes 8 lane).reverse))

example : keccak256 (ascii "") =
    0xc5d2460186f7233c927e7db2dcc703c0e500b653ca82273b7bfad8045d85a470 := by
  decide +kernel

attribute [irreducible] keccak256

end Evm
