import Mathlib

/-! # SHA-256

The hash as its standard computes it, on lists of bytes: pad to blocks of 64 bytes,
extend each block to 64 words, and mix them into eight words of state.
-/

namespace Evald.Lib

/-- A word rotated right; words are numbers below `2 ^ 32`. -/
def rotateRight (x n : Nat) : Nat := (x >>> n ||| x <<< (32 - n)) % 2 ^ 32

def addWords (xs : List Nat) : Nat := xs.foldl (· + ·) 0 % 2 ^ 32

def wordOfBytes (bytes : List UInt8) : Nat := bytes.foldl (fun n b => n * 256 + b.toNat) 0

def bytesOfWord (w : Nat) : List UInt8 :=
  [UInt8.ofNat (w >>> 24), UInt8.ofNat (w >>> 16), UInt8.ofNat (w >>> 8), UInt8.ofNat w]

/-- The message, a one bit, zeros up to eight bytes before a block's end, its length in
bits. -/
def padMessage (message : List UInt8) : List UInt8 :=
  let zeros := (119 - message.length % 64) % 64
  message ++ 0x80 :: List.replicate zeros 0 ++
    bytesOfWord (message.length * 8 / 2 ^ 32) ++ bytesOfWord (message.length * 8 % 2 ^ 32)

def sha256Constants : List Nat :=
  [0x428a2f98, 0x71374491, 0xb5c0fbcf, 0xe9b5dba5, 0x3956c25b, 0x59f111f1, 0x923f82a4, 0xab1c5ed5,
    0xd807aa98, 0x12835b01, 0x243185be, 0x550c7dc3, 0x72be5d74, 0x80deb1fe, 0x9bdc06a7, 0xc19bf174,
    0xe49b69c1, 0xefbe4786, 0x0fc19dc6, 0x240ca1cc, 0x2de92c6f, 0x4a7484aa, 0x5cb0a9dc, 0x76f988da,
    0x983e5152, 0xa831c66d, 0xb00327c8, 0xbf597fc7, 0xc6e00bf3, 0xd5a79147, 0x06ca6351, 0x14292967,
    0x27b70a85, 0x2e1b2138, 0x4d2c6dfc, 0x53380d13, 0x650a7354, 0x766a0abb, 0x81c2c92e, 0x92722c85,
    0xa2bfe8a1, 0xa81a664b, 0xc24b8b70, 0xc76c51a3, 0xd192e819, 0xd6990624, 0xf40e3585, 0x106aa070,
    0x19a4c116, 0x1e376c08, 0x2748774c, 0x34b0bcb5, 0x391c0cb3, 0x4ed8aa4a, 0x5b9cca4f, 0x682e6ff3,
    0x748f82ee, 0x78a5636f, 0x84c87814, 0x8cc70208, 0x90befffa, 0xa4506ceb, 0xbef9a3f7, 0xc67178f2]

def sha256Start : List Nat :=
  [0x6a09e667, 0xbb67ae85, 0x3c6ef372, 0xa54ff53a, 0x510e527f, 0x9b05688c, 0x1f83d9ab, 0x5be0cd19]

/-- The next word of the schedule, from the last sixteen, the newest first. -/
def nextWord (schedule : List Nat) : Nat :=
  let w15 := schedule.getD 14 0
  let w2 := schedule.getD 1 0
  let s0 := rotateRight w15 7 ^^^ rotateRight w15 18 ^^^ (w15 >>> 3)
  let s1 := rotateRight w2 17 ^^^ rotateRight w2 19 ^^^ (w2 >>> 10)
  addWords [schedule.getD 15 0, s0, schedule.getD 6 0, s1]

/-- The schedule with `n` more words, the newest first. -/
def extendSchedule : Nat → List Nat → List Nat
  | 0, schedule => schedule
  | n + 1, schedule => extendSchedule n (nextWord schedule :: schedule)

def mixWord (state : List Nat) (round : Nat × Nat) : List Nat :=
  match state with
  | [a, b, c, d, e, f, g, h] =>
    let s1 := rotateRight e 6 ^^^ rotateRight e 11 ^^^ rotateRight e 25
    let choice := (e &&& f) ^^^ ((2 ^ 32 - 1 - e) &&& g)
    let t1 := addWords [h, s1, choice, round.1, round.2]
    let s0 := rotateRight a 2 ^^^ rotateRight a 13 ^^^ rotateRight a 22
    let majority := (a &&& b) ^^^ (a &&& c) ^^^ (b &&& c)
    [addWords [t1, s0, majority], a, b, c, addWords [d, t1], e, f, g]
  | other => other

def mixBlock (state : List Nat) (block : List UInt8) : List Nat :=
  let words := (List.range 16).map (fun i => wordOfBytes ((block.drop (4 * i)).take 4))
  let schedule := (extendSchedule 48 words.reverse).reverse
  let mixed := (sha256Constants.zip schedule).foldl mixWord state
  List.zipWith (fun x y => addWords [x, y]) state mixed

def mixBlocks : Nat → List Nat → List UInt8 → List Nat
  | 0, state, _ => state
  | n + 1, state, bytes => mixBlocks n (mixBlock state (bytes.take 64)) (bytes.drop 64)

def sha256 (message : List UInt8) : List UInt8 :=
  let padded := padMessage message
  (mixBlocks (padded.length / 64) sha256Start padded).flatMap bytesOfWord

example : (sha256 [97, 98, 99]).take 8 = [0xba, 0x78, 0x16, 0xbf, 0x8f, 0x01, 0xcf, 0xea] := by
  decide +kernel

end Evald.Lib
