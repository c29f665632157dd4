import BlockSpec.Digest.Basic

/-! # SHA-256

The message is padded to whole blocks of sixty-four bytes: a one bit, zeros, and the length in bits
as eight bytes. Each block is stretched to a schedule of sixty-four words and mixed into the eight
words of state, one round for each word of the schedule. -/

namespace BlockSpec

namespace Sha256

/-- The eight words of state. -/
abbrev State := Vector UInt32 8

/-- The round constants. -/
def constants : List UInt32 :=
  [
    0x428a2f98, 0x71374491, 0xb5c0fbcf, 0xe9b5dba5, 0x3956c25b, 0x59f111f1, 0x923f82a4, 0xab1c5ed5,
    0xd807aa98, 0x12835b01, 0x243185be, 0x550c7dc3, 0x72be5d74, 0x80deb1fe, 0x9bdc06a7, 0xc19bf174,
    0xe49b69c1, 0xefbe4786, 0x0fc19dc6, 0x240ca1cc, 0x2de92c6f, 0x4a7484aa, 0x5cb0a9dc, 0x76f988da,
    0x983e5152, 0xa831c66d, 0xb00327c8, 0xbf597fc7, 0xc6e00bf3, 0xd5a79147, 0x06ca6351, 0x14292967,
    0x27b70a85, 0x2e1b2138, 0x4d2c6dfc, 0x53380d13, 0x650a7354, 0x766a0abb, 0x81c2c92e, 0x92722c85,
    0xa2bfe8a1, 0xa81a664b, 0xc24b8b70, 0xc76c51a3, 0xd192e819, 0xd6990624, 0xf40e3585, 0x106aa070,
    0x19a4c116, 0x1e376c08, 0x2748774c, 0x34b0bcb5, 0x391c0cb3, 0x4ed8aa4a, 0x5b9cca4f, 0x682e6ff3,
    0x748f82ee, 0x78a5636f, 0x84c87814, 0x8cc70208, 0x90befffa, 0xa4506ceb, 0xbef9a3f7, 0xc67178f2
  ]

/-- The state before the first block. -/
def initial : State :=
  #v[
    0x6a09e667, 0xbb67ae85, 0x3c6ef372, 0xa54ff53a,
    0x510e527f, 0x9b05688c, 0x1f83d9ab, 0x5be0cd19
  ]

/-- Rotation to the right. -/
def rotate (x k : UInt32) : UInt32 := x >>> k ||| x <<< (32 - k)

/-- The bytes of a number that fit into a width, the most significant first. -/
def bigEndian (width n : Nat) : List UInt8 :=
  (List.range width).map fun i => (n >>> (8 * (width - 1 - i))).toUInt8

/-- The message in whole blocks. -/
def pad (message : List UInt8) : List UInt8 :=
  message ++ 0x80 :: List.replicate ((119 - message.length % 64) % 64) 0 ++
    bigEndian 8 (8 * message.length)

/-- A list cut into parts of a given size; the last one may be shorter. -/
def chunks {α : Type} (size : Nat) : List α → List (List α)
  | [] => []
  | a :: rest => (a :: rest.take (size - 1)) :: chunks size (rest.drop (size - 1))
termination_by list => list.length
decreasing_by
  simp only [List.length_drop, List.length_cons]
  omega

/-- Four bytes as a word, the most significant first. -/
def word (bytes : List UInt8) : UInt32 := bytes.foldl (fun acc b => acc <<< 8 ||| b.toUInt32) 0

/-- The sixty-four words of a block. -/
def schedule (block : List UInt8) : Array UInt32 :=
  (List.range 48).foldl (fun w i =>
      let a := w.getD (i + 1) 0
      let b := w.getD (i + 14) 0
      let s0 := rotate a 7 ^^^ rotate a 18 ^^^ a >>> 3
      let s1 := rotate b 17 ^^^ rotate b 19 ^^^ b >>> 10
      w.push (w.getD i 0 + s0 + w.getD (i + 9) 0 + s1))
    ((chunks 4 block).map word).toArray

/-- One round with the sum of a round constant and a word of the schedule. -/
def round (s : State) (kw : UInt32) : State :=
  let e := s[4]
  let a := s[0]
  let s1 := rotate e 6 ^^^ rotate e 11 ^^^ rotate e 25
  let choice := (e &&& s[5]) ^^^ (~~~e &&& s[6])
  let t1 := s[7] + s1 + choice + kw
  let s0 := rotate a 2 ^^^ rotate a 13 ^^^ rotate a 22
  let majority := (a &&& s[1]) ^^^ (a &&& s[2]) ^^^ (s[1] &&& s[2])
  #v[t1 + s0 + majority, a, s[1], s[2], s[3] + t1, e, s[5], s[6]]

/-- Mixes one block into the state. -/
def absorb (s : State) (block : List UInt8) : State :=
  let rounds := List.zipWith (· + ·) constants (schedule block).toList
  Vector.zipWith (· + ·) s (rounds.foldl round s)

/-- The bytes of a state. -/
def State.bytes (s : State) : Digest :=
  Vector.ofFn fun i => (s[i.val / 4] >>> (24 - 8 * (i.val % 4)).toUInt32).toUInt8

end Sha256

/-- The SHA-256 digest of a message. -/
def sha256 (message : List UInt8) : Digest :=
  ((Sha256.chunks 64 (Sha256.pad message)).foldl Sha256.absorb Sha256.initial).bytes

end BlockSpec
