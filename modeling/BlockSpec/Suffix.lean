import BlockSpec.Digest.Basic

/-! # Suffixes

Blocks that may be repeated under one label get a suffix that tells them apart: `_x` and six
hexadecimal digits. The digits are drawn from the generator xoshiro256**, whose 256 bits of state
are the seed read as four little-endian words. All zeros is the one state the generator cannot
leave, and is replaced by the first four outputs of SplitMix64 started at zero. -/

namespace BlockSpec

/-- The state of the generator. -/
structure SuffixStream where
  s0 : UInt64
  s1 : UInt64
  s2 : UInt64
  s3 : UInt64
  deriving DecidableEq, Repr

namespace SuffixStream

/-- Eight bytes as a little-endian word. -/
def word (bytes : List UInt8) : UInt64 :=
  bytes.foldr (fun b acc => acc <<< 8 ||| b.toUInt64) 0

/-- Rotation to the left. -/
def rotate (x k : UInt64) : UInt64 := x <<< k ||| x >>> (64 - k)

/-- The output of SplitMix64 whose counter stands at `x`. -/
def mix (x : UInt64) : UInt64 :=
  let z := (x ^^^ x >>> 30) * 0xbf58476d1ce4e5b9
  let z := (z ^^^ z >>> 27) * 0x94d049bb133111eb
  z ^^^ z >>> 31

/-- The increment of SplitMix64. -/
def golden : UInt64 := 0x9e3779b97f4a7c15

/-- The state that takes the place of the all-zero one. -/
def nonzero : SuffixStream :=
  ⟨mix golden, mix (2 * golden), mix (3 * golden), mix (4 * golden)⟩

/-- The stream of a seed. -/
def ofSeed (seed : Digest) : SuffixStream :=
  let bytes := seed.toList
  let s : SuffixStream :=
    ⟨word (bytes.take 8), word ((bytes.drop 8).take 8), word ((bytes.drop 16).take 8),
      word ((bytes.drop 24).take 8)⟩
  if s = ⟨0, 0, 0, 0⟩ then nonzero else s

/-- The next sixty-four bits. -/
def output (s : SuffixStream) : UInt64 := rotate (s.s1 * 5) 7 * 9

/-- The state after one output. -/
def advance (s : SuffixStream) : SuffixStream :=
  let t := s.s1 <<< 17
  let s2 := s.s2 ^^^ s.s0
  let s3 := s.s3 ^^^ s.s1
  ⟨s.s0 ^^^ s3, s.s1 ^^^ s2, s2 ^^^ t, rotate s3 45⟩

/-- The upper half of the next output. -/
def draw (s : SuffixStream) : UInt32 := (s.output >>> 32).toUInt32

/-- The next suffix: `_x` and the low twenty-four bits of the draw as six digits. -/
def suffix (s : SuffixStream) : Text :=
  "_x".toList ++ hexPadded 6 (s.draw &&& 0xffffff).toNat

end SuffixStream

end BlockSpec
