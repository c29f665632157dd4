import BlockSpec.Text.Basic

/-! # Digests

A digest is thirty-two bytes. It is written as sixty-four lower case hexadecimal digits. -/

namespace BlockSpec

/-- Thirty-two bytes. -/
abbrev Digest := Vector UInt8 32

/-- The hexadecimal digits of a number, led by zeros up to a width. -/
def hexPadded (width n : Nat) : Text :=
  let digits := Nat.toDigits 16 n
  List.replicate (width - digits.length) '0' ++ digits

/-- Two hexadecimal digits for every byte. -/
def Digest.hex (d : Digest) : Text := d.toList.flatMap fun b => hexPadded 2 b.toNat

end BlockSpec
