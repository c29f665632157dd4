/-! # Blank characters

A character is *blank* when Unicode gives it the property White_Space. There are twenty-five of
them; the separators U+001C to U+001F and the zero width space are not among them. Every rule of
this library that speaks of blanks (trimming, blank lines, words, indentation) means this class. -/

namespace BlockSpec

/-- Unicode White_Space. -/
def isBlank (c : Char) : Bool :=
  let n := c.toNat
  (9 ≤ n && n ≤ 13) || n == 0x20 || n == 0x85 || n == 0xA0 || n == 0x1680 ||
    (0x2000 ≤ n && n ≤ 0x200A) || n == 0x2028 || n == 0x2029 || n == 0x202F || n == 0x205F ||
    n == 0x3000

end BlockSpec
