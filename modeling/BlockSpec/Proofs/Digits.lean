import BlockSpec.Digest.Basic
import Mathlib.Algebra.Group.Nat.Defs
import Mathlib.Data.List.Basic
import Mathlib.Data.List.Flatten

/-! # Digits

Numbers can be read back from their decimal digits, and digests from their hexadecimal ones: every
byte takes two digits, so the digits of a digest fall apart in one way only. What follows the last
separator of a list is determined by the list, as long as it holds no separator itself, and so is
what stands in front of the first one. -/

namespace BlockSpec

/-- A list is cut at its last separator in one way only. -/
theorem append_cons_inj_of_not_mem {α : Type} {sep : α} {a b d e : List α} (hd : sep ∉ d)
    (he : sep ∉ e) (h : a ++ sep :: d = b ++ sep :: e) : a = b ∧ d = e := by
  rcases List.append_eq_append_iff.mp h with ⟨m, rfl, hm⟩ | ⟨m, rfl, hm⟩
  · cases m with
    | nil => simpa using hm
    | cons x m =>
      obtain ⟨rfl, rfl⟩ := List.cons.inj hm
      exact absurd (List.mem_append_right m List.mem_cons_self) hd
  · cases m with
    | nil => simpa [eq_comm] using hm
    | cons x m =>
      obtain ⟨rfl, rfl⟩ := List.cons.inj hm
      exact absurd (List.mem_append_right m List.mem_cons_self) he

/-- And at its first one. -/
theorem append_cons_inj_of_not_mem_front {α : Type} {sep : α} {a b d e : List α} (ha : sep ∉ a)
    (hb : sep ∉ b) (h : a ++ sep :: d = b ++ sep :: e) : a = b ∧ d = e := by
  have hback : d.reverse ++ sep :: a.reverse = e.reverse ++ sep :: b.reverse := by
    simpa using congrArg List.reverse h
  have hsplit := append_cons_inj_of_not_mem (by simpa using ha) (by simpa using hb) hback
  simpa [and_comm] using hsplit

theorem Text.ofNat_injective : Function.Injective Text.ofNat := by
  intro m n h
  have hread := congrArg (fun digits => Nat.ofDigitChars 10 digits 0) h
  simpa [Text.ofNat] using hread

theorem length_hexPadded {width n : Nat} (hpos : 0 < width) (h : n < 16 ^ width) :
    (hexPadded width n).length = width := by
  have hle : (Nat.toDigits 16 n).length ≤ width :=
    (Nat.length_toDigits_le_iff (by decide) hpos).mpr h
  rw [hexPadded, List.length_append, List.length_replicate]
  omega

/-- Hexadecimal digits as a number. -/
def readHex (digits : Text) : Nat :=
  digits.foldl
    (fun n c => 16 * n + (if c ≤ '9' then c.toNat - '0'.toNat else c.toNat - 'W'.toNat)) 0

theorem readHex_concat (digits : Text) {d : Nat} (hd : d < 16) :
    readHex (digits ++ [d.digitChar]) = 16 * readHex digits + d := by
  have hdigit : ∀ d < 16, (if d.digitChar ≤ '9' then d.digitChar.toNat - '0'.toNat
      else d.digitChar.toNat - 'W'.toNat) = d := by decide
  rw [readHex, List.foldl_append, List.foldl_cons, List.foldl_nil, hdigit d hd]
  rfl

theorem readHex_toDigits (n : Nat) : readHex (Nat.toDigits 16 n) = n := by
  induction n using Nat.strongRecOn with
  | _ n ih =>
    rcases Nat.lt_or_ge n 16 with hlt | hge
    · rw [Nat.toDigits_of_lt_base hlt, ← List.nil_append [n.digitChar], readHex_concat [] hlt]
      exact Nat.zero_add n
    · rw [Nat.toDigits_of_base_le (by decide) hge, readHex_concat _ (Nat.mod_lt n (by decide)),
        ih (n / 16) (by omega)]
      omega

/-- Leading zeros do not matter, so a number can be read back at any width. -/
theorem readHex_hexPadded (width n : Nat) : readHex (hexPadded width n) = n := by
  have hzeros : ∀ (k : Nat) (digits : Text),
      readHex (List.replicate k '0' ++ digits) = readHex digits := by
    intro k digits
    induction k with
    | zero => rfl
    | succ k ih => exact ih
  rw [hexPadded, hzeros, readHex_toDigits]

theorem mem_of_mem_toDigits {n : Nat} {c : Char} (hc : c ∈ Nat.toDigits 16 n) :
    c ∈ "0123456789abcdef".toList := by
  have hdigit : ∀ d < 16, d.digitChar ∈ "0123456789abcdef".toList := by decide
  induction n using Nat.strongRecOn generalizing c with
  | _ n ih =>
    rcases Nat.lt_or_ge n 16 with hlt | hge
    · rw [Nat.toDigits_of_lt_base hlt, List.mem_singleton] at hc
      exact hc ▸ hdigit n hlt
    · rw [Nat.toDigits_of_base_le (by decide) hge, List.mem_append, List.mem_singleton] at hc
      rcases hc with hc | rfl
      · exact ih (n / 16) (by omega) hc
      · exact hdigit _ (Nat.mod_lt n (by decide))

theorem mem_of_mem_hexPadded {width n : Nat} {c : Char} (hc : c ∈ hexPadded width n) :
    c ∈ "0123456789abcdef".toList := by
  rcases List.mem_append.mp hc with hc | hc
  · rw [List.eq_of_mem_replicate hc]; decide
  · exact mem_of_mem_toDigits hc

namespace Digest

theorem length_hexByte (b : UInt8) : (hexPadded 2 b.toNat).length = 2 :=
  length_hexPadded (by decide) b.toNat_lt

theorem hex_injective : Function.Injective hex := by
  suffices hbytes : ∀ ds es : List UInt8,
      ds.flatMap (fun b => hexPadded 2 b.toNat) = es.flatMap (fun b => hexPadded 2 b.toNat) →
        ds = es by
    intro d e h
    exact Vector.toList_inj.mp (hbytes _ _ h)
  intro ds
  induction ds with
  | nil =>
    intro es h
    cases es with
    | nil => rfl
    | cons e es =>
      have hlen := congrArg List.length h
      simp only [List.flatMap_cons, List.length_append, length_hexByte, List.flatMap_nil,
        List.length_nil] at hlen
      omega
  | cons d ds ih =>
    intro es h
    cases es with
    | nil =>
      have hlen := congrArg List.length h
      simp only [List.flatMap_cons, List.length_append, length_hexByte, List.flatMap_nil,
        List.length_nil] at hlen
      omega
    | cons e es =>
      rw [List.flatMap_cons, List.flatMap_cons] at h
      obtain ⟨hfirst, hrest⟩ := List.append_inj h ((length_hexByte d).trans (length_hexByte e).symm)
      have hbyte : d.toNat = e.toNat := by
        rw [← readHex_hexPadded 2 d.toNat, hfirst, readHex_hexPadded]
      rw [UInt8.toNat_inj.mp hbyte, ih es hrest]

/-- Digits of a digest are no blanks. -/
theorem isBlank_of_mem_hex {d : Digest} {c : Char} (hc : c ∈ d.hex) : isBlank c = false := by
  have hall : ∀ n < 256, (hexPadded 2 n).any isBlank = false := by decide +kernel
  obtain ⟨b, -, hc⟩ := List.mem_flatMap.mp hc
  have hbyte := List.any_eq_false.mp (hall b.toNat b.toNat_lt) c hc
  exact Bool.eq_false_iff.mpr hbyte

theorem hex_ne_nil (d : Digest) : d.hex ≠ [] := by
  intro h
  have hlen := congrArg List.length h
  simp [hex, length_hexByte, List.length_flatMap] at hlen

end Digest

end BlockSpec
