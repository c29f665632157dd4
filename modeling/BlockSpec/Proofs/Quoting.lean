import BlockSpec.Proofs.Digits
import BlockSpec.Text.Quoted

/-! # Quoted text

Whatever a text holds, it is quoted on one line and can be read back: the escape of a character says
where it ends, so escapes that follow each other fall apart in one way only, and none of them starts
with the quote that closes the text.

    a  "  \n  é  U+0301    ↦    "a \" \n é \u{301}"

Reading goes character by character: a backslash is followed by the letter of a short escape or by a
code point in braces, and everything else stands for itself. -/

namespace BlockSpec

namespace Text

/-- The first character of an escaped text and what follows it. A bare quote closes the text. -/
def unescape? : Text → Option (Char × Text)
  | '\\' :: '"' :: rest => some ('"', rest)
  | '\\' :: '\\' :: rest => some ('\\', rest)
  | '\\' :: 'n' :: rest => some ('\n', rest)
  | '\\' :: 'r' :: rest => some ('\r', rest)
  | '\\' :: 't' :: rest => some ('\t', rest)
  | '\\' :: '0' :: rest => some (Char.ofNat 0, rest)
  | '\\' :: 'u' :: '\x7b' :: rest =>
    some (Char.ofNat (readHex (rest.takeWhile (· != '\x7d'))), (rest.dropWhile (· != '\x7d')).tail)
  | '"' :: _ => none
  | c :: rest => some (c, rest)
  | [] => none

theorem unescape?_self {c : Char} (hslash : c ≠ '\\') (hquote : c ≠ '"') (rest : Text) :
    unescape? (c :: rest) = some (c, rest) := by
  unfold unescape?
  split <;> simp_all

/-- A character as its code point. -/
def codePoint (c : Char) : Text := ['\\', 'u', '\x7b'] ++ Nat.toDigits 16 c.toNat ++ ['\x7d']

/-- The forms of an escape: a backslash and a letter, a code point, or the character itself. -/
theorem escaped_cases (c : Char) :
    (∃ letter, escaped c = ['\\', letter] ∧ letter ≠ '\n' ∧
      ∀ rest, unescape? ('\\' :: letter :: rest) = some (c, rest)) ∨
    escaped c = codePoint c ∨
    escaped c = [c] ∧ c ≠ '\\' ∧ c ≠ '"' ∧ c ≠ '\n' := by
  by_cases hquote : c = '"'
  · subst hquote
    exact .inl ⟨'"', rfl, by decide, fun _ => rfl⟩
  by_cases hslash : c = '\\'
  · subst hslash
    exact .inl ⟨'\\', rfl, by decide, fun _ => rfl⟩
  by_cases hnewline : c = '\n'
  · subst hnewline
    exact .inl ⟨'n', rfl, by decide, fun _ => rfl⟩
  by_cases hreturn : c = '\r'
  · subst hreturn
    exact .inl ⟨'r', rfl, by decide, fun _ => rfl⟩
  by_cases htab : c = '\t'
  · subst htab
    exact .inl ⟨'t', rfl, by decide, fun _ => rfl⟩
  by_cases hzero : c.toNat = 0
  · obtain rfl : c = Char.ofNat 0 := Char.ext (UInt32.toNat_inj.mp hzero)
    exact .inl ⟨'0', rfl, by decide, fun _ => rfl⟩
  rw [escaped, if_neg hquote, if_neg hslash, if_neg hnewline, if_neg hreturn, if_neg htab,
    if_neg hzero]
  split
  · exact .inr (.inl rfl)
  · exact .inr (.inr ⟨rfl, hslash, hquote, hnewline⟩)

/-- A code point is read up to its closing brace. -/
theorem unescape?_codePoint (c : Char) (rest : Text) :
    unescape? (codePoint c ++ rest) = some (c, rest) := by
  have hdigits : ∀ d ∈ Nat.toDigits 16 c.toNat, (d != '\x7d') = true := by
    intro d hd
    have hall : "0123456789abcdef".toList.all (· != '\x7d') = true := by decide
    exact List.all_eq_true.mp hall d (mem_of_mem_toDigits hd)
  simp only [codePoint, List.append_assoc, List.cons_append, List.nil_append, unescape?]
  rw [List.takeWhile_append_of_pos hdigits, List.dropWhile_append_of_pos hdigits]
  simp [readHex_toDigits]

theorem newline_not_mem_codePoint (c : Char) : '\n' ∉ codePoint c := by
  intro hmem
  have hdigits : '\n' ∉ "0123456789abcdef".toList := by decide
  simp only [codePoint, List.mem_append] at hmem
  rcases hmem with (hlead | hdigit) | hend
  · exact absurd hlead (by decide)
  · exact hdigits (mem_of_mem_toDigits hdigit)
  · exact absurd hend (by decide)

/-- The escape of a character can be read back, whatever follows it. -/
theorem unescape?_escaped (c : Char) (rest : Text) :
    unescape? (escaped c ++ rest) = some (c, rest) := by
  rcases escaped_cases c with ⟨letter, hc, -, hread⟩ | hc | ⟨hc, hslash, hquote, -⟩
  · rw [hc]
    exact hread rest
  · rw [hc, unescape?_codePoint]
  · rw [hc]
    exact unescape?_self hslash hquote rest

/-- No escape holds a newline. -/
theorem newline_not_mem_escaped (c : Char) : '\n' ∉ escaped c := by
  rcases escaped_cases c with ⟨letter, hc, hletter, -⟩ | hc | ⟨hc, -, -, hnewline⟩
  · simp [hc, hletter.symm]
  · rw [hc]
    exact newline_not_mem_codePoint c
  · simp [hc, hnewline.symm]

/-- An escaped text ends at the first bare quote. -/
theorem flatMap_escaped_inj {s t rest rest' : Text}
    (h : s.flatMap escaped ++ '"' :: rest = t.flatMap escaped ++ '"' :: rest') :
    s = t ∧ rest = rest' := by
  have hclosed : ∀ (c : Char) (u r : Text), escaped c ++ u ≠ '"' :: r := by
    intro c u r heq
    have hread := unescape?_escaped c u
    rw [heq] at hread
    cases hread
  induction s generalizing t with
  | nil =>
    cases t with
    | nil => simpa using h
    | cons d t =>
      rw [List.flatMap_cons, List.append_assoc] at h
      exact absurd h.symm (hclosed d _ _)
  | cons c s ih =>
    rw [List.flatMap_cons, List.append_assoc] at h
    cases t with
    | nil => exact absurd h (hclosed c _ _)
    | cons d t =>
      rw [List.flatMap_cons, List.append_assoc] at h
      have hread := unescape?_escaped d (t.flatMap escaped ++ '"' :: rest')
      rw [← h, unescape?_escaped, Option.some.injEq, Prod.mk.injEq] at hread
      obtain ⟨rfl, htail⟩ := hread
      obtain ⟨rfl, hrest⟩ := ih htail
      exact ⟨rfl, hrest⟩

/-- A quoted text can be read back, and what follows it too. -/
theorem quoted_append_inj {s t rest rest' : Text} (h : quoted s ++ rest = quoted t ++ rest') :
    s = t ∧ rest = rest' := by
  simp only [quoted, List.cons_append, List.append_assoc, List.nil_append, List.cons.injEq,
    true_and] at h
  exact flatMap_escaped_inj h

/-- A quoted text stands on one line. -/
theorem newline_not_mem_quoted (t : Text) : '\n' ∉ quoted t := by
  have hquote : '\n' ≠ '"' := by decide
  intro hmem
  simp only [quoted, List.mem_cons, List.mem_append, List.mem_flatMap, List.not_mem_nil, or_false,
    hquote, false_or] at hmem
  obtain ⟨c, -, hc⟩ := hmem
  exact newline_not_mem_escaped c hc

end Text

end BlockSpec
