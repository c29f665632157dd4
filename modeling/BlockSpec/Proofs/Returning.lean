import BlockSpec.Proofs.Account
import BlockSpec.Proofs.Grammar

/-! # What a binding returns

Code on the header line of a binding gives its value, so `return` is put in front of it unless it
returns already. Whether it does is asked of three spellings only:

    return          return followed by a space          return followed by an opening parenthesis

all at the very start of the code. A return statement can be written in other ways: behind more than
the one blank that a header skips, or with a tab, a bracket, a sign or a quote behind the word. Such
code gets a second `return`. All other code is treated as it should be: no code that is no return
statement is mistaken for one. -/

namespace BlockSpec

namespace Parser

variable {inWord : Char → Bool} {code : Text}

/-- Code is a return statement: it is the word `return`, behind blanks or not, with no character
behind it that continues a word. Which characters do is left open. -/
def returns (inWord : Char → Bool) (code : Text) : Bool :=
  match Text.stripStart? "return".toList (Text.trimStart code) with
  | none => false
  | some [] => true
  | some (c :: _) => !inWord c

/-- Code starts with the word `return`, and a space or an opening parenthesis follows, or
nothing. -/
def ReturnsAtOnce (code : Text) : Prop :=
  ∃ rest, code = "return".toList ++ rest ∧ ∀ c ∈ rest.head?, c = ' ' ∨ c = '('

/-- The three spellings that are looked for. -/
theorem isReturn_iff : isReturn code = true ↔ ReturnsAtOnce code := by
  simp only [isReturn, Bool.or_eq_true, beq_iff_eq, Text.startsWith, Option.isSome_iff_exists]
  constructor
  · rintro ((rfl | ⟨rest, hrest⟩) | ⟨rest, hrest⟩)
    · exact ⟨[], rfl, by simp⟩
    · have hcode := Header.eq_append_of_stripStart? hrest
      exact ⟨' ' :: rest, hcode, by simp⟩
    · have hcode := Header.eq_append_of_stripStart? hrest
      exact ⟨'(' :: rest, hcode, by simp⟩
  · rintro ⟨rest, rfl, hrest⟩
    cases rest with
    | nil => exact .inl (.inl rfl)
    | cons c rest =>
      rcases hrest c rfl with rfl | rfl
      · exact .inl (.inr ⟨rest, rfl⟩)
      · exact .inr ⟨rest, rfl⟩

/-- They are return statements, as long as neither a space nor a parenthesis continues a word. -/
theorem ReturnsAtOnce.returns (h : ReturnsAtOnce code) (hspace : inWord ' ' = false)
    (hparen : inWord '(' = false) : returns inWord code = true := by
  obtain ⟨rest, rfl, hrest⟩ := h
  have hstrip : Text.stripStart? "return".toList
      (Text.trimStart ("return".toList ++ rest)) = some rest := rfl
  rw [Parser.returns, hstrip]
  cases rest with
  | nil => rfl
  | cons c rest =>
    rcases hrest c rfl with rfl | rfl
    · simp [hspace]
    · simp [hparen]

theorem headerCode_binding (code : Text) :
    headerCode .binding code = if isReturn code then code else "return ".toList ++ code := by
  cases hreturn : isReturn code <;> simp [headerCode, hreturn]

theorem headerCode_binding_eq_iff : headerCode .binding code = code ↔ ReturnsAtOnce code := by
  rw [headerCode_binding, ← isReturn_iff]
  split
  · rename_i hreturn
    exact iff_of_true rfl hreturn
  · rename_i hreturn
    refine iff_of_false (fun heq => ?_) hreturn
    have hlength := congrArg List.length heq
    rw [List.length_append] at hlength
    exact absurd hlength (by simp)

/-- Code that is no return statement becomes one. -/
theorem headerCode_of_not_returns (hspace : inWord ' ' = false) (hparen : inWord '(' = false)
    (h : returns inWord code = false) : headerCode .binding code = "return ".toList ++ code := by
  rw [headerCode_binding, if_neg]
  intro hreturn
  rw [(isReturn_iff.mp hreturn).returns hspace hparen] at h
  cases h

end Parser

/-- Code on the header line of a binding leads the body of its block. Unless it is a return
statement, `return` is put in front of it. If it is one, it stays as it is or is made to return
twice, and it stays as it is just when it starts with `return` and a space or an opening parenthesis
follows, or nothing. -/
theorem binding_code_returned {source : Text} {seed : Digest} {t : Tree}
    (h : parse source seed = .ok t) {row : CodeLine} (hrow : row ∈ Parser.numbered source)
    {hd : Header} (hread : Header.parse? row.text = some hd) (hkind : hd.kind = .binding)
    {code : Text} (hcode : hd.code = some code) {inWord : Char → Bool}
    (hspace : inWord ' ' = false) (hparen : inWord '(' = false) :
    (∃! i, i < t.size ∧ (t.block i).line = row.line) ∧
    ∀ i, i < t.size → (t.block i).line = row.line →
      ∃ text, (t.block i).body.head? = some ⟨row.line, text⟩ ∧
        (Parser.returns inWord code = false → text = "return ".toList ++ code) ∧
        (Parser.returns inWord code = true → text = code ∨ text = "return ".toList ++ code) ∧
        (text = code ↔ Parser.ReturnsAtOnce code) := by
  have hledger := Parser.ledger_of_parse h
  refine ⟨hledger.existsUnique_block hrow (by rw [hread]; rfl), fun i hi hline => ?_⟩
  have hbody := hledger.head?_body hrow hread hcode hi hline
  rw [hkind] at hbody
  refine ⟨_, hbody, Parser.headerCode_of_not_returns hspace hparen, fun _ => ?_,
    Parser.headerCode_binding_eq_iff⟩
  rw [Parser.headerCode_binding]
  split
  · exact .inl rfl
  · exact .inr rfl

/-- A spec with a binding that returns at once. -/
def returningSpec : Text :=
  "describe \"A\":\n    let \"a\": return (1)\n    it \"x\": pass\n".toList

theorem binding_code_returned_plain : ∃ t, parse returningSpec (Vector.replicate 32 7) = .ok t ∧
    Parser.returns isNameChar "return (1)".toList = true ∧
    (∃! i, i < t.size ∧ (t.block i).line = 2) ∧
    ∀ i, i < t.size → (t.block i).line = 2 →
      (t.block i).body.head? = some ⟨2, "return (1)".toList⟩ := by
  have hsize : (parse returningSpec (Vector.replicate 32 7)).map Tree.size = .ok 4 := by
    decide +kernel
  obtain ⟨t, h, -⟩ := exists_of_map_eq_ok hsize
  have hrow : ⟨2, "    let \"a\": return (1)".toList⟩ ∈ Parser.numbered returningSpec := by
    decide +kernel
  have hread : Header.parse? "    let \"a\": return (1)".toList =
      some ⟨4, .binding, "a".toList, none, some "return (1)".toList⟩ := by
    decide +kernel
  have hspace : isNameChar ' ' = false := by decide
  have hparen : isNameChar '(' = false := by decide
  obtain ⟨hunique, hbody⟩ := binding_code_returned h hrow hread rfl rfl hspace hparen
  refine ⟨t, h, by decide, hunique, fun i hi hline => ?_⟩
  obtain ⟨text, hhead, -, -, hiff⟩ := hbody i hi hline
  have htext : text = "return (1)".toList := hiff.mpr ⟨" (1)".toList, rfl, by simp⟩
  rw [hhead, htext]

/-- A spec whose bindings return behind a second blank, with a bracket and with a tab. -/
def returningTwiceSpec : Text :=
  ("describe \"A\":\n    let \"a\": return[1]\n    let \"b\":  return 2\n" ++
    "    let \"c\": return\t3\n").toList

/-- Such return statements return twice. -/
theorem return_is_doubled :
    (∀ code ∈ ["return[1]", " return 2", "return\t3"],
      Parser.returns isNameChar code.toList = true) ∧
    (parse returningTwiceSpec (Vector.replicate 32 7)).map (fun t =>
      [2, 3, 4].map fun i => (t.block i).body.map (·.text)) =
      .ok [["return return[1]".toList], ["return  return 2".toList],
        ["return return\t3".toList]] := by
  constructor
  · decide
  · decide +kernel

end BlockSpec
