import BlockSpec.Proofs.Account
import BlockSpec.Proofs.Pieces

/-! # Copies of code

Code is copied line by line. A copy of a line is the line less as many characters as the first line
of its body is indented, whatever they are, moved to the right; a line of which nothing but blanks
is left is written empty. So a line keeps its text exactly when it is indented no less than the
first line of its body, and a line that is indented less loses part of it. -/

namespace BlockSpec

/-! ### Trimming and cutting -/

namespace Text

variable {l : Text}

theorem trimStart_cons (c : Char) (l : Text) :
    trimStart (c :: l) = if isBlank c then trimStart l else c :: l := by
  rw [trimStart, List.dropWhile_cons]; rfl

theorem indentWidth_cons (c : Char) (l : Text) :
    indentWidth (c :: l) = if isBlank c then indentWidth l + 1 else 0 := by
  rw [indentWidth, List.takeWhile_cons]
  cases isBlank c <;> rfl

theorem length_trimStart (l : Text) : indentWidth l + (trimStart l).length = l.length := by
  rw [indentWidth, trimStart, ← List.length_append, List.takeWhile_append_dropWhile]

theorem trimStart_ne_nil (h : allBlank l = false) : trimStart l ≠ [] := by
  intro hnil
  rw [allBlank_iff.mpr hnil] at h
  cases h

/-- Cutting off blanks in front changes nothing that trimming would keep. -/
theorem trimStart_drop : ∀ {l : Text} {n : Nat}, n ≤ indentWidth l →
    trimStart (l.drop n) = trimStart l
  | _, 0, _ => rfl
  | [], n + 1, _ => rfl
  | c :: l, n + 1, h => by
    rw [indentWidth_cons] at h
    by_cases hc : isBlank c = true
    · rw [if_pos hc] at h
      rw [List.drop_succ_cons, trimStart_drop (Nat.le_of_succ_le_succ h), trimStart_cons, if_pos hc]
    · rw [if_neg hc] at h
      omega

theorem trimStart_spaces_append : ∀ (width : Nat) (l : Text),
    trimStart (spaces width ++ l) = trimStart l
  | 0, _ => rfl
  | width + 1, l => by
    have hspace : isBlank ' ' = true := by decide
    rw [spaces, List.replicate_succ, List.cons_append, trimStart_cons, if_pos hspace]
    exact trimStart_spaces_append width l

end Text

/-! ### The copy of a line -/

namespace TestModule

/-- A line as it is copied, apart from its marker: less `cut` characters, moved to the right. -/
def copyOf (width cut : Nat) (text : Text) : Text :=
  if Text.allBlank (text.drop cut) then [] else Text.spaces width ++ text.drop cut

/-- The marker behind a copied line; empty lines have none. -/
def marker (markers : Bool) (line : Nat) (copy : Text) : Text :=
  if markers && !Text.allBlank copy then "  # L:".toList ++ Text.ofNat line else []

variable {text : Text} {width cut : Nat}

theorem allBlank_spaces_append (width : Nat) (l : Text) :
    Text.allBlank (Text.spaces width ++ l) = Text.allBlank l := by
  rw [Bool.eq_iff_iff, Text.allBlank_iff, Text.allBlank_iff, Text.trimStart_spaces_append]

theorem trimStart_copyOf (width cut : Nat) (text : Text) :
    Text.trimStart (copyOf width cut text) = Text.trimStart (text.drop cut) := by
  unfold copyOf
  split
  · rename_i hblank
    rw [Text.allBlank_iff.mp hblank]; rfl
  · exact Text.trimStart_spaces_append width _

/-- A line keeps its text exactly when no more than its indentation is cut off. -/
theorem trimStart_copyOf_eq_iff (htext : Text.allBlank text = false) :
    Text.trimStart (copyOf width cut text) = Text.trimStart text ↔ cut ≤ indentWidth text := by
  rw [trimStart_copyOf]
  refine ⟨fun heq => ?_, Text.trimStart_drop⟩
  by_contra hcut
  -- what is left after the cut is too short to hold the trimmed line
  have hleft := Text.length_trimStart (text.drop cut)
  have hline := Text.length_trimStart text
  have hpos : 0 < (Text.trimStart text).length :=
    List.length_pos_iff.mpr (Text.trimStart_ne_nil htext)
  rw [heq, List.length_drop] at hleft
  omega

theorem isComment_copyOf (htext : Text.allBlank text = false) (hcut : cut ≤ indentWidth text) :
    Parser.isComment (copyOf width cut text) = Parser.isComment text := by
  rw [Parser.isComment, (trimStart_copyOf_eq_iff htext).mpr hcut]; rfl

end TestModule

/-- How much is cut off the code of a block: the indentation of its first line. -/
def Block.cut (b : Block) : Nat := (b.body.head?.map fun row => indentWidth row.text).getD 0

/-- A copy of a line, or the empty row that stands for it. -/
def Row.IsCopied (row : Row) : Prop :=
  row = .blank ∨ ∃ width text line, row = .copied width text line

namespace TestModule

theorem codeRows_eq (width : Nat) (b : Block) :
    codeRows width b = b.body.map fun row =>
      if Text.allBlank (row.text.drop b.cut) then .blank
      else .copied width (row.text.drop b.cut) row.line := by
  unfold codeRows Block.cut
  cases b.body with
  | nil => rfl
  | cons first rest =>
    simp only [List.map_cons, dedent, List.zipWith_cons_cons, List.head?_cons, Option.map_some,
      Option.getD_some, List.map_map, List.zipWith_map_right, List.zipWith_self]
    rfl

theorem isCopied_of_mem_codeRows {row : Row} {b : Block} (hrow : row ∈ codeRows width b) :
    row.IsCopied := by
  rw [codeRows_eq] at hrow
  obtain ⟨line, -, rfl⟩ := List.mem_map.mp hrow
  split
  · exact .inl rfl
  · exact .inr ⟨_, _, _, rfl⟩

theorem isCopied_of_mem_decoratorRows {row : Row} {b : Block}
    (hrow : row ∈ decoratorRows width b) : row.IsCopied := by
  obtain ⟨line, -, rfl⟩ := List.mem_map.mp hrow
  exact .inr ⟨_, _, _, rfl⟩

/-- The lines of a copy of a block's code. -/
theorem render_codeRows (markers : Bool) (width : Nat) (b : Block) :
    (codeRows width b).map (Row.render markers) = b.body.map fun row =>
      copyOf width b.cut row.text ++
        marker markers row.line (copyOf width b.cut row.text) := by
  rw [codeRows_eq, List.map_map]
  refine List.map_congr_left fun row _ => ?_
  rw [Function.comp_apply]
  by_cases hblank : Text.allBlank (row.text.drop b.cut) = true
  · have hcopy : copyOf width b.cut row.text = [] := if_pos hblank
    rw [if_pos hblank, hcopy]
    cases markers <;> rfl
  · have hcopy : copyOf width b.cut row.text = Text.spaces width ++ row.text.drop b.cut :=
      if_neg hblank
    rw [if_neg hblank, hcopy, marker, allBlank_spaces_append, Bool.eq_false_of_not_eq_true hblank,
      Bool.not_false, Bool.and_true]
    rfl

end TestModule

/-! ### Bodies hold no blank lines -/

theorem Header.code_ne_blank {line : Text} {h : Header} {code : Text}
    (hh : Header.parse? line = some h) (hcode : h.code = some code) :
    Text.allBlank code = false := by
  unfold Header.parse? at hh
  split at hh
  · cases hh
  · obtain ⟨⟨label, inside, rest⟩, -, rfl⟩ := Option.map_eq_some_iff.mp hh
    simp only at hcode
    split at hcode
    · cases hcode
    · rename_i hblank
      cases hcode
      simpa using hblank

namespace Parser

theorem headerCode_ne_blank {kind : Kind} {code : Text} (h : Text.allBlank code = false) :
    Text.allBlank (headerCode kind code) = false := by
  unfold headerCode
  split
  · simp only [Text.allBlank, List.all_append] at h ⊢
    rw [h, Bool.and_false]
  · exact h

/-- No block of a spec that can be read keeps a blank line. -/
theorem allBlank_of_mem_body {source : Text} {seed : Digest} {t : Tree}
    (h : parse source seed = .ok t) {i : Nat} {row : CodeLine} (hrow : row ∈ (t.block i).body) :
    Text.allBlank row.text = false := by
  have hi : i < t.size := Tree.lt_size_of_mem_body hrow
  rcases (ledger_of_parse h).accounts.only_code i hi row hrow with
    ⟨r, -, hd, code, hh, hcode, -, rfl⟩ | ⟨-, hloose, -, -⟩
  · exact headerCode_ne_blank (Header.code_ne_blank hh hcode)
  · exact (isLoose_iff.mp hloose).1

end Parser

/-! ### Modules hold copies -/

namespace TestModule

/-- A module holds the code of the blocks that are rendered, and every copy of a body has one line
for every line of the body. Apart from its marker, that line keeps the text of the body's line
exactly when the body's line is indented no less than the first line of the body. -/
structure CopiesCode (t : Tree) (options : Options) (module : Text) : Prop where
  generated : generate t options = .ok module
  rendered : ∀ i, (∃ width, Piece.code width i ∈ pieces t options) ↔ Rendered t i
  copies : ∀ (before : List Piece) (width i : Nat) (after : List Piece),
    pieces t options = before ++ .code width i :: after →
    ∃ lines, module = printed t options.lineMarkers before ++ Text.ofLines lines ++
        printed t options.lineMarkers after ∧
      lines.length = (t.block i).body.length ∧
      ∀ (k : Nat) (row : CodeLine), (t.block i).body[k]? = some row → ∃ copy,
        lines[k]? = some (copy ++ marker options.lineMarkers row.line copy) ∧
        copy = copyOf width (t.block i).cut row.text ∧
        (Text.trimStart copy = Text.trimStart row.text ↔
          (t.block i).cut ≤ indentWidth row.text) ∧
        ((t.block i).cut ≤ indentWidth row.text →
          Parser.isComment copy = Parser.isComment row.text)

end TestModule

open TestModule in
/-- Code is copied with all its text, as far as it is indented no less than the first line of its
body. -/
theorem generate_copies_code {source : Text} {seed : Digest} {t : Tree}
    (h : parse source seed = .ok t) (options : Options) :
    ∃ module, CopiesCode t options module := by
  refine ⟨_, generate_eq t options, fun i => exists_code_mem_pieces, ?_⟩
  intro before width i after hsplit
  refine ⟨(codeRows width (t.block i)).map (Row.render options.lineMarkers), ?_, ?_,
    fun k row hrow => ⟨copyOf width (t.block i).cut row.text, ?_, rfl, ?_, ?_⟩⟩
  · rw [hsplit, printed_append, printed_cons, List.append_assoc]; rfl
  · rw [render_codeRows, List.length_map]
  · rw [render_codeRows, List.getElem?_map, hrow]; rfl
  · exact trimStart_copyOf_eq_iff (Parser.allBlank_of_mem_body h (List.mem_of_getElem? hrow))
  · exact isComment_copyOf (Parser.allBlank_of_mem_body h (List.mem_of_getElem? hrow))

/-- A spec with a comment between two tests, written at the tests' own indent. -/
def commentedSpec : Text :=
  ("describe \"A\":\n    it \"x\":\n        assert True\n    # comment\n" ++
    "    it \"y\": pass\n").toList

theorem generate_copies_code_commented : ∃ t, parse commentedSpec (Vector.replicate 32 7) = .ok t ∧
    ∃ module, TestModule.CopiesCode t { lineMarkers := true } module := by
  have hsize : (parse commentedSpec (Vector.replicate 32 7)).map Tree.size = .ok 4 := by
    decide +kernel
  obtain ⟨t, h, -⟩ := exists_of_map_eq_ok hsize
  exact ⟨t, h, generate_copies_code h { lineMarkers := true }⟩

/-- The comment is code of the first test, whose body is indented deeper: it loses its head, and no
line of the module has its text. -/
theorem comment_between_tests_is_cut : ∃ t module row,
    parse commentedSpec (Vector.replicate 32 7) = .ok t ∧ generate t {} = .ok module ∧
    TestModule.Rendered t 2 ∧ row ∈ (t.block 2).body ∧ Parser.isComment row.text = true ∧
    "        mment".toList ∈ Text.lines module ∧
    ∀ line ∈ Text.lines module, Text.trimStart line ≠ Text.trimStart row.text := by
  have hview : (parse commentedSpec (Vector.replicate 32 7)).map (fun t =>
      ((t.block 2).body[1]?, t.units, (generate t {}).map fun module =>
        ((Text.lines module).contains "        mment".toList,
          (Text.lines module).all fun line => Text.trimStart line != "# comment".toList))) =
      .ok (some ⟨4, "    # comment".toList⟩, [⟨1, [2, 3]⟩], .ok (true, true)) := by
    decide +kernel
  obtain ⟨t, ht, hview⟩ := exists_of_map_eq_ok hview
  simp only [Prod.mk.injEq] at hview
  obtain ⟨hrow, hunits, hmodule⟩ := hview
  obtain ⟨module, hm, hmodule⟩ := exists_of_map_eq_ok hmodule
  obtain ⟨hcut, hall⟩ := Prod.mk.inj hmodule
  refine ⟨t, module, _, ht, hm, Or.inr ⟨⟨1, [2, 3]⟩, by simp [hunits], ?_⟩,
    List.mem_of_getElem? hrow, by decide, by simpa using hcut, fun line hline heq => ?_⟩
  · exact Or.inr (Or.inr (Or.inr List.mem_cons_self))
  · have hne := List.all_eq_true.mp hall line hline
    rw [heq] at hne
    exact absurd hne (by decide)

end BlockSpec
