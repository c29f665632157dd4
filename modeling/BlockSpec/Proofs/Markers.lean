import BlockSpec.Proofs.Conservation
import BlockSpec.Proofs.Grammar
import BlockSpec.Proofs.LineSpans
import Mathlib.Data.List.Forall2

/-! # Line markers

Markers change nothing but the ends of lines. Printed without them and with them, a module has the
same lines, and only copies of spec lines differ:

    class TestSum(TestCase):         class TestSum(TestCase):
        @skip                            @skip  # L:4
        def test_adds(self):             def test_adds(self):
            total = 1 + 1                    total = 1 + 1  # L:6

A line is what stands between two newlines, the way rows are written. Rows of the library's own can
be several lines, since a base class or a path may hold newlines; a copied row is one. A line that
is cut to nothing is copied without a marker.

The number in a marker is that of a line of the spec that holds the copied text: all of it, unless
`return` was put in front of the code of a binding. -/

namespace BlockSpec

/-- The comment that names a line of the spec. -/
def lineMarker (n : Nat) : Text := "  # L:".toList ++ Text.ofNat n

/-! ### Texts in lines of the spec -/

/-- The `n`-th line of a spec holds a text, or the text is the code of the binding on that line with
`return` put in front. -/
def StandsIn (source : Text) (n : Nat) (text : Text) : Prop :=
  ∃ k line, n = k + 1 ∧ (Text.lines source)[k]? = some line ∧
    (text <:+: line ∨ ∃ h code, Header.parse? line = some h ∧ h.kind = .binding ∧
      h.code = some code ∧ Parser.isReturn code = false ∧ text = "return ".toList ++ code ∧
      code <:+: line)

namespace StandsIn

variable {source text : Text} {seed : Digest} {t : Tree} {b n : Nat} {row entry : CodeLine}

theorem of_infix (hrow : row ∈ Parser.numbered source) (htext : text <:+: row.text) :
    StandsIn source row.line text := by
  obtain ⟨k, hk, hline⟩ := Parser.getElem?_of_mem_numbered hrow
  exact ⟨k, row.text, hk, hline, .inl htext⟩

theorem newline_not_mem (h : StandsIn source n text) : '\n' ∉ text := by
  obtain ⟨k, line, -, hline, htext⟩ := h
  have hnewline : '\n' ∉ line := Text.newline_not_mem_of_mem_lines (List.mem_of_getElem? hline)
  rcases htext with htext | ⟨-, code, -, -, -, -, rfl, hcode⟩
  · exact fun hmem => hnewline (htext.subset hmem)
  · refine fun hmem => hnewline ?_
    rcases List.mem_append.mp hmem with hmem | hmem
    · exact absurd hmem (by decide)
    · exact hcode.subset hmem

/-- A decorator stands in its line. -/
theorem of_mem_decorators (h : parse source seed = .ok t)
    (hentry : entry ∈ (t.block b).decorators) : StandsIn source entry.line entry.text := by
  have hb : b < t.size := Tree.lt_size_of_mem_decorators hentry
  obtain ⟨row, hrow, -, -, rfl, -⟩ :=
    (Parser.ledger_of_parse h).accounts.only_decorators b hb entry hentry
  have hstands := of_infix hrow (Text.trim_infix row.text)
  exact hstands

/-- What is copied of a line of code stands in that line. -/
theorem of_mem_body (h : parse source seed = .ok t) (hentry : entry ∈ (t.block b).body) :
    StandsIn source entry.line (entry.text.drop (t.block b).cut) := by
  have hledger := Parser.ledger_of_parse h
  have hb : b < t.size := Tree.lt_size_of_mem_body hentry
  rcases hledger.accounts.only_code b hb entry hentry with
    ⟨row, hrow, hd, code, hread, hcode, hline, rfl⟩ | ⟨hrow, -, -, -⟩
  · obtain ⟨k, hk, hk'⟩ := Parser.getElem?_of_mem_numbered hrow
    have hsuffix : code <:+ row.text :=
      Header.code_suffix (Text.newline_not_mem_of_mem_lines (List.mem_of_getElem? hk')) hread hcode
    by_cases hreturn : hd.kind = .binding ∧ Parser.isReturn code = false
    · -- the code comes first in its body and starts with a letter, so nothing is cut off
      have hbody : Parser.headerCode hd.kind code = "return ".toList ++ code := by
        simp [Parser.headerCode, hreturn]
      have hcut : (t.block b).cut = 0 := by
        rw [Block.cut, hledger.head?_body hrow hread hcode hb hline.symm, hbody]
        rfl
      refine ⟨k, row.text, hk, hk', .inr ⟨hd, code, hread, hreturn.1, hcode, hreturn.2, ?_,
        hsuffix.isInfix⟩⟩
      rw [hcut, hbody]
      rfl
    · have hbody : Parser.headerCode hd.kind code = code := by
        rw [Parser.headerCode, if_neg (by simpa using hreturn)]
      have hstands := of_infix hrow
        ((List.drop_suffix (t.block b).cut code).trans hsuffix).isInfix
      rw [hbody]
      exact hstands
  · exact of_infix hrow (List.drop_suffix _ _).isInfix

end StandsIn

/-! ### Lines of a module -/

namespace TestModule

/-- The lines that a row is in a module. -/
def Sourced.lines (markers : Bool) (r : Sourced) : List Text :=
  Text.pieces '\n' (r.row.render markers)

/-- A row is one line of a module; markers put the number of a line of the spec behind it, and its
text stands in that line. -/
def Sourced.IsMarked (source : Text) (r : Sourced) (text : Text) (n : Nat) : Prop :=
  ∃ width, r.lines false = [Text.spaces width ++ text] ∧
    r.lines true = [Text.spaces width ++ text ++ lineMarker n] ∧ StandsIn source n text

/-- Two lines are equal, or the second one is the first one with a marker behind. -/
def SameButMarker (plain marked : Text) : Prop :=
  marked = plain ∨ ∃ n, marked = plain ++ lineMarker n

variable {source text : Text} {seed : Digest} {t : Tree} {options : Options} {r : Sourced}
  {n width : Nat}

theorem newline_not_mem_lineMarker (n : Nat) : '\n' ∉ lineMarker n := by
  intro hmem
  rcases List.mem_append.mp hmem with hlead | hdigits
  · exact absurd hlead (by decide)
  · have hdigit : '\n'.isDigit = true :=
      Nat.isDigit_of_mem_toDigits (by decide) (by decide) hdigits
    exact absurd hdigit (by decide)

theorem isMarked_of_copied (hrow : r.row = .copied width text n) (htext : StandsIn source n text) :
    r.IsMarked source text n := by
  have hplain : '\n' ∉ Text.spaces width ++ text := by
    rw [List.mem_append, not_or]
    exact ⟨fun hmem => absurd (List.eq_of_mem_replicate hmem) (by decide), htext.newline_not_mem⟩
  have hmarked : '\n' ∉ Text.spaces width ++ text ++ lineMarker n := by
    rw [List.mem_append, not_or]
    exact ⟨hplain, newline_not_mem_lineMarker n⟩
  refine ⟨width, ?_, ?_, htext⟩
  · rw [Sourced.lines, hrow]
    simpa only [Row.render, Bool.false_eq_true, if_false, List.append_nil] using
      Text.pieces_of_not_mem hplain
  · rw [Sourced.lines, hrow]
    exact Text.pieces_of_not_mem hmarked

/-- A copy of a line of a block: a decorator has a marker, a line of code has one unless it is cut
to nothing. -/
def Sourced.MarksCopy (source : Text) (t : Tree) (r : Sourced) (n : Nat) : Prop :=
  ∃ b, (∃ entry ∈ (t.block b).decorators, entry.line = n ∧ r.IsMarked source entry.text n) ∨
    ∃ entry ∈ (t.block b).body, entry.line = n ∧
      (Text.allBlank (entry.text.drop (t.block b).cut) = true →
        r.lines false = [[]] ∧ r.lines true = [[]]) ∧
      (Text.allBlank (entry.text.drop (t.block b).cut) = false →
        r.IsMarked source (entry.text.drop (t.block b).cut) n)

theorem marksCopy_of_isCopy (h : parse source seed = .ok t) (hcopy : IsCopy t r.row n) :
    r.MarksCopy source t n := by
  obtain ⟨b, ⟨entry, hentry, rfl, width, hrow⟩ | ⟨entry, hentry, rfl, hbody⟩⟩ := hcopy
  · exact ⟨b, .inl ⟨entry, hentry, rfl, isMarked_of_copied hrow (.of_mem_decorators h hentry)⟩⟩
  · refine ⟨b, .inr ⟨entry, hentry, rfl, ?_⟩⟩
    rcases hbody with ⟨hblank, hrow⟩ | ⟨hblank, width, hrow⟩
    · refine ⟨fun _ => ?_, fun hnot => ?_⟩
      · simp only [Sourced.lines, hrow]
        exact ⟨rfl, rfl⟩
      · rw [hblank] at hnot
        cases hnot
    · refine ⟨fun hnot => ?_, fun _ => isMarked_of_copied hrow (.of_mem_body h hentry)⟩
      rw [hblank] at hnot
      cases hnot

/-- Markers leave the library's own rows as they are. -/
theorem lines_own (hrow : ∃ text, r.row = .plain text) : r.lines true = r.lines false := by
  obtain ⟨text, hrow⟩ := hrow
  rw [Sourced.lines, Sourced.lines, hrow]
  rfl

theorem Sourced.MarksCopy.lines (h : r.MarksCopy source t n) :
    List.Forall₂ SameButMarker (r.lines false) (r.lines true) := by
  have hmarked : ∀ text, r.IsMarked source text n →
      List.Forall₂ SameButMarker (r.lines false) (r.lines true) := by
    rintro text ⟨width, hplain, hmarked, -⟩
    rw [hplain, hmarked]
    exact .cons (.inr ⟨n, rfl⟩) .nil
  obtain ⟨b, ⟨entry, -, -, hdecorator⟩ | ⟨entry, -, -, hblank, hcode⟩⟩ := h
  · exact hmarked _ hdecorator
  · cases hb : Text.allBlank (entry.text.drop (t.block b).cut) with
    | true =>
      rw [(hblank hb).1, (hblank hb).2]
      exact .cons (.inl rfl) .nil
    | false => exact hmarked _ (hcode hb)

/-- The lines of a module are those of its rows. -/
theorem pieces_printed (t : Tree) (options : Options) (markers : Bool) :
    Text.pieces '\n' (printed t markers (pieces t options)) =
      (sourced t options).flatMap (Sourced.lines markers) ++ [[]] := by
  rw [printed, ← map_row_flatMap_sourced, Text.pieces_ofLines, List.flatMap_map, List.flatMap_map]
  rfl

/-- Where lines are counted by their ends there is one less than there are pieces. -/
theorem length_lines_printed (t : Tree) (options : Options) (markers : Bool) :
    (Text.lines (printed t markers (pieces t options))).length =
      ((sourced t options).flatMap (Sourced.lines markers)).length := by
  have hrows : printed t markers (pieces t options) =
      Text.ofLines ((sourced t options).flatMap (Sourced.lines markers)) := by
    rw [← Text.joinWith_pieces '\n' (printed t markers (pieces t options)), pieces_printed,
      Text.joinWith_concat, List.append_nil]
    rfl
  rw [hrows]
  refine Text.length_lines_ofLines fun row hrow => ?_
  obtain ⟨r, -, hrow⟩ := List.mem_flatMap.mp hrow
  exact Text.not_mem_of_mem_pieces hrow

/-- A module printed without and with markers: line by line the same, but for the markers behind
what is copied. -/
structure MarksCopies (source : Text) (t : Tree) (options : Options) (plain marked : Text) :
    Prop where
  plain_generated : generate t { options with lineMarkers := false } = .ok plain
  marked_generated : generate t { options with lineMarkers := true } = .ok marked
  /-- The lines of a module are those of its rows, and nothing stands behind the last newline. -/
  plain_lines :
    Text.pieces '\n' plain = (sourced t options).flatMap (Sourced.lines false) ++ [[]]
  marked_lines :
    Text.pieces '\n' marked = (sourced t options).flatMap (Sourced.lines true) ++ [[]]
  pairs : List.Forall₂ SameButMarker (Text.pieces '\n' plain) (Text.pieces '\n' marked)
  /-- Counted by their ends, lines are equally many, too. -/
  count : (Text.lines plain).length = (Text.lines marked).length
  own : ∀ r ∈ sourced t options, r.line = none → r.lines true = r.lines false
  copies : ∀ r ∈ sourced t options, ∀ n, r.line = some n → r.MarksCopy source t n

/-- Row by row, and so line by line, markers change nothing else. -/
theorem forall₂_lines (h : parse source seed = .ok t) (options : Options) :
    List.Forall₂ SameButMarker ((sourced t options).flatMap (Sourced.lines false))
      ((sourced t options).flatMap (Sourced.lines true)) := by
  have hrows : List.Forall₂ (fun r r' => r = r' ∧ r ∈ sourced t options) (sourced t options)
      (sourced t options) := List.forall₂_same.mpr fun r hr => ⟨rfl, hr⟩
  refine List.rel_flatMap hrows ?_
  rintro r _ ⟨rfl, hr⟩
  obtain ⟨hown, hcopy⟩ := isCopy_of_mem_sourced hr
  cases hline : r.line with
  | none =>
    rw [lines_own (hown hline)]
    exact List.forall₂_same.mpr fun line _ => .inl rfl
  | some n => exact (marksCopy_of_isCopy h (hcopy n hline)).lines

end TestModule

open TestModule in
/-- Line markers are transparent, and name the lines that the copied texts stand in. -/
theorem markers_annotate_copies {source : Text} {seed : Digest} {t : Tree}
    (h : parse source seed = .ok t) (options : Options) :
    ∃ plain marked, MarksCopies source t options plain marked := by
  have hlines := forall₂_lines h options
  have hplain := pieces_printed t options false
  have hmarked := pieces_printed t options true
  refine ⟨printed t false (pieces t options), printed t true (pieces t options),
    generate_eq t { options with lineMarkers := false },
    generate_eq t { options with lineMarkers := true }, hplain, hmarked, ?_, ?_,
    fun r hr hnone => lines_own ((isCopy_of_mem_sourced hr).1 hnone),
    fun r hr n hn => marksCopy_of_isCopy h ((isCopy_of_mem_sourced hr).2 n hn)⟩
  · rw [hplain, hmarked]
    exact List.rel_append hlines (.cons (.inl rfl) .nil)
  · rw [length_lines_printed, length_lines_printed, hlines.length_eq]

/-- A spec with decorators of a class and of a test, a binding that is given `return`, a carriage
return at the end of a line, and a comment that is cut to nothing. -/
def markedSpec : Text :=
  ("@slow\ndescribe \"A\":\n    let \"x\":  1\r\n    @skip\n    # why\n    it \"a\":\n" ++
    "        use(x)\n    #\n").toList

open TestModule in
theorem markers_annotate_copies_cut : ∃ t plain marked,
    parse markedSpec (Vector.replicate 32 7) = .ok t ∧
    copiedLines (sourced t {}) = [1, 3, 4, 5, 7, 8] ∧
    (Text.pieces '\n' marked).filter (·.contains '#') =
      ["@slow  # L:1".toList, "        return  1  # L:3".toList, "    @skip  # L:4".toList,
        "    # why  # L:5".toList, "        use(x)  # L:7".toList] ∧
    MarksCopies markedSpec t {} plain marked := by
  have hview : (parse markedSpec (Vector.replicate 32 7)).map (fun t =>
      (copiedLines (sourced t {}), (generate t { lineMarkers := true }).map fun marked =>
        (Text.pieces '\n' marked).filter (·.contains '#'))) =
      .ok ([1, 3, 4, 5, 7, 8], .ok ["@slow  # L:1".toList, "        return  1  # L:3".toList,
        "    @skip  # L:4".toList, "    # why  # L:5".toList, "        use(x)  # L:7".toList]) := by
    decide +kernel
  obtain ⟨t, h, hview⟩ := exists_of_map_eq_ok hview
  obtain ⟨hlines, hgenerate⟩ := Prod.mk.inj hview
  obtain ⟨marked, hmarked, hmarks⟩ := exists_of_map_eq_ok hgenerate
  obtain ⟨plain, marked', hcopies⟩ := markers_annotate_copies h {}
  obtain rfl : marked = marked' := Except.ok.inj (hmarked.symm.trans hcopies.marked_generated)
  exact ⟨t, plain, marked, h, hlines, hmarks, hcopies⟩

end BlockSpec
