import BlockSpec.Diagnostic
import BlockSpec.Proofs.Lines
import BlockSpec.Proofs.Refusal
import Mathlib.Data.List.DropRight

/-! # Where lines stand

Lines are numbered in one way and looked for in another. The reader counts lines, whose ends may
hold a carriage return; a diagnostic underlines a piece between newlines and adds up bytes to find
it.

    text      a b \r \n é \r \r \n x
    lines     [ab]      [é\r]      [x]
    pieces    [ab\r]    [é\r\r]    [x]
    spans     ab        é          x

Up to the last line the two ways agree: the piece with the number of a line starts where the line
starts, and has at most one carriage return more. Carriage returns at the end are left out of a span
anyway, so the span of a line covers the line without them. -/

namespace BlockSpec

namespace Text

variable {t row : Text} {n : Nat}

/-! ### Sizes -/

@[simp] theorem byteSize_append (s t : Text) : byteSize (s ++ t) = byteSize s + byteSize t := by
  induction s with
  | nil => simp [byteSize]
  | cons c s ih =>
    simp only [byteSize, List.cons_append, List.foldr_cons] at ih ⊢
    omega

@[simp] theorem utf8_append (s t : Text) : utf8 (s ++ t) = utf8 s ++ utf8 t := List.flatMap_append

/-- The size of a text is the number of its bytes. -/
theorem length_utf8 (t : Text) : (utf8 t).length = byteSize t := by
  induction t with
  | nil => rfl
  | cons c t ih =>
    rw [utf8, List.flatMap_cons, List.length_append, String.length_utf8EncodeChar]
    exact congrArg (c.utf8Size + ·) ih

/-- A number of bytes after which a text can be cut between two characters. -/
def IsBoundary (t : Text) (k : Nat) : Prop := ∃ before after, t = before ++ after ∧
  before.byteSize = k

/-! ### Lines and pieces -/

theorem pieces_cons_of_ne {sep c : Char} (h : c ≠ sep) {p : Text} {ps : List Text}
    (ht : pieces sep t = p :: ps) : pieces sep (c :: t) = (c :: p) :: ps := by
  unfold pieces at ht ⊢
  rw [piecesBy, if_neg (by simpa using h), ht]

/-- A line is the piece with its number, or that piece less a carriage return. -/
theorem exists_piece_of_line {l : Text} (hl : (lines t)[n]? = some l) :
    ∃ row, (pieces '\n' t)[n]? = some row ∧ (row = l ∨ row = l ++ ['\r']) := by
  have hnewline : ∀ t, pieces '\n' ('\n' :: t) = [] :: pieces '\n' t := fun t => rfl
  fun_induction lines t generalizing n l with
  | case1 => simp at hl
  | case2 t ih =>
    rw [hnewline]
    cases n with
    | zero => exact ⟨[], rfl, .inl (Option.some.inj hl)⟩
    | succ n => exact ih hl
  | case3 t ih =>
    rw [pieces_cons_of_ne (by decide) (hnewline t)]
    cases n with
    | zero => exact ⟨['\r'], rfl, .inr (by rw [← Option.some.inj hl]; rfl)⟩
    | succ n => exact ih hl
  | case4 c t hn hr hnil ih =>
    -- the last line, not ended: it is the last piece
    rw [lines_eq_nil_iff.mp hnil, pieces_of_not_mem (by simpa using Ne.symm hn)]
    exact ⟨l, hl, .inl rfl⟩
  | case5 c t hn hr first rest hcons ih =>
    obtain ⟨p, ps, hp⟩ := List.exists_cons_of_ne_nil (pieces_ne_nil '\n' t)
    rw [pieces_cons_of_ne hn hp]
    rw [hcons, hp] at ih
    cases n with
    | zero =>
      obtain ⟨row, hrow, hends⟩ := ih (n := 0) rfl
      obtain rfl := Option.some.inj hrow
      obtain rfl := Option.some.inj hl
      refine ⟨c :: p, rfl, ?_⟩
      rcases hends with rfl | rfl
      · exact .inl rfl
      · exact .inr rfl
    | succ n => exact ih (n := n + 1) hl

/-- In front of a piece there are the earlier ones, each ended by a newline. -/
theorem exists_eq_append_of_piece (hrow : (pieces '\n' t)[n]? = some row) :
    ∃ after, t = ofLines ((pieces '\n' t).take n) ++ row ++ after := by
  have hfront : ∀ front rest : List Text,
      joinWith ['\n'] (front ++ row :: rest) =
        ofLines front ++ row ++ rest.flatMap ('\n' :: ·) := by
    intro front rest
    induction front with
    | nil => exact joinWith_cons '\n' row rest
    | cons p front ih =>
      unfold joinWith at ih ⊢
      rw [List.cons_append, List.intercalate_cons_of_ne_nil (by simp), ih, ofLines_cons]
      simp
  obtain ⟨hn, rfl⟩ := List.getElem?_eq_some_iff.mp hrow
  refine ⟨((pieces '\n' t).drop (n + 1)).flatMap ('\n' :: ·), ?_⟩
  rw [← hfront, ← List.drop_eq_getElem_cons hn, List.take_append_drop, joinWith_pieces]

/-- A row that is ended is one line. -/
theorem length_lines_row (hrow : '\n' ∉ row) : (lines (row ++ ['\n'])).length = 1 := by
  induction row with
  | nil => rfl
  | cons c row ih =>
    obtain ⟨hc, hrow⟩ := not_or.mp (List.mem_cons.not.mp hrow)
    obtain ⟨l, hl⟩ := List.length_eq_one_iff.mp (ih hrow)
    by_cases hr : c = '\r' ∧ row = []
    · obtain ⟨rfl, rfl⟩ := hr
      rfl
    · rw [List.cons_append, lines_cons (Ne.symm hc), hl]
      · rfl
      · -- the newline behind the row is not its first character, unless the row is empty
        rintro rfl
        have hne : row ≠ [] := fun h => hr ⟨rfl, h⟩
        rw [List.head?_append_of_ne_nil row hne]
        exact fun h => hrow (List.mem_cons_of_mem _ (List.mem_of_head? h))

theorem length_lines_ofLines {rows : List Text} (hrows : ∀ row ∈ rows, '\n' ∉ row) :
    (lines (ofLines rows)).length = rows.length := by
  induction rows with
  | nil => rfl
  | cons row rows ih =>
    obtain ⟨hrow, hrows⟩ := List.forall_mem_cons.mp hrows
    have hends : EndsLine (row ++ ['\n']) := .inr List.getLast?_concat
    have hcons : ofLines (row :: rows) = row ++ ['\n'] ++ ofLines rows := rfl
    rw [hcons, lines_append hends, List.length_append, length_lines_row hrow, ih hrows,
      List.length_cons, Nat.add_comm]

/-! ### Characters at the end -/

theorem dropTrailing_eq_rdropWhile (c : Char) (t : Text) :
    dropTrailing c t = t.rdropWhile (· == c) := rfl

theorem dropTrailing_concat (c : Char) (t : Text) :
    dropTrailing c (t ++ [c]) = dropTrailing c t := by
  simp only [dropTrailing_eq_rdropWhile]
  exact List.rdropWhile_concat_pos _ _ _ (beq_self_eq_true c)

end Text

/-! ### Spans -/

/-- The bytes of a text that a span takes. -/
def Span.bytes (s : Span) (content : Text) : List UInt8 :=
  (content.utf8.drop s.offset).take s.length

/-- A span takes the line of a text that stands behind `n` others, without the carriage returns at
its end. -/
structure Span.Covers (s : Span) (content : Text) (n : Nat) (line : Text) : Prop where
  within : s.offset + s.length ≤ content.byteSize
  starts : content.IsBoundary s.offset
  ends : content.IsBoundary (s.offset + s.length)
  bytes : s.bytes content = (Text.dropTrailing '\r' line).utf8
  /-- The span starts where the line starts: the lines before it are the earlier lines. -/
  place : ∃ before after, content = before ++ line ++ after ∧ before.byteSize = s.offset ∧
    before.EndsLine ∧ Text.lines before = (Text.lines content).take n

variable {content before covered after line : Text} {n : Nat}

theorem Span.bytes_of_append :
    (Span.mk before.byteSize covered.byteSize).bytes (before ++ covered ++ after) =
      covered.utf8 := by
  rw [Span.bytes, Text.utf8_append, Text.utf8_append, ← Text.length_utf8, ← Text.length_utf8,
    List.append_assoc, List.drop_left, List.take_left]

/-- A line with `n` lines before it, which are all ended, is covered by a span that starts behind
them. -/
theorem Span.covers_of_append (hcontent : content = before ++ line ++ after)
    (hbefore : before.EndsLine) (hlength : (Text.lines before).length = n) :
    (Span.mk before.byteSize (Text.dropTrailing '\r' line).byteSize).Covers content n line := by
  obtain ⟨returns, hreturns⟩ : Text.dropTrailing '\r' line <+: line := by
    rw [Text.dropTrailing_eq_rdropWhile]
    exact List.rdropWhile_prefix _ line
  have hcovered :
      content = before ++ Text.dropTrailing '\r' line ++ (returns ++ after) := by
    rw [hcontent, List.append_assoc, List.append_assoc, ← List.append_assoc _ returns, hreturns]
  refine ⟨?_, ⟨before, line ++ after, ?_, rfl⟩, ⟨_, _, hcovered, Text.byteSize_append _ _⟩, ?_,
    before, after, hcontent, rfl, hbefore, ?_⟩
  · conv_rhs => rw [hcovered]
    simp only [Text.byteSize_append]
    omega
  · rw [hcontent, List.append_assoc]
  · rw [hcovered]
    exact Span.bytes_of_append
  · rw [hcontent, List.append_assoc, Text.lines_append hbefore, List.take_left' hlength]

/-- The span of a line covers the line. -/
theorem lineSpan_covers (hline : (Text.lines content)[n]? = some line) :
    (lineSpan content (n + 1)).Covers content n line := by
  obtain ⟨row, hrow, hends⟩ := Text.exists_piece_of_line hline
  have hdrop : Text.dropTrailing '\r' row = Text.dropTrailing '\r' line := by
    rcases hends with rfl | rfl
    · rfl
    · exact Text.dropTrailing_concat '\r' line
  have hspan : lineSpan content (n + 1) =
      ⟨(Text.ofLines ((Text.pieces '\n' content).take n)).byteSize,
        (Text.dropTrailing '\r' line).byteSize⟩ := by
    simp only [lineSpan, hrow, hdrop]
  obtain ⟨after, hafter⟩ := Text.exists_eq_append_of_piece hrow
  -- the line stands at the head of the piece
  obtain ⟨behind, hbehind⟩ : ∃ behind,
      content = Text.ofLines ((Text.pieces '\n' content).take n) ++ line ++ behind := by
    rcases hends with rfl | rfl
    · exact ⟨after, hafter⟩
    · exact ⟨'\r' :: after, by simpa using hafter⟩
  have hlength :
      (Text.lines (Text.ofLines ((Text.pieces '\n' content).take n))).length = n := by
    obtain ⟨hn, -⟩ := List.getElem?_eq_some_iff.mp hrow
    rw [Text.length_lines_ofLines, List.length_take, Nat.min_eq_left hn.le]
    exact fun p hp => Text.not_mem_of_mem_pieces (List.mem_of_mem_take hp)
  rw [hspan]
  exact Span.covers_of_append hbehind (Text.endsLine_ofLines _) hlength

/-- Numbers that are no piece's have the empty span at the start. -/
theorem lineSpan_eq_empty (hn : n = 0 ∨ (Text.pieces '\n' content).length < n) :
    lineSpan content n = ⟨0, 0⟩ := by
  cases n with
  | zero => rfl
  | succ n =>
    have hlength : (Text.pieces '\n' content).length ≤ n := by omega
    simp only [lineSpan, List.getElem?_eq_none hlength]

/-! ### Spans of faults -/

namespace Parser

/-- The number of a line is its place, counted from one. -/
theorem getElem?_of_mem_numbered {source : Text} {row : CodeLine} (h : row ∈ numbered source) :
    ∃ n, row.line = n + 1 ∧ (Text.lines source)[n]? = some row.text := by
  obtain ⟨⟨text, n⟩, hmem, rfl⟩ := List.mem_map.mp h
  exact ⟨n, rfl, (List.mem_zipIdx_iff_getElem?.mp hmem)⟩

/-- A fault of the reader is about the first header that is bad. -/
theorem exists_bad_row {source : Text} {seed : Digest} {fault : Fault}
    (h : parse source seed = .error fault) :
    ∃ earlier e later, headerLines (numbered source) = earlier ++ e :: later ∧ AllGood earlier ∧
      Bad earlier e ∧ fault.line? = some e.line ∧
      ∃ row ∈ numbered source, row.line = e.line ∧ Header.parse? row.text = some e.header := by
  obtain ⟨earlier, e, later, hsplit, hgood, hbad, rfl⟩ := exists_first_bad_of_parse h
  obtain ⟨seen, row, rest, hrows, -, hread, hline⟩ := exists_row_of_headerLines hsplit
  exact ⟨earlier, e, later, hsplit, hgood, hbad, line?_faultOf earlier e, row, by simp [hrows],
    hline, hread⟩

end Parser

/-- Diagnostics point at the right text: the span of a line covers the line without the carriage
returns at its end, a number that is no piece's has the empty span at the start, and what the reader
refuses is reported with the span of the header line that is at fault. -/
theorem lineSpan_points_at_line (content : Text) :
    (∀ n line, (Text.lines content)[n]? = some line →
      (lineSpan content (n + 1)).Covers content n line) ∧
    (∀ n, n = 0 ∨ (Text.pieces '\n' content).length < n → lineSpan content n = ⟨0, 0⟩) ∧
    ∀ seed fault, parse content seed = .error fault →
      ∃ earlier e later n line,
        Parser.headerLines (Parser.numbered content) = earlier ++ e :: later ∧
        Parser.AllGood earlier ∧ Parser.Bad earlier e ∧ fault.line? = some e.line ∧
        e.line = n + 1 ∧ (Text.lines content)[n]? = some line ∧
        Header.parse? line = some e.header ∧
        ∀ name phase, ∃ span, ((Source.mk name content).diagnose phase fault).place =
          some ⟨name, span, phase⟩ ∧ span.Covers content n line := by
  refine ⟨fun n line => lineSpan_covers, fun n => lineSpan_eq_empty, fun seed fault h => ?_⟩
  obtain ⟨earlier, e, later, hsplit, hgood, hbad, hfault, row, hrow, hline, hread⟩ :=
    Parser.exists_bad_row h
  obtain ⟨n, hn, htext⟩ := Parser.getElem?_of_mem_numbered hrow
  have hnumber : e.line = n + 1 := hline.symm.trans hn
  refine ⟨earlier, e, later, n, row.text, hsplit, hgood, hbad, hfault, hnumber, htext, hread,
    fun name phase => ⟨lineSpan content (n + 1), ?_, lineSpan_covers htext⟩⟩
  rw [Source.diagnose, hfault, hnumber]
  rfl

/-- The text of a spec whose second line binds a keyword. -/
def keywordSpec : Text := "describe \"→\":\r\n  let \"class\": 1\r\n".toList

/-- It is refused, and the diagnostic points at that line. -/
theorem lineSpan_points_at_keyword :
    parse keywordSpec (Vector.replicate 32 7) = .error (.label "class".toList 2) ∧
    ∃ span, ((Source.mk "a.carinata".toList keywordSpec).diagnose "parse".toList
        (.label "class".toList 2)).place = some ⟨"a.carinata".toList, span, "parse".toList⟩ ∧
      span.Covers keywordSpec 1 "  let \"class\": 1".toList := by
  have hrefused : (parse keywordSpec (Vector.replicate 32 7)).map Tree.size =
      .error (.label "class".toList 2) := by
    decide +kernel
  have hparse : parse keywordSpec (Vector.replicate 32 7) = .error (.label "class".toList 2) := by
    cases h : parse keywordSpec (Vector.replicate 32 7) with
    | error fault => rw [h] at hrefused; exact congrArg _ (Except.error.inj hrefused)
    | ok t => rw [h] at hrefused; cases hrefused
  have hlines : Text.lines keywordSpec =
      ["describe \"→\":".toList, "  let \"class\": 1".toList] := by
    decide +kernel
  obtain ⟨-, e, -, n, line, -, -, -, hfault, hn, hline, -, hplace⟩ :=
    (lineSpan_points_at_line keywordSpec).2.2 _ _ hparse
  obtain rfl : n = 1 := by
    have hnumber : 2 = e.line := Option.some.inj hfault
    omega
  rw [hlines] at hline
  obtain rfl := Option.some.inj hline
  exact ⟨hparse, hplace _ _⟩

-- Carriage returns and characters of more than one byte; the last line has no newline.
example : (List.range 6).map (lineSpan "ab\r\né\r\r\n\n→x\r".toList) =
    [⟨0, 0⟩, ⟨0, 2⟩, ⟨4, 2⟩, ⟨9, 0⟩, ⟨10, 4⟩, ⟨0, 0⟩] := by
  decide +kernel

end BlockSpec
