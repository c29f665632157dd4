import BlockSpec.Proofs.Copying

/-! # Indentation taken away and put back

Taking indentation away cuts as many characters off every row as the first row has blanks in front,
whatever these characters are. Putting it back writes that many spaces in front of what is left. So a
row comes back as it was exactly when spaces were cut off and something was left:

    width 4        cut        put back
    ␣␣␣␣x = 1      x = 1      ␣␣␣␣x = 1    the row
    (empty)        (empty)    (empty)      the row
    ␣␣y            (empty)    (empty)      nothing was left
    ␣␣␣␣           (empty)    (empty)      nothing was left
    ⇥⇥⇥⇥z          z          ␣␣␣␣z        tabs were cut off

The first row that was cut starts with no blank, so nothing is cut off a second time. -/

namespace BlockSpec

/-! ### One row -/

/-- A row that lost `width` characters and got as many spaces back. -/
def putBack (width : Nat) (row : Text) : Text :=
  if row.length ≤ width then [] else Text.spaces width ++ row.drop width

theorem reindent_map_drop (width : Nat) (rows : List Text) :
    reindent width (rows.map (·.drop width)) = rows.map (putBack width) := by
  rw [reindent, List.map_map]
  refine List.map_congr_left fun row _ => ?_
  simp [putBack, List.drop_eq_nil_iff]

/-- Spaces in front of what is left make up the row when it was spaces that were cut off. -/
theorem spaces_append_drop_eq_iff {width : Nat} {row : Text} :
    Text.spaces width ++ row.drop width = row ↔ Text.spaces width <+: row := by
  constructor
  · intro h
    exact ⟨row.drop width, h⟩
  · rintro ⟨rest, rfl⟩
    have hwidth : (Text.spaces width).length = width := by simp [Text.spaces]
    rw [List.drop_append_of_le_length hwidth.ge, List.drop_eq_nil_of_le hwidth.le, List.nil_append]

/-- When a row comes back as it was. -/
theorem putBack_eq_iff {width : Nat} {row : Text} :
    putBack width row = row ↔ row = [] ∨ Text.spaces width <+: row ∧ width < row.length := by
  rw [putBack]
  by_cases hshort : row.length ≤ width
  · -- nothing is left of the row, so only an empty one is restored
    rw [if_pos hshort, eq_comm, or_iff_left]
    rintro ⟨-, hlong⟩
    omega
  · rw [if_neg hshort, spaces_append_drop_eq_iff, or_iff_right]
    · simp [not_le.mp hshort]
    · rintro rfl
      simp at hshort

/-! ### All rows -/

theorem indentWidth_drop_indentWidth (row : Text) :
    indentWidth (row.drop (indentWidth row)) = 0 := by
  induction row with
  | nil => rfl
  | cons c row ih =>
    rw [Text.indentWidth_cons]
    by_cases hc : isBlank c = true
    · rw [if_pos hc, List.drop_succ_cons, ih]
    · rw [if_neg hc, List.drop_zero, Text.indentWidth_cons, if_neg hc]

/-- What was moved to the left once stays where it is. -/
theorem dedent_dedent (rows : List Text) : dedent (dedent rows) = dedent rows := by
  cases rows with
  | nil => rfl
  | cons first rest =>
    rw [dedent, List.map_cons, dedent, indentWidth_drop_indentWidth]
    simp

/-- The rows come back exactly when each of them is empty or goes on behind as many spaces as the
first row has blanks in front, and taking indentation away twice is taking it away once. -/
theorem reindent_dedent_eq_iff :
    (∀ (first : Text) (rest : List Text),
      reindent (indentWidth first) (dedent (first :: rest)) = first :: rest ↔
        ∀ row ∈ first :: rest, row = [] ∨
          Text.spaces (indentWidth first) <+: row ∧ indentWidth first < row.length) ∧
    ∀ rows : List Text, dedent (dedent rows) = dedent rows := by
  refine ⟨fun first rest => ?_, dedent_dedent⟩
  calc reindent (indentWidth first) (dedent (first :: rest)) = first :: rest
      ↔ (first :: rest).map (putBack (indentWidth first)) = first :: rest := by
        rw [dedent, reindent_map_drop]
    _ ↔ ∀ row ∈ first :: rest, putBack (indentWidth first) row = row := by
        conv_lhs => rhs; rw [← List.map_id (first :: rest)]
        exact List.map_inj_left
    _ ↔ _ := by simp only [putBack_eq_iff]

/-- A first row of nothing but blanks is lost, although its own indentation is what is measured. -/
example : reindent 2 (dedent ["  ".toList, "  x".toList]) = [[], "  x".toList] := by decide

end BlockSpec
