import BlockSpec.Proofs.Copying
import BlockSpec.Proofs.Partition
import Mathlib.Data.List.Pairwise

/-! # No line lost, no line twice

Every line that the blocks keep has a number of its own, so the rows of a module can be counted by
the lines they copy. A copied row remembers its line; a line of which only blanks are left is an
empty row of the module, and is known by its place in its body.

    module   code of the file │ class of a unit │ class of a unit │ …
    class    decorators and code of the blocks that the unit holds

Up to order, the lines that a class copies are those of the blocks that its unit holds, so counting
lines is counting blocks: a class has a line of a block once if it holds the block and else not at
all, and the module has it as often as there are such classes. -/

namespace BlockSpec

/-! ### How often a block is copied -/

namespace Tree

variable {t : Tree} {b : Nat} {unit : TestUnit}

end Tree

namespace Parser.Ledger

variable {rows : List CodeLine} {t : Tree} {b c n : Nat}

end Parser.Ledger

/-! ### Rows with their lines -/

/-- The line of the spec that a row remembers. -/
def Row.line? : Row → Option Nat
  | plain _ => none
  | copied _ _ line => some line

@[simp] theorem Row.line?_plain (text : Text) : (plain text).line? = none := rfl

@[simp] theorem Row.line?_padded (width : Nat) (text : Text) : (padded width text).line? = none :=
  rfl

@[simp] theorem Row.line?_blank : blank.line? = none := rfl

theorem Row.IsRemark.line? {row : Row} (h : row.IsRemark) : row.line? = none := by
  obtain ⟨rest, rfl | rfl⟩ := h <;> rfl

namespace TestModule

/-- A row of a module and the line of the spec that it copies; none for the library's own rows. -/
structure Sourced where
  row : Row
  line : Option Nat

/-- The rows of a piece with their lines. Code has a row for each line of its body. -/
def Piece.sourced (t : Tree) : Piece → List Sourced
  | own rows => rows.map fun row => ⟨row, row.line?⟩
  | code width owner =>
    List.zipWith (fun row line => ⟨row, some line.line⟩) (codeRows width (t.block owner))
      (t.block owner).body

/-- The rows of a module with their lines. -/
def sourced (t : Tree) (options : Options) : List Sourced :=
  (pieces t options).flatMap (Piece.sourced t)

/-- The lines that rows copy. -/
def copiedLines (rows : List Sourced) : List Nat := rows.filterMap (·.line)

variable {t : Tree} {options : Options} {unit : TestUnit}

theorem sourced_code (width owner : Nat) : (Piece.code width owner).sourced t =
    (t.block owner).body.map fun row =>
      ⟨if Text.allBlank (row.text.drop (t.block owner).cut) then .blank
        else .copied width (row.text.drop (t.block owner).cut) row.line, some row.line⟩ := by
  rw [Piece.sourced, codeRows_eq, List.zipWith_map_left, List.zipWith_self]

theorem map_row_sourced (p : Piece) : (p.sourced t).map (·.row) = p.rows t := by
  cases p with
  | own rows => simp [Piece.sourced, Piece.rows, Function.comp_def]
  | code width owner =>
    rw [sourced_code, Piece.rows, codeRows_eq, List.map_map]; rfl

theorem map_row_flatMap_sourced (ps : List Piece) :
    (ps.flatMap (Piece.sourced t)).map (·.row) = ps.flatMap (Piece.rows t) := by
  rw [List.map_flatMap]
  exact List.flatMap_congr fun p _ => map_row_sourced p

/-! ### The lines that are copied -/

theorem filterMap_line?_dispatcherRows (name : String) (calls : List Text) :
    (dispatcherRows name calls).filterMap Row.line? = [] := by
  rw [List.filterMap_eq_nil_iff]
  unfold dispatcherRows
  split <;> simp [passRow, or_imp, forall_and]

theorem filterMap_line?_dispatchers (t : Tree) (c : TestClass) :
    (dispatchers t c).filterMap Row.line? = [] := by
  rw [dispatchers, List.filterMap_append, filterMap_line?_dispatcherRows, List.nil_append]
  split
  · rfl
  · exact filterMap_line?_dispatcherRows _ _

theorem filterMap_line?_openingRows (options : Options) :
    (openingRows options).filterMap Row.line? = [] :=
  List.filterMap_eq_nil_iff.mpr fun _ hrow => (isRemark_of_mem_openingRows hrow).line?

/-- A row copies a decorator: with all its text. -/
def CopiesDecorator (row : Row) (line : CodeLine) : Prop :=
  ∃ width, row = .copied width line.text line.line

/-- A row copies a line of code: less what is cut off, and empty if only blanks are left. -/
def CopiesBody (b : Block) (row : Row) (line : CodeLine) : Prop :=
  (Text.allBlank (line.text.drop b.cut) = true ∧ row = .blank) ∨
    (Text.allBlank (line.text.drop b.cut) = false ∧
      ∃ width, row = .copied width (line.text.drop b.cut) line.line)

/-- A row copies the line with a number: a decorator or a line of code of some block. -/
def IsCopy (t : Tree) (row : Row) (n : Nat) : Prop :=
  ∃ b, (∃ line ∈ (t.block b).decorators, line.line = n ∧ CopiesDecorator row line) ∨
    ∃ line ∈ (t.block b).body, line.line = n ∧ CopiesBody (t.block b) row line

/-- Rows of a piece that are no code are the library's own or decorators. -/
def Piece.Honest (t : Tree) : Piece → Prop
  | own rows => ∀ row ∈ rows, row.line? = none ∨ ∃ width b, row ∈ decoratorRows width (t.block b)
  | code _ _ => True

theorem honest_own {rows : List Row} (h : rows.filterMap Row.line? = []) :
    (Piece.own rows).Honest t :=
  fun row hrow => Or.inl (List.filterMap_eq_nil_iff.mp h row hrow)

theorem honest_of_mem_methodPieces {m : Method} {p : Piece} (hp : p ∈ methodPieces t m) :
    p.Honest t := by
  simp only [methodPieces, List.mem_cons, List.not_mem_nil, or_false] at hp
  rcases hp with rfl | rfl | rfl
  · intro row hrow
    rcases List.mem_append.mp hrow with hrow | hrow
    · rcases List.mem_append.mp hrow with hrow | hrow
      · exact Or.inr ⟨_, _, hrow⟩
      · rw [List.mem_singleton.mp hrow]; exact Or.inl rfl
    · split at hrow
      · rw [List.mem_singleton.mp hrow]; exact Or.inl rfl
      · cases hrow
  · exact trivial
  · exact honest_own rfl

theorem honest_of_mem_classPieces {baseClass : Text} {c : TestClass} {p : Piece}
    (hp : p ∈ classPieces t baseClass c) : p.Honest t := by
  simp only [classPieces, List.mem_append, List.mem_flatMap, List.mem_singleton] at hp
  rcases hp with (((((rfl | ⟨i, -, hp⟩) | ⟨m, -, hp⟩) | ⟨m, -, hp⟩) | rfl) | ⟨m, -, hp⟩)
  · intro row hrow
    rcases List.mem_append.mp hrow with hrow | hrow
    · rcases List.mem_append.mp hrow with hrow | hrow
      · simp only [List.mem_cons, List.not_mem_nil, or_false, or_self] at hrow
        rw [hrow]; exact Or.inl rfl
      · obtain ⟨i, -, hrow⟩ := List.mem_flatMap.mp hrow
        exact Or.inr ⟨_, _, hrow⟩
    · rw [List.mem_singleton.mp hrow]; exact Or.inl rfl
  · simp only [scopePieces, List.mem_cons, List.not_mem_nil, or_false] at hp
    rcases hp with rfl | rfl
    · exact trivial
    · exact honest_own (by split <;> rfl)
  · exact honest_of_mem_methodPieces hp
  · exact honest_of_mem_methodPieces hp
  · exact honest_own (filterMap_line?_dispatchers t c)
  · exact honest_of_mem_methodPieces hp

theorem honest_of_mem_pieces {p : Piece} (hp : p ∈ pieces t options) : p.Honest t := by
  simp only [pieces, List.mem_append, List.mem_cons, List.not_mem_nil, or_false,
    List.mem_flatMap] at hp
  rcases hp with ((rfl | rfl) | ⟨c, -, hp⟩) | rfl
  · exact honest_own (filterMap_line?_openingRows options)
  · exact trivial
  · exact honest_of_mem_classPieces hp
  · exact honest_own rfl

/-- Rows are sourced from the lines that they copy, and the library's own rows from none. -/
theorem isCopy_of_mem_sourced {r : Sourced} (hr : r ∈ sourced t options) :
    (r.line = none → ∃ text, r.row = .plain text) ∧ ∀ n, r.line = some n → IsCopy t r.row n := by
  obtain ⟨p, hp, hr⟩ := List.mem_flatMap.mp hr
  cases p with
  | own rows =>
    obtain ⟨row, hrow, rfl⟩ := List.mem_map.mp hr
    rcases honest_of_mem_pieces hp row hrow with hnone | ⟨width, b, hdecorator⟩
    · refine ⟨fun _ => ?_, fun n hn => ?_⟩
      · cases row with
        | plain text => exact ⟨text, rfl⟩
        | copied width text line => cases hnone
      · rw [show row.line? = some n from hn] at hnone; cases hnone
    · obtain ⟨line, hline, rfl⟩ := List.mem_map.mp hdecorator
      refine ⟨fun hn => (by cases hn), fun n hn => ?_⟩
      exact ⟨b, Or.inl ⟨line, hline, Option.some.inj hn, width, rfl⟩⟩
  | code width owner =>
    rw [sourced_code] at hr
    obtain ⟨line, hline, rfl⟩ := List.mem_map.mp hr
    refine ⟨fun hn => (by cases hn), fun n hn => ⟨owner, Or.inr ⟨line, hline, Option.some.inj hn, ?_⟩⟩⟩
    unfold CopiesBody
    cases Text.allBlank (line.text.drop (t.block owner).cut) with
    | true => exact Or.inl ⟨rfl, rfl⟩
    | false => exact Or.inr ⟨rfl, width, rfl⟩

/-! ### Nothing lost, nothing twice -/

variable {rows : List CodeLine} {b n : Nat}

end TestModule

end BlockSpec
