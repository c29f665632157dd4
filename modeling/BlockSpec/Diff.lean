import BlockSpec.Text.Basic

/-! # Differences between texts

Two texts are compared line by line. A longest common subsequence of their lines is found with the
usual table and walked back from the end; the lines of both texts are then told apart by whether
they are the next common line. The common lines pass through one text on the way, so a single empty
common line is no common line. -/

namespace BlockSpec

namespace Diff

/-- One row of the table of lengths, given the row above and the cells to the left and above left:
for each line of the second text the length of a longest common subsequence up to there. -/
def row (line : Text) : Nat → Nat → List Nat → List Text → List Nat
  | left, corner, above :: aboves, b :: bs =>
    let cell := if line = b then corner + 1 else max left above
    cell :: row line cell above aboves bs
  | _, _, _, _ => []

/-- The rows of the table, the first text's lines from top to bottom. -/
def table (above : List Nat) (bs : List Text) : List Text → List (List Nat)
  | [] => []
  | a :: as =>
    let next := row a 0 0 above bs
    next :: table next bs as

/-- Walks back through the table from the cell `(i - 1, j - 1)`. Equal lines are taken; otherwise
the way goes to the longer of the cells to the left and above, the one above on a tie. To the left of
the first column counts the last cell of the row above. The lines come out last to first. -/
def walk (as bs : Array Text) (cell : Nat → Nat → Nat) (i j : Nat) : List Text :=
  match i, j with
  | 0, _ => []
  | _, 0 => []
  | i + 1, j + 1 =>
    let a := as.getD i []
    if a = bs.getD j [] then a :: walk as bs cell i j
    else if i = 0 then if j = 0 then [] else walk as bs cell (i + 1) j
    else
      let left := if j = 0 then cell (i - 1) (bs.size - 1) else cell i (j - 1)
      if left > cell (i - 1) j then walk as bs cell (i + 1) j else walk as bs cell i (j + 1)
termination_by i + j

/-- The common lines of two texts. -/
def common (as bs : List Text) : List Text :=
  let cells := ((table (bs.map fun _ => 0) bs as).map List.toArray).toArray
  let cell (i j : Nat) : Nat := (cells.getD i #[]).getD j 0
  (walk as.toArray bs.toArray cell as.length bs.length).reverse

/-- A run of lines that both texts share, or that only one of them has. -/
inductive Chunk where
  | same (rows : List Text)
  | removed (rows : List Text)
  | added (rows : List Text)
  deriving DecidableEq, Repr

/-- How many lines three lists start with in common. -/
def sharedLength : List Text → List Text → List Text → Nat
  | a :: as, b :: bs, c :: cs => if a = b && a = c then sharedLength as bs cs + 1 else 0
  | _, _, _ => 0

/-- The lines up to the next common one, and the rest. -/
def upTo (next : Option Text) (rows : List Text) : List Text × List Text :=
  rows.span fun r => some r != next

/-- Tells the lines of two texts apart, given the common ones. Every round uses up a line, so their
number bounds the rounds. -/
def merge : Nat → List Text → List Text → List Text → List Chunk
  | 0, _, _, _ => []
  | fuel + 1, as, bs, cs =>
    if as.isEmpty && bs.isEmpty then []
    else
      let n := sharedLength as bs cs
      let next := (cs.drop n).head?
      let (gone, as') := upTo next (as.drop n)
      let (new, bs') := upTo next (bs.drop n)
      (if n = 0 then [] else [.same (as.take n)]) ++
        (if gone.isEmpty then [] else [.removed gone]) ++
        (if new.isEmpty then [] else [.added new]) ++
        merge fuel as' bs' (cs.drop n)

/-- The lines of a text between its newlines; an empty text has none. -/
def rowsOf (t : Text) : List Text := if t.isEmpty then [] else Text.pieces '\n' t

end Diff

/-- The differences between an existing text and the expected one. -/
def diff (existing expected : Text) : List Diff.Chunk :=
  let shared := Text.joinWith ['\n']
    (Diff.common (Text.pieces '\n' existing) (Text.pieces '\n' expected))
  let as := Diff.rowsOf existing
  let bs := Diff.rowsOf expected
  Diff.merge (as.length + bs.length) as bs (Diff.rowsOf shared)

end BlockSpec
