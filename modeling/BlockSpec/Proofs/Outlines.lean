import BlockSpec.Proofs.Arena
import BlockSpec.Proofs.Quoting
import BlockSpec.Tree.Outline

/-! # The outline, row by row

The outline of a tree has a row for every block but the file's own, in the order of the blocks. The
walk that writes it counts how deep it is, and that count is the number of ancestors, so a row stands
two spaces further right for every scope around its block:

    describe "A" (line 1, 0 code lines)        block 1, inside the file
      context "B" (line 2, 0 code lines)       block 2, inside block 1
        it "x" (line 3, 1 code line)           block 3, inside blocks 2 and 1
      it "y" (line 4, 1 code line)             block 4, inside block 1

Labels are quoted, so no label breaks a row, and a row tells everything that is written on it: how
many scopes are around the block, its kind, its label, its line and how much code it holds. -/

namespace BlockSpec

/-! ### What a row tells -/

theorem Text.spaces_append_inj {m n : Nat} {s t : Text} (hs : s.head? ≠ some ' ')
    (ht : t.head? ≠ some ' ') (h : spaces m ++ s = spaces n ++ t) : m = n ∧ s = t := by
  simp only [spaces] at h
  induction m generalizing n with
  | zero =>
    cases n with
    | zero => exact ⟨rfl, h⟩
    | succ n => exact absurd (by rw [← List.nil_append s]; exact congrArg List.head? h) hs
  | succ m ih =>
    cases n with
    | zero => exact absurd (by rw [← List.nil_append t]; exact congrArg List.head? h.symm) ht
    | succ n =>
      rw [List.replicate_succ, List.replicate_succ, List.cons_append, List.cons_append,
        List.cons.injEq] at h
      obtain ⟨rfl, hst⟩ := ih h.2
      exact ⟨rfl, hst⟩

namespace Kind

theorem keyword_injective {k l : Kind} (h : k.keyword = l.keyword) : k = l := by
  cases k <;> cases l <;> first | rfl | exact absurd h (by decide)

/-- Keywords are made of letters. -/
theorem not_mem_keyword {c : Char} (hc : c.isAlpha = false) (k : Kind) :
    c ∉ k.keyword.toList := by
  have hletters : k.keyword.toList.all Char.isAlpha = true := by
    cases k <;> decide
  intro hmem
  rw [List.all_eq_true.mp hletters c hmem] at hc
  cases hc

end Kind

namespace Text

/-- Numbers are made of digits. -/
theorem not_mem_ofNat {c : Char} (hc : c.isDigit = false) (n : Nat) : c ∉ ofNat n := by
  intro hmem
  rw [Nat.isDigit_of_mem_toDigits (by decide) (by decide) hmem] at hc
  cases hc

/-- A number ends where its digits end. -/
theorem ofNat_append_inj {m n : Nat} {sep : Char} (hsep : sep.isDigit = false) {s t : Text}
    (h : ofNat m ++ sep :: s = ofNat n ++ sep :: t) : m = n ∧ s = t := by
  obtain ⟨hnumber, hrest⟩ :=
    append_cons_inj_of_not_mem_front (not_mem_ofNat hsep m) (not_mem_ofNat hsep n) h
  exact ⟨ofNat_injective hnumber, hrest⟩

end Text

namespace Block

variable {b c : Block}

/-- The description of a block, cut behind the blanks and the comma that part it. -/
theorem summary_eq (b : Block) : b.summary =
    b.kind.keyword.toList ++ ' ' :: (Text.quoted b.uniqueLabel ++ (" (line ".toList ++
      (Text.ofNat b.line ++ ',' :: ' ' :: (Text.ofNat b.body.length ++ ' ' :: ("code line".toList ++
        (if b.body.length = 1 then [] else ['s']) ++ ")".toList))))) := by
  simp [summary]

/-- The description tells the kind, the label, the line and the amount of code. -/
theorem summary_inj (h : b.summary = c.summary) :
    b.kind = c.kind ∧ b.uniqueLabel = c.uniqueLabel ∧ b.line = c.line ∧
      b.body.length = c.body.length := by
  rw [summary_eq, summary_eq] at h
  obtain ⟨hkind, h⟩ := append_cons_inj_of_not_mem_front
    (Kind.not_mem_keyword (by decide) b.kind) (Kind.not_mem_keyword (by decide) c.kind) h
  obtain ⟨hlabel, h⟩ := Text.quoted_append_inj h
  obtain ⟨hline, h⟩ := Text.ofNat_append_inj (by decide) (List.append_cancel_left h)
  obtain ⟨hcode, -⟩ := Text.ofNat_append_inj (by decide) (List.cons.inj h).2
  exact ⟨Kind.keyword_injective (String.toList_injective hkind), hlabel, hline, hcode⟩

theorem head?_summary (b : Block) : b.summary.head? ≠ some ' ' := by
  have hkeyword : ∀ k : Kind, ∀ rest : Text, (k.keyword.toList ++ rest).head? ≠ some ' ' := by
    intro k rest
    cases k <;> simp [Kind.keyword]
  rw [summary_eq]
  exact hkeyword b.kind _

/-- Whatever the label holds, the description stands on one line. -/
theorem newline_not_mem_summary (b : Block) : '\n' ∉ b.summary := by
  have hkeyword : '\n' ∉ b.kind.keyword.toList := Kind.not_mem_keyword (by decide) b.kind
  have hnumber : ∀ n, '\n' ∉ Text.ofNat n := Text.not_mem_ofNat (by decide)
  have hplural : '\n' ∉ (if b.body.length = 1 then [] else ['s']) := by
    split <;> decide
  simp [summary, hkeyword, Text.newline_not_mem_quoted, hnumber, hplural]

end Block

/-! ### The walk and its depth -/

namespace Tree

variable {t : Tree} {i : Nat}

/-- How many scopes are around a block: its ancestors but for the file. -/
def scopesAround (t : Tree) (i : Nat) : Nat := ((t.ancestors i).filter (· ≠ 0)).length

namespace Nested

/-- A block has one ancestor more than its parent, so the walk goes as much deeper as there are more
ancestors. -/
theorem depth_of_mem_walkWithin (ht : t.Nested) : ∀ (n depth i : Nat) {d j : Nat},
    (d, j) ∈ t.walkWithin n depth i →
      d + (t.ancestors i).length = depth + (t.ancestors j).length := by
  intro n
  induction n with
  | zero => intro depth i d j h; simp [walkWithin] at h
  | succ n ih =>
    intro depth i d j h
    rw [walkWithin, List.mem_cons, List.mem_flatMap] at h
    rcases h with h | ⟨c, hc, h⟩
    · obtain ⟨rfl, rfl⟩ := Prod.mk.inj h
      rfl
    · have hchild := ht.ancestors_of_parent (ht.mem_children.mp hc)
      have hdeeper := ih (depth + 1) c h
      rw [hchild, List.length_cons] at hdeeper
      omega

/-- The walk meets every block once, in order, at the depth of its ancestors. -/
theorem walk_eq (ht : t.Nested) :
    t.walk = (List.range t.size).map fun i => ((t.ancestors i).length, i) := by
  have hdepth : ∀ p ∈ t.walk, ((t.ancestors p.2).length, p.2) = p := by
    rintro ⟨d, j⟩ hp
    have hfile := ancestors_of_parent_none ht.root_parent
    have := ht.depth_of_mem_walkWithin t.size 0 0 hp
    rw [hfile, List.length_nil] at this
    have hlength : (t.ancestors j).length = d := by omega
    simp only [hlength]
  calc t.walk = t.walk.map fun p => ((t.ancestors p.2).length, p.2) := by
        rw [List.map_congr_left hdepth, List.map_id']
    _ = (t.walk.map (·.2)).map fun i => ((t.ancestors i).length, i) := by
        rw [List.map_map]; rfl
    _ = _ := by rw [ht.walk_ids]

/-- Exactly one ancestor of a block is the file. -/
theorem length_ancestors (ht : t.Nested) (hpos : 0 < i) (hi : i < t.size) :
    (t.ancestors i).length = t.scopesAround i + 1 := by
  revert hpos
  refine ht.up_induction (P := fun i => 0 < i → (t.ancestors i).length = t.scopesAround i + 1)
    ?_ ?_ i hi
  · intro hpos
    exact absurd hpos (Nat.lt_irrefl 0)
  · intro i p hp ih _
    rw [scopesAround, ht.ancestors_of_parent hp]
    rcases Nat.eq_zero_or_pos p with rfl | hpos
    · simp [ancestors_of_parent_none ht.root_parent]
    · simp [ih hpos, hpos.ne', scopesAround]

end Nested

/-! ### The outline -/

/-- The row of a block. -/
def rowOf (t : Tree) (i : Nat) : Text := Text.spaces (2 * t.scopesAround i) ++ (t.block i).summary

/-- The outline lists the blocks behind the file's own. -/
theorem Nested.outline_eq (ht : t.Nested) :
    t.outline = Text.ofLines ((List.range (t.size - 1)).map fun k => t.rowOf (k + 1)) := by
  obtain ⟨n, hn⟩ : ∃ n, t.size = n + 1 := ⟨t.size - 1, by have := ht.size_pos; omega⟩
  have hothers : (t.walk.filter fun p => p.2 ≠ 0) =
      (List.range n).map fun k => ((t.ancestors (k + 1)).length, k + 1) := by
    rw [ht.walk_eq, hn, List.range_succ_eq_map, List.map_cons, List.map_map,
      List.filter_cons_of_neg (by simp), List.filter_eq_self.mpr]
    · rfl
    · intro p hp
      obtain ⟨k, -, rfl⟩ := List.mem_map.mp hp
      simp
  have hrow : ∀ k ∈ List.range n,
      t.outlineRow (t.ancestors (k + 1)).length (k + 1) = t.rowOf (k + 1) := by
    intro k hk
    have hlt := List.mem_range.mp hk
    rw [outlineRow, ht.length_ancestors k.succ_pos (by omega), Nat.add_sub_cancel]
    rfl
  calc t.outline
      = Text.ofLines ((t.walk.filter fun p => p.2 ≠ 0).map fun p => t.outlineRow p.1 p.2) := rfl
    _ = Text.ofLines ((List.range n).map fun k => t.rowOf (k + 1)) := by
        rw [hothers, List.map_map, ← List.map_congr_left hrow]
        rfl
    _ = _ := by rw [hn, Nat.add_sub_cancel]

/-- What the outline of a tree says, given its rows. -/
structure Outlines (t : Tree) (rows : List Text) : Prop where
  /-- The rows are lines, and each is ended. -/
  text : t.outline = Text.ofLines rows
  single : ∀ row ∈ rows, '\n' ∉ row
  /-- There is a row for every block but the file's. -/
  length : rows.length + 1 = t.size
  /-- Each stands two spaces further right for every ancestor that is not the file. -/
  row : ∀ k, 0 < k → k < t.size →
    rows[k - 1]? = some (Text.spaces (2 * t.scopesAround k) ++ (t.block k).summary)
  /-- It tells how many these are, and the kind, label, line and amount of code of the block. -/
  tells : ∀ k, 0 < k → k < t.size → ∀ (n : Nat) (b : Block),
    rows[k - 1]? = some (Text.spaces (2 * n) ++ b.summary) →
      n = t.scopesAround k ∧ b.kind = (t.block k).kind ∧
        b.uniqueLabel = (t.block k).uniqueLabel ∧ b.line = (t.block k).line ∧
        b.body.length = (t.block k).body.length
  /-- Only the file is met at depth zero. -/
  depth_pos : ∀ depth i, (depth, i) ∈ t.walk → i ≠ 0 → 0 < depth

theorem Nested.outlines (ht : t.Nested) :
    t.Outlines ((List.range (t.size - 1)).map fun k => t.rowOf (k + 1)) where
  text := ht.outline_eq
  single := by
    intro row hrow
    obtain ⟨k, -, rfl⟩ := List.mem_map.mp hrow
    simp [rowOf, Text.spaces, Block.newline_not_mem_summary]
  length := by
    have := ht.size_pos
    rw [List.length_map, List.length_range]
    omega
  row k hpos hk := by
    obtain ⟨k, rfl⟩ := Nat.exists_eq_add_of_lt hpos
    simp [rowOf, List.getElem?_range (show k < t.size - 1 by omega)]
  tells k hpos hk n b hrow := by
    obtain ⟨k, rfl⟩ := Nat.exists_eq_add_of_lt hpos
    simp only [Nat.zero_add, Nat.add_sub_cancel, List.getElem?_map,
      List.getElem?_range (show k < t.size - 1 by omega), Option.map_some, Option.some.injEq,
      rowOf] at hrow ⊢
    obtain ⟨hspaces, hsummary⟩ :=
      Text.spaces_append_inj (Block.head?_summary _) b.head?_summary hrow
    obtain ⟨hkind, hlabel, hline, hcode⟩ := Block.summary_inj hsummary
    exact ⟨by omega, hkind.symm, hlabel.symm, hline.symm, hcode.symm⟩
  depth_pos depth i hmem hi := by
    rw [ht.walk_eq, List.mem_map] at hmem
    obtain ⟨j, hj, heq⟩ := hmem
    obtain ⟨rfl, rfl⟩ := Prod.mk.inj heq
    rw [ht.length_ancestors (Nat.pos_of_ne_zero hi) (List.mem_range.mp hj)]
    exact Nat.succ_pos _

end Tree

/-- Whatever its labels hold, a spec that can be read has an outline with a row for every block,
which describes the block and is indented by the scopes around it. -/
theorem parse_outlines {source : Text} {seed : Digest} {t : Tree} (h : parse source seed = .ok t) :
    ∃ rows, t.Outlines rows := by
  obtain ⟨ht, -⟩ := Parser.nested_and_legal_of_parse h
  exact ⟨_, ht.outlines⟩

/-- A spec whose labels hold a backslash, an accent of its own, a line separator and a tab. -/
def strangeSpec : Text :=
  ("describe \"A\\\":\n    before \"e\u0301\": pass\n    context \"B\u2028C\":\n" ++
    "        it \"\tx\": pass\n        assert True\n  it \"y\": pass\n").toList

theorem parse_outlines_strange :
    ∃ t, parse strangeSpec (Vector.replicate 32 7) = .ok t ∧ t.size = 6 ∧
      ∃ rows, t.Outlines rows := by
  have hsize : (parse strangeSpec (Vector.replicate 32 7)).map Tree.size = .ok 6 := by
    decide +kernel
  obtain ⟨t, h, hsize⟩ := exists_of_map_eq_ok hsize
  exact ⟨t, h, hsize, parse_outlines h⟩

end BlockSpec
