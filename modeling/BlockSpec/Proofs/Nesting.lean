import BlockSpec.Proofs.Reading
import Mathlib.Data.List.Sort

/-! # Nested trees

A tree is *nested* when every block stands in the nearest earlier block that is indented less, and
the links down agree with the links up. That much fixes the whole shape:

    links up     parents come first, so the ancestors of a block fall strictly and end at the file
    search       walking up from a block finds the nearest earlier block below an indent
    no crossing  whatever stands between a block and its parent is inside that parent
    walk         visiting every block before its children meets the blocks in their order -/

namespace BlockSpec

namespace Tree

/-- The block at `p` is the nearest one before the block at `i` that is indented less. -/
structure Nearest (t : Tree) (i p : Nat) : Prop where
  lt : p < i
  indent_lt : (t.block p).indent < (t.block i).indent
  between : ∀ j, p < j → j < i → (t.block i).indent ≤ (t.block j).indent

/-- Every block but the file's stands in the nearest earlier block that is indented less, and the
children of a block are the blocks that name it as their parent. -/
structure Nested (t : Tree) : Prop where
  size_pos : 0 < t.size
  root_indent : (t.block 0).indent = -1
  root_parent : t.parent? 0 = none
  nearest : ∀ i, 0 < i → i < t.size → ∃ p, t.parent? i = some p ∧ t.Nearest i p
  children_eq : ∀ i, t.children i = (List.range t.size).filter fun j => t.parent? j = some i

variable {t : Tree} {i j p q : Nat}

theorem Nearest.unique (hp : t.Nearest i p) (hq : t.Nearest i q) : p = q := by
  rcases Nat.lt_trichotomy p q with hlt | rfl | hlt
  · exact absurd hq.indent_lt (not_lt.mpr (hp.between q hlt hq.lt))
  · rfl
  · exact absurd hp.indent_lt (not_lt.mpr (hq.between p hlt hp.lt))

/-- Looking at all earlier blocks, the last one first, finds the nearest one. -/
theorem Nearest.find?_reverse_range (hp : t.Nearest i p) :
    (List.range i).reverse.find? (fun j => (t.block j).indent < (t.block i).indent) = some p := by
  obtain ⟨m, hm⟩ := Nat.exists_eq_add_of_lt hp.lt
  have hrange : List.range i = List.range p ++ p :: (List.range m).map (p + 1 + ·) := by
    rw [hm, show p + m + 1 = p + 1 + m by omega, List.range_add, List.range_succ,
      List.append_assoc, List.singleton_append]
  have hnone : ((List.range m).map (p + 1 + ·)).reverse.find?
      (fun j => (t.block j).indent < (t.block i).indent) = none := by
    rw [List.find?_eq_none]
    intro j hj
    obtain ⟨k, hk, rfl⟩ := List.mem_map.mp (List.mem_reverse.mp hj)
    have hkm := List.mem_range.mp hk
    have := hp.between (p + 1 + k) (by omega) (by omega)
    simpa using this
  rw [hrange, List.reverse_append, List.reverse_cons, List.append_assoc, List.find?_append, hnone]
  simp [hp.indent_lt]

namespace Nested

theorem lt_size_of_parent (h : t.parent? i = some p) : i < t.size := by
  by_contra hi
  rw [parent?, block_of_size_le (Nat.le_of_not_lt hi)] at h
  cases h

theorem nearest_of_parent (ht : t.Nested) (h : t.parent? i = some p) : t.Nearest i p := by
  have hi : 0 < i := by
    by_contra h0
    rw [Nat.eq_zero_of_not_pos h0, ht.root_parent] at h
    cases h
  obtain ⟨p', hp', hn⟩ := ht.nearest i hi (lt_size_of_parent h)
  rw [h] at hp'
  cases hp'
  exact hn

theorem parent_lt (ht : t.Nested) (h : t.parent? i = some p) : p < i := (ht.nearest_of_parent h).lt

theorem mem_children (ht : t.Nested) : j ∈ t.children i ↔ t.parent? j = some i := by
  rw [ht.children_eq, List.mem_filter, List.mem_range, decide_eq_true_iff]
  exact ⟨fun h => h.2, fun h => ⟨lt_size_of_parent h, h⟩⟩

theorem children_sorted (ht : t.Nested) (i : Nat) : (t.children i).Pairwise (· < ·) := by
  rw [ht.children_eq]
  exact List.pairwise_lt_range.filter _

/-! ### The links up -/

/-- A bound on the way up that is not reached does not matter. -/
theorem ancestorsWithin_eq (ht : t.Nested) :
    ∀ {n m i : Nat}, i ≤ n → i ≤ m → t.ancestorsWithin n i = t.ancestorsWithin m i := by
  intro n
  induction n with
  | zero =>
    intro m i hn _
    obtain rfl : i = 0 := Nat.le_zero.mp hn
    cases m <;> simp [ancestorsWithin, ht.root_parent]
  | succ n ih =>
    intro m i hn hm
    cases hp : t.parent? i with
    | none => cases m <;> simp [ancestorsWithin, hp]
    | some p =>
      have hlt := ht.parent_lt hp
      obtain ⟨m, rfl⟩ : ∃ k, m = k + 1 := ⟨m - 1, by omega⟩
      have hup : t.ancestorsWithin n p = t.ancestorsWithin m p := ih (by omega) (by omega)
      simp only [ancestorsWithin, hp, hup]

theorem ancestors_of_parent (ht : t.Nested) (h : t.parent? i = some p) :
    t.ancestors i = p :: t.ancestors p := by
  have hi := lt_size_of_parent h
  have hlt := ht.parent_lt h
  obtain ⟨n, hn⟩ : ∃ n, t.size = n + 1 := ⟨t.size - 1, by omega⟩
  have hup : t.ancestorsWithin n p = t.ancestorsWithin (n + 1) p :=
    ht.ancestorsWithin_eq (by omega) (by omega)
  simp only [ancestors, hn, ancestorsWithin, h, hup]

theorem ancestors_of_parent_none (h : t.parent? i = none) : t.ancestors i = [] := by
  unfold ancestors
  cases t.size <;> simp [ancestorsWithin, h]

theorem lineage_of_parent (ht : t.Nested) (h : t.parent? i = some p) :
    t.lineage i = i :: t.lineage p := by
  rw [lineage, ht.ancestors_of_parent h, lineage]

theorem lineage_zero (ht : t.Nested) : t.lineage 0 = [0] := by
  rw [lineage, ancestors_of_parent_none ht.root_parent]

/-- What holds of the file, and of a block if it holds of its parent, holds of all blocks. -/
theorem up_induction (ht : t.Nested) {P : Nat → Prop} (file : P 0)
    (inside : ∀ i p, t.parent? i = some p → P p → P i) : ∀ i, i < t.size → P i := by
  intro i
  induction i using Nat.strong_induction_on with
  | _ i ih =>
    intro hi
    rcases Nat.eq_zero_or_pos i with rfl | hpos
    · exact file
    · obtain ⟨p, hp, hn⟩ := ht.nearest i hpos hi
      exact inside i p hp (ih p hn.lt (lt_trans hn.lt hi))

theorem le_of_mem_lineage (ht : t.Nested) (hi : i < t.size) (h : j ∈ t.lineage i) : j ≤ i := by
  revert h
  refine ht.up_induction (P := fun i => j ∈ t.lineage i → j ≤ i) ?_ ?_ i hi
  · rw [ht.lineage_zero]; simp
  · intro i p hp ih h
    rw [ht.lineage_of_parent hp, List.mem_cons] at h
    rcases h with rfl | h
    · exact le_rfl
    · exact le_trans (ih h) (ht.parent_lt hp).le

/-- The ancestors of a block fall strictly. -/
theorem lineage_sorted (ht : t.Nested) : ∀ i, i < t.size → (t.lineage i).Pairwise (· > ·) := by
  refine ht.up_induction ?_ ?_
  · rw [ht.lineage_zero]; exact List.pairwise_singleton _ _
  · intro i p hp ih
    rw [ht.lineage_of_parent hp]
    refine List.pairwise_cons.mpr ⟨fun j hj => ?_, ih⟩
    have hpi := ht.parent_lt hp
    exact lt_of_le_of_lt
      (ht.le_of_mem_lineage (lt_trans hpi (lt_size_of_parent hp)) hj) hpi

/-- The way up ends at the file. -/
theorem getLast?_lineage (ht : t.Nested) : ∀ i, i < t.size → (t.lineage i).getLast? = some 0 := by
  refine ht.up_induction ?_ ?_
  · rw [ht.lineage_zero]; rfl
  · intro i p hp ih
    rw [ht.lineage_of_parent hp, List.getLast?_cons, ih]; rfl

theorem zero_mem_lineage (ht : t.Nested) (hi : i < t.size) : 0 ∈ t.lineage i :=
  List.mem_of_getLast? (ht.getLast?_lineage i hi)

/-! ### Searching upwards -/

/-- Walking up from the block at `i` to the first block below an indent passes over no earlier block
below that indent, although it looks at ancestors only. -/
theorem find?_lineage (ht : t.Nested) {d : Int} (hd : -1 < d) : ∀ i, i < t.size →
    ∃ q, (t.lineage i).find? (fun j => (t.block j).indent < d) = some q ∧ q ≤ i ∧
      (t.block q).indent < d ∧ ∀ j, q < j → j ≤ i → d ≤ (t.block j).indent := by
  refine ht.up_induction ?_ ?_
  · refine ⟨0, ?_, le_rfl, by rw [ht.root_indent]; exact hd, by omega⟩
    simp [ht.lineage_zero, ht.root_indent, hd]
  · rintro i p hp ⟨q, hfind, hqp, hq, habove⟩
    have hn := ht.nearest_of_parent hp
    rw [ht.lineage_of_parent hp]
    by_cases hi : (t.block i).indent < d
    · exact ⟨i, by simp [hi], le_rfl, hi, by omega⟩
    · refine ⟨q, by simpa [hi] using hfind, le_trans hqp hn.lt.le, hq, fun j hqj hji => ?_⟩
      -- what lies between the block and its parent is indented no less than the block
      rcases Nat.lt_or_ge p j with hpj | hjp
      · rcases Nat.lt_or_eq_of_le hji with hlt | rfl
        · exact le_trans (not_lt.mp hi) (hn.between j hpj hlt)
        · exact not_lt.mp hi
      · exact habove j hqj hjp

/-- Only the file is indented as little as the file. -/
theorem neg_one_lt_indent (ht : t.Nested) (hpos : 0 < i) (hi : i < t.size) :
    -1 < (t.block i).indent := by
  have hle : ∀ j, j < t.size → -1 ≤ (t.block j).indent := by
    refine ht.up_induction ht.root_indent.ge fun j p hp ih => ?_
    exact le_trans ih (ht.nearest_of_parent hp).indent_lt.le
  obtain ⟨p, -, hn⟩ := ht.nearest i hpos hi
  exact lt_of_le_of_lt (hle p (lt_trans hn.lt hi)) hn.indent_lt

/-- The way up from the block just before a block leads to its parent. -/
theorem find?_lineage_pred (ht : t.Nested) (hi : t.parent? i = some p) :
    (t.lineage (i - 1)).find? (fun j => (t.block j).indent < (t.block i).indent) = some p := by
  have hn := ht.nearest_of_parent hi
  have hlt := lt_size_of_parent hi
  have hpos : 0 < i := lt_of_le_of_lt (Nat.zero_le p) hn.lt
  obtain ⟨q, hfind, hq, hindent, habove⟩ :=
    ht.find?_lineage (ht.neg_one_lt_indent hpos hlt) (i - 1) (by omega)
  have hnq : t.Nearest i q :=
    ⟨by omega, hindent, fun j hqj hji => habove j hqj (Nat.le_sub_one_of_lt hji)⟩
  rw [hfind, hn.unique hnq]

/-! ### The walk down -/

/-- Links do not cross: what stands between a block and its parent has its parent there too. -/
theorem parent_le_parent (ht : t.Nested) (hi : t.parent? i = some p) (hj : t.parent? j = some q)
    (hpj : p < j) (hji : j < i) : p ≤ q := by
  by_contra hqp
  have hni := ht.nearest_of_parent hi
  have hnj := ht.nearest_of_parent hj
  have h1 := hni.between j hpj hji
  have h2 := hnj.between p (not_le.mp hqp) hpj
  have h3 := hni.indent_lt
  omega

/-- Everything inside a block stands before the next block with the same parent. -/
theorem lt_of_mem_lineage_of_lt (ht : t.Nested) {c c' x : Nat} (hc : t.parent? c = some i)
    (hc' : t.parent? c' = some i) (hcc : c < c') (hx : x < t.size) (hmem : c ∈ t.lineage x) :
    x < c' := by
  have hic := ht.parent_lt hc
  revert hmem
  refine ht.up_induction (P := fun x => c ∈ t.lineage x → x < c') ?_ ?_ x hx
  · rw [ht.lineage_zero, List.mem_singleton]
    omega
  · intro x y hy ih hmem
    rw [ht.lineage_of_parent hy, List.mem_cons] at hmem
    rcases hmem with rfl | hmem
    · exact hcc
    · have hyc := ih hmem
      have hcy := ht.le_of_mem_lineage (lt_trans (ht.parent_lt hy) (lt_size_of_parent hy)) hmem
      by_contra hle
      rcases Nat.lt_or_eq_of_le (not_lt.mp hle) with hlt | rfl
      · have := ht.parent_le_parent hy hc' hyc hlt
        omega
      · rw [hc'] at hy
        cases hy
        omega

/-- The blocks inside the block at `i`, itself included, in order. -/
def descendants (t : Tree) (i : Nat) : List Nat :=
  (List.range t.size).filter fun j => i ∈ t.lineage j

theorem mem_descendants : j ∈ descendants t i ↔ j < t.size ∧ i ∈ t.lineage j := by
  simp [descendants]

theorem descendants_sorted (t : Tree) (i : Nat) : (descendants t i).Pairwise (· < ·) :=
  List.pairwise_lt_range.filter _

/-- What is inside a block is the block or inside one of its children. -/
theorem mem_lineage_iff (ht : t.Nested) (hi : i < t.size) : ∀ j, j < t.size →
    (i ∈ t.lineage j ↔ j = i ∨ ∃ c ∈ t.children i, c ∈ t.lineage j) := by
  refine ht.up_induction ?_ ?_
  · rw [ht.lineage_zero]
    simp only [List.mem_singleton, ht.mem_children]
    refine ⟨fun h => Or.inl h.symm, ?_⟩
    rintro (h | ⟨c, hc, rfl⟩)
    · exact h.symm
    · rw [ht.root_parent] at hc; cases hc
  · intro j p hp ih
    rw [ht.lineage_of_parent hp, List.mem_cons, ih]
    constructor
    · rintro (rfl | rfl | ⟨c, hc, hmem⟩)
      · exact Or.inl rfl
      · exact Or.inr ⟨j, ht.mem_children.mpr hp, List.mem_cons_self⟩
      · exact Or.inr ⟨c, hc, List.mem_cons_of_mem _ hmem⟩
    · rintro (rfl | ⟨c, hc, hmem⟩)
      · exact Or.inl rfl
      · rcases List.mem_cons.mp hmem with rfl | hmem
        · rw [ht.mem_children, hp] at hc
          cases hc
          exact Or.inr (Or.inl rfl)
        · exact Or.inr (Or.inr ⟨c, hc, hmem⟩)

/-- Listing a block and then what is inside its children, child by child, lists what is inside it
in order. -/
theorem cons_flatMap_descendants (ht : t.Nested) (hi : i < t.size) :
    i :: (t.children i).flatMap (descendants t) = descendants t i := by
  refine List.Pairwise.eq_of_mem_iff (r := (· < ·)) ?_ (descendants_sorted t i) fun j => ?_
  · refine List.pairwise_cons.mpr ⟨fun j hj => ?_, ?_⟩
    · obtain ⟨c, hc, hj⟩ := List.mem_flatMap.mp hj
      obtain ⟨hjs, hmem⟩ := mem_descendants.mp hj
      exact lt_of_lt_of_le (ht.parent_lt (ht.mem_children.mp hc)) (ht.le_of_mem_lineage hjs hmem)
    · rw [List.pairwise_flatMap]
      refine ⟨fun c _ => descendants_sorted t c, ?_⟩
      refine (ht.children_sorted i).imp_of_mem fun {c c'} hc hc' hlt x hx y hy => ?_
      obtain ⟨hxs, hx⟩ := mem_descendants.mp hx
      obtain ⟨hys, hy⟩ := mem_descendants.mp hy
      exact lt_of_lt_of_le
        (ht.lt_of_mem_lineage_of_lt (ht.mem_children.mp hc) (ht.mem_children.mp hc') hlt hxs hx)
        (ht.le_of_mem_lineage hys hy)
  · rw [List.mem_cons, List.mem_flatMap, mem_descendants]
    constructor
    · rintro (rfl | ⟨c, hc, hj⟩)
      · exact ⟨hi, List.mem_cons_self⟩
      · obtain ⟨hjs, hmem⟩ := mem_descendants.mp hj
        exact ⟨hjs, (ht.mem_lineage_iff hi j hjs).mpr (Or.inr ⟨c, hc, hmem⟩)⟩
    · rintro ⟨hjs, hmem⟩
      rcases (ht.mem_lineage_iff hi j hjs).mp hmem with rfl | ⟨c, hc, hmem⟩
      · exact Or.inl rfl
      · exact Or.inr ⟨c, hc, mem_descendants.mpr ⟨hjs, hmem⟩⟩

/-- The walk from a block meets what is inside it in order. -/
theorem walkWithin_ids (ht : t.Nested) : ∀ (n depth i : Nat), i < t.size → t.size ≤ n + i →
    (t.walkWithin n depth i).map (·.2) = descendants t i := by
  intro n
  induction n with
  | zero => intro depth i hi hn; omega
  | succ n ih =>
    intro depth i hi hn
    rw [walkWithin, List.map_cons, List.map_flatMap, ← ht.cons_flatMap_descendants hi]
    congr 1
    refine List.flatMap_congr fun c hc => ?_
    have hp := ht.mem_children.mp hc
    have := ht.parent_lt hp
    exact ih (depth + 1) c (lt_size_of_parent hp) (by omega)

/-- The walk through the tree meets every block once, in the order of their positions. -/
theorem walk_ids (ht : t.Nested) : t.walk.map (·.2) = List.range t.size := by
  rw [walk, ht.walkWithin_ids t.size 0 0 ht.size_pos le_rfl, descendants, List.filter_eq_self]
  intro j hj
  exact decide_eq_true (ht.zero_mem_lineage (List.mem_range.mp hj))

end Nested

end Tree

end BlockSpec
