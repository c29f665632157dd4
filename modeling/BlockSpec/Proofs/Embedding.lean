import BlockSpec.Proofs.Partition
import BlockSpec.Proofs.Suffixes
import Mathlib.Data.List.TakeWhile

/-! # Trees inside trees

The blocks of one tree may stand among those of another, at other positions and on other lines: `σ`
says where each of them is. The file's own block keeps its place but may have more inside it.

    t     0 ── 1 ── 2          t'    0 ── 1
                                      └── 2 ── 3          σ = 0, 2, 3

Whatever is found by following links from such a block is then found in the other tree too, moved
along `σ`: the scopes around it, what runs before and after its tests, and the units inside it. -/

namespace BlockSpec

/-- The block with its links at other positions and its lines further down. -/
def Block.moved (n : Nat) (σ : Nat → Nat) (b : Block) : Block :=
  { b.renumber (· + n) with
    children := b.children.map σ
    parent := b.parent.map σ }

theorem Block.moved_id (b : Block) : b.moved 0 id = b := by
  have hlines : b.renumber (· + 0) = b := b.renumber_id
  rw [moved, hlines, List.map_id, Option.map_id]
  rfl

/-- The unit at other positions. -/
def TestUnit.moved (σ : Nat → Nat) (unit : TestUnit) : TestUnit :=
  ⟨σ unit.scope, unit.tests.map σ⟩

/-- Where a class of elements ends does not depend on how they are named. -/
theorem takeWhile_dropWhile_map {α β : Type} {p : α → Bool} {q : β → Bool} {f : α → β} :
    ∀ {l : List α}, (∀ a ∈ l, q (f a) = p a) →
      (l.map f).takeWhile q = (l.takeWhile p).map f ∧ (l.map f).dropWhile q = (l.dropWhile p).map f
  | [], _ => ⟨rfl, rfl⟩
  | a :: l, h => by
    obtain ⟨ha, hl⟩ := List.forall_mem_cons.mp h
    obtain ⟨htake, hdrop⟩ := takeWhile_dropWhile_map hl
    cases hp : p a <;> simp [ha, hp, htake, hdrop]

namespace Tree

/-- The blocks of the first tree stand in the second one, the file's own apart. -/
structure Embeds (n : Nat) (σ : Nat → Nat) (t t' : Tree) : Prop where
  root : σ 0 = 0
  pos : ∀ i, 0 < i → 0 < σ i
  block : ∀ i, 0 < i → i < t.size → (t'.block (σ i)).unmarked = ((t.block i).moved n σ).unmarked

/-! ### The walk through the units -/

variable {t t' : Tree} {i j : Nat}

/-- A bound on the way down that is not reached does not matter. -/
theorem Nested.unitsWithin_eq (ht : t.Nested) : ∀ {n m i : Nat}, i < t.size → t.size ≤ n + i →
    t.size ≤ m + i → t.unitsWithin n i = t.unitsWithin m i := by
  intro n
  induction n with
  | zero => intro m i hi hn; omega
  | succ n ih =>
    intro m i hi hn hm
    obtain ⟨m, rfl⟩ : ∃ k, m = k + 1 := ⟨m - 1, by omega⟩
    have hinner : ∀ c ∈ t.children i, (if (t.kind c).isScope then t.unitsWithin n c else []) =
        if (t.kind c).isScope then t.unitsWithin m c else [] := by
      intro c hc
      have hp := ht.mem_children.mp hc
      have hlt := ht.parent_lt hp
      rw [ih (m := m) (Nested.lt_size_of_parent hp) (by omega) (by omega)]
    simp only [unitsWithin]
    rw [List.flatMap_congr fun c hc => hinner c ((List.takeWhile_sublist _).mem hc),
      List.flatMap_congr fun c hc => hinner c ((List.dropWhile_sublist _).mem hc)]

theorem Legal.kind_of_parent_zero (hl : t.Legal) (hp : t.parent? i = some 0) :
    t.kind i = .describe := by
  have hacc := hl.accepts i 0 hp
  rw [hl.root_kind] at hacc
  simpa [Kind.accepts, Kind.children, kind] using hacc

/-- Only scopes stand directly in the file, so its units are those of its scopes. -/
theorem units_eq_flatMap (ht : t.Nested) (hl : t.Legal) :
    t.units = (t.children 0).flatMap (t.unitsWithin (t.size - 1)) := by
  have hkind : ∀ c ∈ t.children 0, t.kind c = .describe := fun c hc =>
    hl.kind_of_parent_zero (ht.mem_children.mp hc)
  have htake : (t.children 0).takeWhile (fun j => t.kind j ≠ .test) = t.children 0 :=
    List.takeWhile_eq_self_iff.mpr fun c hc => by simp [hkind c hc]
  have hdrop : (t.children 0).dropWhile (fun j => t.kind j ≠ .test) = [] :=
    List.dropWhile_eq_nil_iff.mpr fun c hc => by simp [hkind c hc]
  have htests : t.tests 0 = [] :=
    List.filter_eq_nil_iff.mpr fun c hc => by simp [hkind c hc]
  obtain ⟨n, hn⟩ : ∃ n, t.size = n + 1 := ⟨t.size - 1, by have := ht.size_pos; omega⟩
  rw [units, hn, unitsWithin, htake, hdrop, htests, Nat.add_sub_cancel]
  simp only [List.isEmpty_nil, if_true, List.append_nil, List.flatMap_nil]
  exact List.flatMap_congr fun c hc => by rw [hkind c hc]; rfl

namespace Embeds

variable {n : Nat} {σ : Nat → Nat} (h : t.Embeds n σ t')
include h

/-! ### What the blocks have -/

theorem frame {α : Type} (g : Block → α) (hg : ∀ b : Block, g b.unmarked = g b) (hpos : 0 < i)
    (hi : i < t.size) : g (t'.block (σ i)) = g ((t.block i).moved n σ) := by
  rw [← hg, h.block i hpos hi, hg]

theorem kind (hpos : 0 < i) (hi : i < t.size) : t'.kind (σ i) = t.kind i :=
  h.frame Block.kind (fun _ => rfl) hpos hi

theorem nameOf (hpos : 0 < i) (hi : i < t.size) : t'.nameOf (σ i) = t.nameOf i :=
  h.frame (fun b => snake b.label) (fun _ => rfl) hpos hi

theorem indent (hpos : 0 < i) (hi : i < t.size) : (t'.block (σ i)).indent = (t.block i).indent :=
  h.frame Block.indent (fun _ => rfl) hpos hi

theorem parent? (hpos : 0 < i) (hi : i < t.size) : t'.parent? (σ i) = (t.parent? i).map σ :=
  h.frame Block.parent (fun _ => rfl) hpos hi

theorem children (hpos : 0 < i) (hi : i < t.size) : t'.children (σ i) = (t.children i).map σ :=
  h.frame Block.children (fun _ => rfl) hpos hi

/-! ### Upwards -/

theorem lineage (ht : t.Nested) (ht' : t'.Nested) :
    ∀ i, i < t.size → t'.lineage (σ i) = (t.lineage i).map σ := by
  refine ht.up_induction ?_ fun i p hp ih => ?_
  · rw [h.root, ht'.lineage_zero, ht.lineage_zero, List.map_singleton, h.root]
  · have hpos : 0 < i := lt_of_le_of_lt (Nat.zero_le p) (ht.parent_lt hp)
    have hup : t'.parent? (σ i) = some (σ p) := by
      rw [h.parent? hpos (Nested.lt_size_of_parent hp), hp]; rfl
    rw [ht'.lineage_of_parent hup, ih, ht.lineage_of_parent hp, List.map_cons]

theorem scopeChain (ht : t.Nested) (ht' : t'.Nested) (hi : i < t.size) :
    t'.scopeChain (σ i) = (t.scopeChain i).map σ := by
  have hzero : ∀ j, (decide (σ j ≠ 0)) = decide (j ≠ 0) := by
    intro j
    rcases Nat.eq_zero_or_pos j with rfl | hj
    · rw [h.root]
    · have := h.pos j hj
      simp [Nat.ne_of_gt hj, Nat.ne_of_gt this]
  simp only [Tree.scopeChain, h.lineage ht ht' i hi, List.filter_map, Function.comp_def, hzero,
    List.map_reverse]

/-! ### What runs before and after the tests -/

theorem declare {earlier : List Nat} (hearlier : ∀ k ∈ earlier, 0 < k ∧ k < t.size)
    (hpos : 0 < j) (hj : j < t.size) :
    t'.declare (earlier.map σ) (σ j) = (t.declare earlier j).map σ := by
  simp only [Tree.declare, h.kind hpos hj]
  cases t.kind j with
  | before => simp
  | binding =>
    have hfilter : earlier.filter ((fun i => !(t'.kind i = .binding &&
        t'.nameOf i == t'.nameOf (σ j))) ∘ σ) = earlier.filter fun i =>
          !(t.kind i = .binding && t.nameOf i == t.nameOf j) := by
      refine List.filter_congr fun k hk => ?_
      obtain ⟨hkpos, hk⟩ := hearlier k hk
      simp only [Function.comp_apply, h.kind hkpos hk, h.nameOf hkpos hk, h.nameOf hpos hj]
    simp only [List.filter_map, hfilter, List.map_append, List.map_singleton]
  | _ => rfl

theorem foldl_declare {js : List Nat} (hjs : ∀ k ∈ js, 0 < k ∧ k < t.size) :
    (js.map σ).foldl t'.declare [] = (js.foldl t.declare []).map σ := by
  induction js using List.reverseRecOn with
  | nil => rfl
  | append_singleton js j ih =>
    have hbefore : ∀ k ∈ js, 0 < k ∧ k < t.size := fun k hk => hjs k (List.mem_append_left _ hk)
    obtain ⟨hpos, hj⟩ := hjs j (by simp)
    rw [List.map_append, List.map_singleton, List.foldl_concat, ih hbefore, List.foldl_concat]
    exact h.declare (fun k hk => hbefore k ((foldl_declare_sublist t js).mem hk)) hpos hj

section Nested

variable (ht : t.Nested)
include ht

omit h in
theorem inside_of_mem_children {c : Nat} (hc : c ∈ t.children i) : 0 < c ∧ c < t.size := by
  have hp := ht.mem_children.mp hc
  exact ⟨lt_of_le_of_lt (Nat.zero_le i) (ht.parent_lt hp), Nested.lt_size_of_parent hp⟩

omit h in
theorem inside_of_mem_scopeChain (hi : i < t.size) (hj : j ∈ t.scopeChain i) :
    0 < j ∧ j < t.size := by
  obtain ⟨hline, hne⟩ := mem_scopeChain.mp hj
  exact ⟨Nat.pos_of_ne_zero hne, lt_of_le_of_lt (ht.le_of_mem_lineage hi hline) hi⟩

theorem childrenOfKind (hpos : 0 < i) (hi : i < t.size) (kind : Kind) :
    (t'.children (σ i)).filter (fun j => t'.kind j = kind) =
      ((t.children i).filter fun j => t.kind j = kind).map σ := by
  rw [h.children hpos hi, List.filter_map]
  refine congrArg (List.map σ) (List.filter_congr fun c hc => ?_)
  obtain ⟨hcpos, hc⟩ := inside_of_mem_children ht hc
  simp only [Function.comp_apply, h.kind hcpos hc]

theorem setUps (ht' : t'.Nested) (hi : i < t.size) : t'.setUps (σ i) = (t.setUps i).map σ := by
  rw [Tree.setUps, h.scopeChain ht ht' hi, List.flatMap_map, Tree.setUps, List.map_flatMap]
  refine List.flatMap_congr fun j hj => ?_
  obtain ⟨hpos, hj⟩ := inside_of_mem_scopeChain ht hi hj
  rw [localSetUps, h.children hpos hj, localSetUps]
  exact h.foldl_declare fun c hc => inside_of_mem_children ht hc

theorem tearDowns (ht' : t'.Nested) (hi : i < t.size) :
    t'.tearDowns (σ i) = (t.tearDowns i).map σ := by
  rw [Tree.tearDowns, h.scopeChain ht ht' hi, List.flatMap_map, Tree.tearDowns, List.map_flatMap]
  refine List.flatMap_congr fun j hj => ?_
  obtain ⟨hpos, hj⟩ := inside_of_mem_scopeChain ht hi hj
  exact h.childrenOfKind ht hpos hj .after

/-! ### Units -/

theorem unitsWithin : ∀ (m i : Nat), 0 < i → i < t.size →
    t'.unitsWithin m (σ i) = (t.unitsWithin m i).map (TestUnit.moved σ) := by
  intro m
  induction m with
  | zero => intro i _ _; rfl
  | succ m ih =>
    intro i hpos hi
    have hkind : ∀ c ∈ t.children i, t'.kind (σ c) = t.kind c := fun c hc =>
      h.kind (inside_of_mem_children ht hc).1 (inside_of_mem_children ht hc).2
    have hinner : ∀ c ∈ t.children i,
        (if (t'.kind (σ c)).isScope then t'.unitsWithin m (σ c) else []) =
          (if (t.kind c).isScope then t.unitsWithin m c else []).map (TestUnit.moved σ) := by
      intro c hc
      obtain ⟨hcpos, hcsize⟩ := inside_of_mem_children ht hc
      rw [hkind c hc]
      split
      · exact ih c hcpos hcsize
      · rfl
    have htests : t'.tests (σ i) = (t.tests i).map σ := h.childrenOfKind ht hpos hi .test
    have hown : (if (t'.tests (σ i)).isEmpty then [] else [⟨σ i, t'.tests (σ i)⟩]) =
        (if (t.tests i).isEmpty then [] else [⟨i, t.tests i⟩]).map (TestUnit.moved σ) := by
      rw [htests, List.isEmpty_map]
      split <;> rfl
    obtain ⟨htake, hdrop⟩ := takeWhile_dropWhile_map
      (p := fun j => decide (t.kind j ≠ .test)) (q := fun j => decide (t'.kind j ≠ .test)) (f := σ)
      (l := t.children i) fun c hc => by rw [hkind c hc]
    simp only [Tree.unitsWithin, List.map_append]
    rw [hown, h.children hpos hi, htake, hdrop, List.flatMap_map, List.flatMap_map,
      List.map_flatMap, List.map_flatMap,
      List.flatMap_congr fun c hc => hinner c ((List.takeWhile_sublist _).mem hc),
      List.flatMap_congr fun c hc => hinner c ((List.dropWhile_sublist _).mem hc)]

/-- The units of the second tree that stem from the scopes of the first one. -/
theorem units (hl : t.Legal) (hsize : t.size ≤ t'.size) :
    ((t.children 0).map σ).flatMap (t'.unitsWithin (t'.size - 1)) =
      t.units.map (TestUnit.moved σ) := by
  rw [units_eq_flatMap ht hl, List.flatMap_map, List.map_flatMap]
  refine List.flatMap_congr fun c hc => ?_
  obtain ⟨hpos, hc⟩ := inside_of_mem_children ht hc
  rw [h.unitsWithin ht _ c hpos hc, ht.unitsWithin_eq (m := t.size - 1) hc (by omega) (by omega)]

end Nested

end Embeds

end Tree

end BlockSpec
