import BlockSpec.Proofs.Fingerprint
import BlockSpec.Proofs.Partition
import BlockSpec.Proofs.Refusal
import Mathlib.Logic.Relation

/-! # Generating always succeeds

A generator follows the links of a tree up, for the scopes around a test, and down, for the units.
Both ways are recursions under a bound on their steps. All they need is that links lead to blocks
and not in circles; the order of the blocks, their indents and their kinds do not matter:

    links in range      whatever is looked up is there
    no circles          a way comes to no block twice, so the bound is not felt
    set-up blocks       befores and bindings only, so the dispatcher can be written

Hence a tree that was read is never refused afterwards, and what compiling reports about a spec is
what reading it reports. -/

namespace BlockSpec

/-- Over finitely many positions a relation without circles leads nowhere for long. What holds with
one step more if it holds at all next positions, holds with as many steps as there are positions. -/
theorem bounded_induction {R : Nat → Nat → Prop} {size : Nat} (hlt : ∀ i j, R i j → j < size)
    (hacyclic : ∀ i, ¬ Relation.TransGen R i i) {P : Nat → Nat → Prop}
    (step : ∀ n i, (∀ j, R i j → P n j) → P (n + 1) i) :
    ∀ n i, i < size → size ≤ n → P n i := by
  -- the way that led to `i` comes to no position twice, and takes the steps that are missing
  suffices hway : ∀ n i, ∀ way : List Nat, i < size → way.Nodup →
      (∀ p ∈ way, p < size ∧ Relation.TransGen R p i) → size ≤ n + way.length → P n i by
    intro n i hi hn
    exact hway n i [] hi List.nodup_nil (fun p hp => absurd hp List.not_mem_nil) hn
  intro n
  induction n with
  | zero =>
    intro i way hi hnodup hled hlength
    have hfresh : i ∉ way := fun hmem => hacyclic i (hled i hmem).2
    have hsubset : i :: way ⊆ List.range size := by
      intro p hp
      rcases List.mem_cons.mp hp with rfl | hp
      · exact List.mem_range.mpr hi
      · exact List.mem_range.mpr (hled p hp).1
    have hle := (List.subperm_of_subset (List.nodup_cons.mpr ⟨hfresh, hnodup⟩) hsubset).length_le
    rw [List.length_cons, List.length_range] at hle
    omega
  | succ n ih =>
    intro i way hi hnodup hled hlength
    have hfresh : i ∉ way := fun hmem => hacyclic i (hled i hmem).2
    refine step n i fun j hj => ih j (i :: way) (hlt i j hj) ?_ ?_ ?_
    · exact List.nodup_cons.mpr ⟨hfresh, hnodup⟩
    · intro p hp
      rcases List.mem_cons.mp hp with rfl | hp
      · exact ⟨hi, .single hj⟩
      · exact ⟨(hled p hp).1, (hled p hp).2.tail hj⟩
    · rw [List.length_cons]
      omega

namespace Tree

/-- There is a block, links lead to blocks, and neither up nor down do they lead in circles. -/
structure Linked (t : Tree) : Prop where
  size_pos : 0 < t.size
  parent_lt : ∀ i p, t.parent? i = some p → p < t.size
  child_lt : ∀ i, ∀ j ∈ t.children i, j < t.size
  parent_acyclic : ∀ i, ¬ Relation.TransGen (fun i p => t.parent? i = some p) i i
  child_acyclic : ∀ i, ¬ Relation.TransGen (fun i j => j ∈ t.children i) i i

variable {t : Tree}

/-- Links that lead from smaller to greater depths, and back, lead in no circles. -/
theorem Linked.of_depth (depth : Nat → Nat) (size_pos : 0 < t.size)
    (parent : ∀ i p, t.parent? i = some p → p < t.size ∧ depth p < depth i)
    (child : ∀ i, ∀ j ∈ t.children i, j < t.size ∧ depth i < depth j) : t.Linked := by
  refine ⟨size_pos, fun i p hp => (parent i p hp).1, fun i j hj => (child i j hj).1, ?_, ?_⟩
  · intro i hcircle
    have hdown : ∀ j, Relation.TransGen (fun i p => t.parent? i = some p) i j →
        depth j < depth i := by
      intro j hj
      induction hj with
      | single hp => exact (parent _ _ hp).2
      | tail _ hp ih => exact lt_trans (parent _ _ hp).2 ih
    exact lt_irrefl _ (hdown i hcircle)
  · intro i hcircle
    have hup : ∀ j, Relation.TransGen (fun i j => j ∈ t.children i) i j → depth i < depth j := by
      intro j hj
      induction hj with
      | single hc => exact (child _ _ hc).2
      | tail _ hc ih => exact lt_trans ih (child _ _ hc).2
    exact lt_irrefl _ (hup i hcircle)

/-- In a nested tree the parent comes first. -/
theorem Nested.linked (ht : t.Nested) : t.Linked := by
  refine .of_depth id ht.size_pos (fun i p hp => ?_) fun i j hj => ?_
  · exact ⟨lt_trans (ht.parent_lt hp) (Nested.lt_size_of_parent hp), ht.parent_lt hp⟩
  · have hp := ht.mem_children.mp hj
    exact ⟨Nested.lt_size_of_parent hp, ht.parent_lt hp⟩

namespace Linked

variable {i j n : Nat} {unit : TestUnit}

/-! ### The bounds are not felt -/

/-- A sequence of values that no longer changes keeps its value. -/
theorem eq_of_stable {α : Type} {f : Nat → α} {size : Nat}
    (h : ∀ n, size ≤ n → f (n + 1) = f n) : ∀ n, size ≤ n → f n = f size := by
  intro n hn
  induction n, hn using Nat.le_induction with
  | base => rfl
  | succ n hn ih => rw [h n hn, ih]

theorem ancestorsWithin_stable (ht : t.Linked) (hn : t.size ≤ n) (i : Nat) :
    t.ancestorsWithin (n + 1) i = t.ancestorsWithin n i := by
  rcases Nat.lt_or_ge i t.size with hi | hi
  · refine bounded_induction ht.parent_lt ht.parent_acyclic
      (P := fun n i => t.ancestorsWithin (n + 1) i = t.ancestorsWithin n i) ?_ n i hi hn
    intro n i hnext
    cases hp : t.parent? i with
    | none => simp only [ancestorsWithin, hp]
    | some p =>
      have hup := hnext p hp
      simp only [ancestorsWithin, hp] at hup ⊢
      rw [hup]
  · have hnone : t.parent? i = none := by rw [parent?, block_of_size_le hi]; rfl
    obtain ⟨m, rfl⟩ : ∃ m, n = m + 1 := ⟨n - 1, by have := ht.size_pos; omega⟩
    simp only [ancestorsWithin, hnone]

theorem unitsWithin_stable (ht : t.Linked) (hn : t.size ≤ n) (i : Nat) :
    t.unitsWithin (n + 1) i = t.unitsWithin n i := by
  have hstep : ∀ n i, (∀ j, j ∈ t.children i → t.unitsWithin (n + 1) j = t.unitsWithin n j) →
      t.unitsWithin (n + 1 + 1) i = t.unitsWithin (n + 1) i := by
    intro n i hnext
    have hinner : ∀ j ∈ t.children i,
        (if (t.kind j).isScope then t.unitsWithin (n + 1) j else []) =
          if (t.kind j).isScope then t.unitsWithin n j else [] := by
      intro j hj
      rw [hnext j hj]
    simp only [unitsWithin] at hinner ⊢
    rw [List.flatMap_congr fun c hc => hinner c ((List.takeWhile_sublist _).mem hc),
      List.flatMap_congr fun c hc => hinner c ((List.dropWhile_sublist _).mem hc)]
  rcases Nat.lt_or_ge i t.size with hi | hi
  · exact bounded_induction (fun i j hj => ht.child_lt i j hj) ht.child_acyclic hstep n i hi hn
  · have hnone : t.children i = [] := by rw [children, block_of_size_le hi]; rfl
    obtain ⟨m, rfl⟩ : ∃ m, n = m + 1 := ⟨n - 1, by have := ht.size_pos; omega⟩
    exact hstep m i fun j hj => absurd hj (by rw [hnone]; exact List.not_mem_nil)

/-! ### Whatever is looked up is there -/

theorem lt_of_mem_ancestorsWithin (ht : t.Linked) : ∀ {n i : Nat},
    ∀ j ∈ t.ancestorsWithin n i, j < t.size
  | n + 1, i, j, hj => by
    rw [ancestorsWithin] at hj
    cases hp : t.parent? i with
    | none =>
      rw [hp] at hj
      exact absurd hj List.not_mem_nil
    | some p =>
      rw [hp] at hj
      rcases List.mem_cons.mp hj with rfl | hj
      · exact ht.parent_lt i j hp
      · exact ht.lt_of_mem_ancestorsWithin j hj

theorem lt_of_mem_scopeChain (ht : t.Linked) (hi : i < t.size) (hj : j ∈ t.scopeChain i) :
    j < t.size := by
  rcases List.mem_cons.mp (mem_scopeChain.mp hj).1 with rfl | hj
  · exact hi
  · exact ht.lt_of_mem_ancestorsWithin j hj

theorem lt_of_mem_setUps (ht : t.Linked) (hj : j ∈ t.setUps i) : j < t.size := by
  obtain ⟨scope, -, hj⟩ := List.mem_flatMap.mp hj
  exact ht.child_lt scope j ((foldl_declare_sublist t (t.children scope)).mem hj)

theorem lt_of_mem_tearDowns (ht : t.Linked) (hj : j ∈ t.tearDowns i) : j < t.size := by
  obtain ⟨scope, -, hj⟩ := List.mem_flatMap.mp hj
  exact ht.child_lt scope j (List.mem_filter.mp hj).1

/-- The units that are found have their scope and their tests in the tree. -/
theorem lt_of_mem_unitsWithin (ht : t.Linked) : ∀ {n i : Nat}, i < t.size →
    ∀ unit ∈ t.unitsWithin n i, unit.scope < t.size ∧ ∀ j ∈ unit.tests, j < t.size
  | n + 1, i, hi, unit, hunit => by
    have hinner : ∀ c ∈ t.children i,
        unit ∈ (if (t.kind c).isScope then t.unitsWithin n c else []) →
          unit.scope < t.size ∧ ∀ j ∈ unit.tests, j < t.size := by
      intro c hc hunit
      split at hunit
      · exact ht.lt_of_mem_unitsWithin (ht.child_lt i c hc) unit hunit
      · exact absurd hunit List.not_mem_nil
    simp only [unitsWithin, List.mem_append, List.mem_flatMap] at hunit
    rcases hunit with (⟨c, hc, hunit⟩ | hown) | ⟨c, hc, hunit⟩
    · exact hinner c ((List.takeWhile_sublist _).mem hc) hunit
    · split at hown
      · exact absurd hown List.not_mem_nil
      · obtain rfl := List.mem_singleton.mp hown
        exact ⟨hi, fun j hj => ht.child_lt i j (List.mem_filter.mp hj).1⟩
    · exact hinner c ((List.dropWhile_sublist _).mem hc) hunit

/-- The blocks that a module is made from are all there. -/
theorem lt_of_rendered (ht : t.Linked) (hi : TestModule.Rendered t i) : i < t.size := by
  rcases hi with rfl | ⟨unit, hunit, hi⟩
  · exact ht.size_pos
  obtain ⟨hscope, htests⟩ := ht.lt_of_mem_unitsWithin ht.size_pos unit hunit
  rcases hi with hi | hi | hi | hi
  · exact ht.lt_of_mem_scopeChain hscope hi
  · exact ht.lt_of_mem_setUps hi
  · exact ht.lt_of_mem_tearDowns hi
  · exact htests i hi

end Linked

end Tree

/-! ### Generating and compiling -/

/-- Generating from a tree succeeds under all options. The bounds of its recursions are not felt, it
looks up only blocks that are there, and it meets no set-up block that cannot be called. -/
structure Generates (t : Tree) : Prop where
  ancestors : ∀ n i, t.size ≤ n → t.ancestorsWithin n i = t.ancestors i
  units : ∀ n i, t.size ≤ n → t.unitsWithin n i = t.unitsWithin t.size i
  lt_size : ∀ i, TestModule.Rendered t i → i < t.size
  setUps : ∀ c ∈ TestModule.classes t, ∀ m ∈ c.setUps, ∃ call, setUpCall t m = .ok call
  ok : ∀ options, ∃ text, generate t options = .ok text

theorem Tree.Linked.generates {t : Tree} (ht : t.Linked) : Generates t where
  ancestors n i hn := Tree.Linked.eq_of_stable (f := (t.ancestorsWithin · i))
    (fun _ hn => ht.ancestorsWithin_stable hn i) n hn
  units n i hn := Tree.Linked.eq_of_stable (f := (t.unitsWithin · i))
    (fun _ hn => ht.unitsWithin_stable hn i) n hn
  lt_size i hi := ht.lt_of_rendered hi
  setUps c hc m hm := by
    obtain ⟨unit, -, rfl⟩ := List.mem_map.mp hc
    have howner : m.owner ∈ t.setUps unit.scope := by
      rw [← (TestModule.owners_ofUnit t unit).1]
      exact List.mem_map_of_mem hm
    exact ⟨_, TestModule.setUpCall_eq_ok (Tree.isSetUp_of_mem_setUps howner)⟩
  ok options := ⟨_, TestModule.generate_eq t options⟩

/-- Whether a spec is refused, and with what fault, does not depend on the seed. -/
theorem Parser.parse_error_congr {source : Text} {seed : Digest} {fault : Fault}
    (h : parse source seed = .error fault) (seed' : Digest) :
    parse source seed' = .error fault := by
  obtain ⟨earlier, e, later, hsplit, hgood, hbad, rfl⟩ := exists_first_bad_of_parse h
  exact parse_of_first_bad seed' hsplit hgood hbad

/-- Compiling fails just when reading does, whatever the seed, and reports what reading reports. -/
theorem compile_eq_error_iff (source : Source) (specPath : Text) (options : Options) (seed : Digest)
    (d : Diagnostic) : compile source specPath options = .error d ↔
      ∃ fault, parse source.content seed = .error fault ∧
        d = source.diagnose "parse".toList fault := by
  constructor
  · intro h
    cases hp : parse source.content (fingerprint source.content options) with
    | error fault =>
      simp only [compile, hp] at h
      exact ⟨fault, Parser.parse_error_congr hp seed, (Except.error.inj h).symm⟩
    | ok tree =>
      obtain ⟨rest, hrest⟩ := exists_compile_eq hp
      rw [hrest source.name specPath] at h
      cases h
  · rintro ⟨fault, hp, rfl⟩
    simp only [compile, Parser.parse_error_congr hp]

/-- Generating succeeds for every tree whose links lead to blocks and not in circles, as they do in
every tree that was read; so compiling a spec fails just when reading it does, with the same
fault. -/
theorem generate_succeeds :
    (∀ t : Tree, t.Linked → Generates t) ∧
    (∀ source seed t, parse source seed = .ok t → t.Linked) ∧
    ∀ source specPath options seed d, compile source specPath options = .error d ↔
      ∃ fault, parse source.content seed = .error fault ∧
        d = source.diagnose "parse".toList fault :=
  ⟨fun _ ht => ht.generates, fun _ _ _ h => (Parser.nested_and_legal_of_parse h).1.linked,
    compile_eq_error_iff⟩

/-- A test and a binding in a scope that comes between them. -/
def shuffledTree : Tree :=
  ⟨#[{ Block.root with children := [2] },
    { kind := .test, indent := 0, label := "a".toList, line := 3, parent := some 2 },
    { kind := .describe, indent := 7, label := "A".toList, line := 1, children := [3, 1],
      parent := some 0 },
    { kind := .binding, indent := 4, label := "x".toList, line := 2, parent := some 2 }]⟩

theorem linked_shuffledTree : shuffledTree.Linked := by
  refine .of_depth (fun i => [0, 2, 1, 2].getD i 0) (by decide) (fun i p hp => ?_) fun i j hj => ?_
  · rcases i with _ | _ | _ | _ | i
    · cases hp
    · cases hp; decide
    · cases hp; decide
    · cases hp; decide
    · cases hp
  · rcases i with _ | _ | _ | _ | i
    · revert j; decide
    · revert j; decide
    · revert j; decide
    · revert j; decide
    · cases hj

theorem generate_succeeds_shuffled : shuffledTree.Linked ∧ Generates shuffledTree ∧
    (∃ t, parse "describe \"A\":\n    it \"b\": pass\n".toList (Vector.replicate 32 7) = .ok t ∧
      t.Linked) ∧
    compile ⟨"a".toList, "let \"x\": 1\n".toList⟩ "a".toList {} =
      .error (Source.diagnose ⟨"a".toList, "let \"x\": 1\n".toList⟩ "parse".toList
        (.nesting .group .binding 1 0)) := by
  obtain ⟨hgenerates, hlinked, hcompile⟩ := generate_succeeds
  have hread : (parse "describe \"A\":\n    it \"b\": pass\n".toList
      (Vector.replicate 32 7)).map Tree.size = .ok 3 := by
    decide +kernel
  have hrefused : parse "let \"x\": 1\n".toList (Vector.replicate 32 7) =
      .error (.nesting .group .binding 1 0) := by
    decide +kernel
  obtain ⟨t, ht, -⟩ := exists_of_map_eq_ok hread
  exact ⟨linked_shuffledTree, hgenerates _ linked_shuffledTree, ⟨t, ht, hlinked _ _ t ht⟩,
    (hcompile _ _ _ (Vector.replicate 32 7) _).mpr ⟨_, hrefused, rfl⟩⟩

end BlockSpec
