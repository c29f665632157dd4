import BlockSpec.Proofs.Partition
import Mathlib.Data.List.Flatten
import Mathlib.Data.List.TakeWhile

/-! # The order of units

Units come in the order of their first tests. The walk stops in a scope at its first test, where it
puts the unit of the scope, and goes down into inner scopes wherever it meets them:

    children    before   context   it        it   context
    units                inner     own            inner

A first test met inside a child is one of the blocks inside that child, and these stand before the
next child. So the first tests that the walk meets in a block are some of the blocks inside it, in
their order, and that order is the order of positions and of header lines. -/

namespace BlockSpec

namespace Tree

variable {t : Tree} {i b : Nat}

/-! ### First tests -/

/-- The first tests of some units. -/
def firstTests (units : List TestUnit) : List Nat := units.filterMap (·.tests.head?)

theorem firstTests_append (us vs : List TestUnit) :
    firstTests (us ++ vs) = firstTests us ++ firstTests vs := List.filterMap_append

theorem firstTests_flatMap (js : List Nat) (f : Nat → List TestUnit) :
    firstTests (js.flatMap f) = js.flatMap fun j => firstTests (f j) := List.filterMap_flatMap

/-- A scope without tests is passed to its end; any other one up to its first test. -/
theorem first_test_cases (t : Tree) (i : Nat) :
    ((t.children i).dropWhile fun j => t.kind j ≠ .test) = [] ∧ t.tests i = [] ∨
      ∃ f rest, ((t.children i).dropWhile fun j => t.kind j ≠ .test) = f :: rest ∧
        t.kind f = .test ∧ (t.tests i).head? = some f := by
  have hsplit := List.takeWhile_append_dropWhile (p := fun j => decide (t.kind j ≠ .test))
    (l := t.children i)
  have hpassed : ((t.children i).takeWhile fun j => t.kind j ≠ .test).filter
      (fun j => t.kind j = .test) = [] := by
    rw [List.filter_eq_nil_iff]
    intro j hj
    simpa using List.mem_takeWhile_imp hj
  have htests : t.tests i = ((t.children i).dropWhile fun j => t.kind j ≠ .test).filter
      fun j => t.kind j = .test := by
    rw [tests, ← List.nil_append (List.filter _ (List.dropWhile _ _)), ← hpassed,
      ← List.filter_append, hsplit]
  cases hdrop : (t.children i).dropWhile fun j => t.kind j ≠ .test with
  | nil => exact .inl ⟨rfl, by rw [htests, hdrop]; rfl⟩
  | cons f rest =>
    have hkind : t.kind f = .test := by
      have hhead := List.head?_dropWhile_not (fun j => decide (t.kind j ≠ .test)) (t.children i)
      rw [hdrop] at hhead
      simpa using hhead
    exact .inr ⟨f, rest, rfl, hkind, by rw [htests, hdrop]; simp [hkind]⟩

/-- The first tests that the walk meets in a block are some of the blocks inside it, in order. -/
theorem firstTests_sublist (ht : t.Nested) : ∀ (n i : Nat), i < t.size →
    (firstTests (t.unitsWithin n i)).Sublist (Nested.descendants t i) := by
  intro n
  induction n with
  | zero => intro i _; exact List.nil_sublist _
  | succ n ih =>
    intro i hi
    have hinner : ∀ c ∈ t.children i,
        (firstTests (if (t.kind c).isScope then t.unitsWithin n c else [])).Sublist
          (Nested.descendants t c) := by
      intro c hc
      split
      · exact ih c (Nested.lt_size_of_parent (ht.mem_children.mp hc))
      · exact List.nil_sublist _
    -- what is inside the block, cut where the walk puts the unit of the block
    rw [← ht.cons_flatMap_descendants hi,
      ← List.takeWhile_append_dropWhile (p := fun j => decide (t.kind j ≠ .test))
        (l := t.children i), List.flatMap_append, unitsWithin, List.append_assoc, firstTests_append,
      firstTests_append, firstTests_flatMap, firstTests_flatMap]
    refine List.Sublist.cons _ (List.Sublist.append ?_ ?_)
    · exact List.Sublist.flatMap_right _ fun c hc =>
        hinner c ((List.takeWhile_prefix _).subset hc)
    · rcases first_test_cases t i with ⟨hdrop, hnone⟩ | ⟨f, rest, hdrop, hkind, hfirst⟩
      · rw [hdrop, hnone]
        exact List.nil_sublist _
      · have hmem : ∀ c ∈ f :: rest, c ∈ t.children i := fun c hc =>
          (List.dropWhile_suffix _).subset (hdrop ▸ hc)
        have hf : f < t.size :=
          Nested.lt_size_of_parent (ht.mem_children.mp (hmem f List.mem_cons_self))
        have hown : firstTests (if (t.tests i).isEmpty then [] else [⟨i, t.tests i⟩]) = [f] := by
          cases htests : t.tests i with
          | nil => rw [htests] at hfirst; cases hfirst
          | cons g gs => rw [htests] at hfirst; simpa [firstTests] using hfirst
        have hleaf : (t.kind f).isScope = false := by rw [hkind]; rfl
        rw [hown, hdrop, List.flatMap_cons, List.flatMap_cons, hleaf]
        refine List.Sublist.append (List.singleton_sublist.mpr ?_) ?_
        · exact Nested.mem_descendants.mpr ⟨hf, List.mem_cons_self⟩
        · exact List.Sublist.flatMap_right _ fun c hc =>
            hinner c (hmem c (List.mem_cons_of_mem f hc))

theorem firstTests_sorted (ht : t.Nested) : (firstTests t.units).Pairwise (· < ·) :=
  (Nested.descendants_sorted t 0).sublist (firstTests_sublist ht t.size 0 ht.size_pos)

/-! ### The split -/

theorem isScope_of_mem_tests (ht : t.Nested) (hl : t.Legal) (hb : b ∈ t.tests i) :
    (t.kind i).isScope = true := by
  obtain ⟨hp, hkind⟩ := (mem_tests ht).mp hb
  have hacc := hl.accepts b i hp
  rw [show (t.block b).kind = .test from hkind] at hacc
  rw [kind]
  revert hacc
  cases (t.block i).kind <;> decide

theorem flatMap_tests_units (t : Tree) :
    t.units.flatMap (·.tests) = (t.units.map (·.scope)).flatMap t.tests := by
  rw [List.flatMap_map]
  exact List.flatMap_congr fun _ hu => tests_of_mem_unitsWithin hu

/-- The units split the tests of a spec: every test is in one unit, every unit is a scope with the
tests that stand directly in it, and units follow their first tests. -/
structure Split (t : Tree) : Prop where
  /-- A test is in one unit, and there once. -/
  once : ∀ b, b < t.size → t.kind b = .test →
    (∃! unit, unit ∈ t.units ∧ b ∈ unit.tests) ∧ (t.units.flatMap (·.tests)).count b = 1
  /-- A unit has some tests, in order: those that stand directly in its scope. -/
  tests : ∀ unit ∈ t.units, unit.tests ≠ [] ∧ unit.tests.Pairwise (· < ·) ∧
    ∀ b, b ∈ unit.tests ↔ t.parent? b = some unit.scope ∧ t.kind b = .test
  /-- Units have different scopes. -/
  scopes : (t.units.map (·.scope)).Nodup ∧
    ∀ unit ∈ t.units, unit.scope < t.size ∧ (t.kind unit.scope).isScope = true
  /-- The first test of a unit stands before that of the next, by position and by line. -/
  ordered : t.units.Pairwise fun u v => ∃ a b, u.tests.head? = some a ∧ v.tests.head? = some b ∧
    a < b ∧ (t.block a).line < (t.block b).line

theorem Split.of_nested (ht : t.Nested) (hl : t.Legal) : t.Split where
  once b hb hkind := by
    obtain ⟨p, hp, -⟩ : ∃ p, t.parent? b = some p ∧ t.Nearest b p := by
      refine ht.nearest b (Nat.pos_of_ne_zero ?_) hb
      rintro rfl
      rw [kind, hl.root_kind] at hkind
      cases hkind
    have hmem : b ∈ t.tests p := (mem_tests ht).mpr ⟨hp, hkind⟩
    have hu : ⟨p, t.tests p⟩ ∈ t.units := (mem_units_iff ht hl).mpr ⟨List.ne_nil_of_mem hmem, rfl⟩
    have hnodup : (t.units.flatMap (·.tests)).Nodup := by
      rw [flatMap_tests_units]
      exact nodup_flatMap_children ht (fun _ => List.filter_sublist) (nodup_units ht hl)
    refine ⟨⟨_, ⟨hu, hmem⟩, ?_⟩, ?_⟩
    · rintro ⟨scope, tests⟩ ⟨hunit, hb'⟩
      obtain rfl : tests = t.tests scope := ((mem_units_iff ht hl).mp hunit).2
      have hscope := ((mem_tests ht).mp hb').1
      rw [hp] at hscope
      cases hscope
      rfl
    · exact List.count_eq_one_of_mem hnodup (List.mem_flatMap.mpr ⟨_, hu, hmem⟩)
  tests unit hu := by
    obtain ⟨hne, htests⟩ := (mem_units_iff ht hl).mp hu
    rw [htests]
    exact ⟨hne, (ht.children_sorted _).filter _, fun b => mem_tests ht⟩
  scopes := by
    refine ⟨nodup_units ht hl, fun unit hu => ?_⟩
    have hne := ((mem_units_iff ht hl).mp hu).1
    obtain ⟨b, hb⟩ := List.exists_mem_of_ne_nil _ hne
    exact ⟨lt_size_of_tests_ne_nil ht hne, isScope_of_mem_tests ht hl hb⟩
  ordered := by
    have hfirst : ∀ unit ∈ t.units, ∃ a, unit.tests.head? = some a ∧ a < t.size := by
      intro unit hu
      obtain ⟨hne, htests⟩ := (mem_units_iff ht hl).mp hu
      obtain ⟨a, rest, hcons⟩ := List.exists_cons_of_ne_nil hne
      have ha : unit.tests.head? = some a := by rw [htests, hcons]; rfl
      have hmem : a ∈ t.tests unit.scope := by rw [hcons]; exact List.mem_cons_self
      exact ⟨a, ha, Nested.lt_size_of_parent ((mem_tests ht).mp hmem).1⟩
    refine (List.pairwise_filterMap.mp (firstTests_sorted ht)).imp_of_mem fun {u v} hu hv hlt => ?_
    obtain ⟨a, ha, -⟩ := hfirst u hu
    obtain ⟨b, hb, hbs⟩ := hfirst v hv
    have hab := hlt a ha b hb
    exact ⟨a, b, ha, hb, hab, hl.line_lt a b hab hbs⟩

end Tree

/-- Every spec that can be read is split into units exactly. -/
theorem parse_splits {source : Text} {seed : Digest} {t : Tree} (h : parse source seed = .ok t) :
    t.Split := by
  obtain ⟨ht, hl⟩ := Parser.nested_and_legal_of_parse h
  exact .of_nested ht hl

/-- A spec with tests before, between and behind inner scopes. -/
def interleavedSpec : Text :=
  ("describe \"A\":\n    it \"a1\": pass\n    context \"B\":\n        it \"b1\": pass\n" ++
    "    it \"a2\": pass\ndescribe \"C\":\n    context \"D\":\n        it \"d1\": pass\n" ++
    "    it \"c1\": pass\n").toList

theorem parse_splits_interleaved : ∃ t, parse interleavedSpec (Vector.replicate 32 7) = .ok t ∧
    t.units = [⟨1, [2, 5]⟩, ⟨3, [4]⟩, ⟨7, [8]⟩, ⟨6, [9]⟩] ∧ t.Split := by
  have hunits : (parse interleavedSpec (Vector.replicate 32 7)).map Tree.units =
      .ok [⟨1, [2, 5]⟩, ⟨3, [4]⟩, ⟨7, [8]⟩, ⟨6, [9]⟩] := by
    decide +kernel
  obtain ⟨t, h, hunits⟩ := exists_of_map_eq_ok hunits
  exact ⟨t, h, hunits, parse_splits h⟩

end BlockSpec
