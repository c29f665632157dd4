import BlockSpec.Proofs.Arena
import BlockSpec.Units
import Mathlib.Data.List.Induction
import Mathlib.Data.List.Perm.Basic

/-! # The units of a spec

The walk that finds the units goes down through scopes only and meets a scope's own unit among those
of its inner scopes. Where it puts that unit does not matter here: up to order, the units are the
blocks with tests directly in them, each once (`units_perm`). No block is missed, because what the
walk leaves out, befores, afters, bindings and tests, has nothing inside.

What runs before the tests of a scope is, scope by scope, a part of the children in their order: a
binding is left out if a later one of the same scope has its name. -/

namespace BlockSpec

namespace Tree

variable {t : Tree} {i j p b : Nat}

/-! ### Kinds and places -/

theorem Legal.kind_ne_group (hl : t.Legal) (hp : t.parent? i = some p) : t.kind i ≠ .group := by
  intro hkind
  have hacc := hl.accepts i p hp
  rw [show (t.block i).kind = .group from hkind] at hacc
  revert hacc
  cases (t.block p).kind <;> decide

/-- A block that another one stands in is the file or a scope. -/
theorem Legal.isScope_of_parent (hl : t.Legal) (hp : t.parent? i = some p) :
    t.kind p = .group ∨ (t.kind p).isScope = true := by
  have hacc := hl.accepts i p hp
  rw [kind]
  revert hacc
  cases (t.block p).kind <;> simp [Kind.accepts, Kind.children, Kind.isScope]

/-- Blocks that are no scopes have nothing inside. -/
theorem children_eq_nil (ht : t.Nested) (hl : t.Legal) (hp : t.parent? i = some p)
    (hi : (t.kind i).isScope = false) : t.children i = [] := by
  rw [List.eq_nil_iff_forall_not_mem]
  intro j hj
  rcases hl.isScope_of_parent (ht.mem_children.mp hj) with hgroup | hscope
  · exact hl.kind_ne_group hp hgroup
  · rw [hi] at hscope; cases hscope

/-! ### The walk -/

/-- The blocks inside a block, itself included, that have tests directly in them. -/
def scopesWithin (t : Tree) (i : Nat) : List Nat :=
  (Nested.descendants t i).filter fun j => !(t.tests j).isEmpty

theorem scopesWithin_eq (ht : t.Nested) (hi : i < t.size) :
    t.scopesWithin i = (if (t.tests i).isEmpty then [] else [i]) ++
      (t.children i).flatMap t.scopesWithin := by
  rw [scopesWithin, ← ht.cons_flatMap_descendants hi, List.filter_cons, List.filter_flatMap]
  cases (t.tests i).isEmpty <;> rfl

/-- The walk meets the units inside a block, each once. -/
theorem unitsWithin_perm (ht : t.Nested) (hl : t.Legal) : ∀ (n i : Nat), i < t.size →
    t.size ≤ n + i → ((t.unitsWithin n i).map (·.scope)).Perm (t.scopesWithin i) := by
  intro n
  induction n with
  | zero => intro i hi hn; omega
  | succ n ih =>
    intro i hi hn
    -- a child that is no scope has no unit inside, as the walk assumes
    have hinner : ∀ c ∈ t.children i,
        ((if (t.kind c).isScope then t.unitsWithin n c else []).map (·.scope)).Perm
          (t.scopesWithin c) := by
      intro c hc
      have hp := ht.mem_children.mp hc
      have hlt := ht.parent_lt hp
      have hcs := Nested.lt_size_of_parent hp
      split
      · exact ih c hcs (by omega)
      · rename_i hscope
        have hnone := children_eq_nil ht hl hp (by simpa using hscope)
        rw [scopesWithin_eq ht hcs, tests, hnone]
        exact List.Perm.refl _
    have hown : (if (t.tests i).isEmpty then [] else [⟨i, t.tests i⟩] : List TestUnit).map
        (·.scope) = if (t.tests i).isEmpty then [] else [i] := by
      split <;> rfl
    rw [unitsWithin, List.map_append, List.map_append, hown, List.map_flatMap, List.map_flatMap,
      scopesWithin_eq ht hi]
    refine (List.perm_append_comm.append_right _).trans ?_
    rw [List.append_assoc, ← List.flatMap_append, List.takeWhile_append_dropWhile]
    exact (List.Perm.flatMap_left _ hinner).append_left _

/-- A unit has all the tests of its scope. -/
theorem tests_of_mem_unitsWithin : ∀ {n i : Nat} {unit : TestUnit}, unit ∈ t.unitsWithin n i →
    unit.tests = t.tests unit.scope
  | 0, _, _, h => absurd h List.not_mem_nil
  | n + 1, i, unit, h => by
    simp only [unitsWithin, List.mem_append, List.mem_flatMap] at h
    rcases h with (⟨c, -, hc⟩ | hown) | ⟨c, -, hc⟩
    · split at hc
      · exact tests_of_mem_unitsWithin hc
      · cases hc
    · split at hown
      · cases hown
      · rw [List.mem_singleton.mp hown]
    · split at hc
      · exact tests_of_mem_unitsWithin hc
      · cases hc

theorem mem_tests (ht : t.Nested) : b ∈ t.tests p ↔ t.parent? b = some p ∧ t.kind b = .test := by
  rw [tests, List.mem_filter, ht.mem_children, decide_eq_true_iff]

theorem lt_size_of_tests_ne_nil (ht : t.Nested) (h : t.tests i ≠ []) : i < t.size := by
  obtain ⟨test, htest⟩ := List.exists_mem_of_ne_nil _ h
  have hp := ((mem_tests ht).mp htest).1
  exact lt_trans (ht.parent_lt hp) (Nested.lt_size_of_parent hp)

/-- The units are the blocks with tests directly in them, each once. -/
theorem units_perm (ht : t.Nested) (hl : t.Legal) : (t.units.map (·.scope)).Perm
    ((List.range t.size).filter fun j => !(t.tests j).isEmpty) := by
  have hall : Nested.descendants t 0 = List.range t.size := by
    rw [Nested.descendants, List.filter_eq_self]
    intro j hj
    exact decide_eq_true (ht.zero_mem_lineage (List.mem_range.mp hj))
  have hperm := unitsWithin_perm ht hl t.size 0 ht.size_pos le_rfl
  rwa [scopesWithin, hall] at hperm

theorem nodup_units (ht : t.Nested) (hl : t.Legal) : (t.units.map (·.scope)).Nodup :=
  (units_perm ht hl).nodup_iff.mpr (List.nodup_range.filter _)

theorem mem_units_iff (ht : t.Nested) (hl : t.Legal) {unit : TestUnit} : unit ∈ t.units ↔
    t.tests unit.scope ≠ [] ∧ unit.tests = t.tests unit.scope := by
  have hscope : ∀ i, i ∈ t.units.map (·.scope) ↔ t.tests i ≠ [] := by
    intro i
    rw [(units_perm ht hl).mem_iff, List.mem_filter, List.mem_range]
    simp only [Bool.not_eq_true', List.isEmpty_eq_false_iff, ne_eq, and_iff_right_iff_imp]
    exact lt_size_of_tests_ne_nil ht
  constructor
  · intro h
    exact ⟨(hscope _).mp (List.mem_map_of_mem h), tests_of_mem_unitsWithin h⟩
  · rintro ⟨hne, htests⟩
    obtain ⟨unit', hmem, heq⟩ := List.mem_map.mp ((hscope _).mpr hne)
    obtain rfl : unit' = unit := by
      cases unit; cases unit'
      simp only at heq htests
      have := tests_of_mem_unitsWithin hmem
      simp only at this
      rw [this, htests, heq]
    exact hmem

/-! ### Chains of scopes -/

theorem mem_scopeChain : j ∈ t.scopeChain i ↔ j ∈ t.lineage i ∧ j ≠ 0 := by
  simp [scopeChain]

/-- A binding whose place a later one of its scope takes. -/
def Overridden (t : Tree) (b : Nat) : Prop :=
  ∃ j, j < t.size ∧ b < j ∧ t.parent? j = t.parent? b ∧ t.kind j = .binding ∧
    t.nameOf j = t.nameOf b

instance (t : Tree) (b : Nat) : Decidable (t.Overridden b) :=
  inferInstanceAs (Decidable (∃ j, j < t.size ∧ b < j ∧ t.parent? j = t.parent? b ∧
    t.kind j = .binding ∧ t.nameOf j = t.nameOf b))

theorem foldl_declare_sublist (t : Tree) (js : List Nat) : (js.foldl t.declare []).Sublist js := by
  induction js using List.reverseRecOn with
  | nil => exact List.Sublist.refl []
  | append_singleton js j ih =>
    rw [List.foldl_append, List.foldl_cons, List.foldl_nil, declare]
    split
    · exact ih.append (List.Sublist.refl [j])
    · exact (List.filter_sublist.trans ih).append (List.Sublist.refl [j])
    · exact ih.trans (List.sublist_append_left js [j])

/-- A set-up block stays among the blocks of its scope: it is a before, or a binding whose name no
later one has. -/
def Stays (t : Tree) (js : List Nat) (i : Nat) : Prop :=
  t.kind i = .before ∨
    t.kind i = .binding ∧ ∀ j ∈ js, i < j → t.kind j = .binding → t.nameOf j ≠ t.nameOf i

/-- One more block takes the place of the bindings of its name. -/
theorem stays_append_singleton {js : List Nat} (hlt : i < j) : t.Stays (js ++ [j]) i ↔
    t.Stays js i ∧ ¬ (t.kind j = .binding ∧ t.kind i = .binding ∧ t.nameOf i = t.nameOf j) := by
  simp only [Stays, List.mem_append, List.mem_singleton, or_imp, forall_and, forall_eq]
  grind

/-- Declaring blocks one after the other leaves those that stay. -/
theorem mem_foldl_declare {js : List Nat} (hjs : js.Pairwise (· < ·)) :
    i ∈ js.foldl t.declare [] ↔ i ∈ js ∧ t.Stays js i := by
  induction js using List.reverseRecOn with
  | nil => simp
  | append_singleton js j ih =>
    obtain ⟨hjs, -, hlast⟩ := List.pairwise_append.mp hjs
    have hlt : ∀ x ∈ js, x < j := fun x hx => hlast x hx j (List.mem_singleton_self j)
    have ih := ih hjs
    have hold : i ∈ js → (t.Stays (js ++ [j]) i ↔ t.Stays js i ∧
        ¬ (t.kind j = .binding ∧ t.kind i = .binding ∧ t.nameOf i = t.nameOf j)) :=
      fun hi => stays_append_singleton (hlt i hi)
    -- nothing is behind the last block yet
    have hnew : t.Stays (js ++ [j]) j ↔ t.kind j = .before ∨ t.kind j = .binding := by
      refine or_congr Iff.rfl (and_iff_left fun x hx hjx => ?_)
      rcases List.mem_append.mp hx with hx | hx
      · exact absurd (hlt x hx) (by omega)
      · rw [List.mem_singleton.mp hx] at hjx; omega
    rw [List.foldl_append, List.foldl_cons, List.foldl_nil, declare]
    split <;> grind

/-- Of the blocks in a scope, these run before its tests. -/
theorem mem_localSetUps (ht : t.Nested) : i ∈ t.localSetUps p ↔
    t.parent? i = some p ∧ (t.kind i = .before ∨ t.kind i = .binding ∧ ¬ t.Overridden i) := by
  rw [localSetUps, mem_foldl_declare (ht.children_sorted p), ht.mem_children]
  refine and_congr_right fun hp => or_congr_right (and_congr_right fun _ => ?_)
  simp only [Overridden, hp, ht.mem_children, not_exists, not_and]
  exact ⟨fun h j _ hij hj => h j hj hij,
    fun h j hj hij => h j (Nested.lt_size_of_parent hj) hij hj⟩

/-! ### What a unit holds -/

/-- A block stands directly in one of the scopes around the tests of a unit. -/
def StandsAround (t : Tree) (unit : TestUnit) (b : Nat) : Prop :=
  ∃ p, t.parent? b = some p ∧ p ∈ t.scopeChain unit.scope

/-- The blocks whose code the class of a unit holds: the scopes around its tests, what runs before
and after them, and the tests. -/
def held (t : Tree) (unit : TestUnit) : List Nat :=
  t.scopeChain unit.scope ++ t.setUps unit.scope ++ t.tearDowns unit.scope ++ unit.tests

/-- What it takes for a block to be held by the class of a unit, by its kind. -/
def Holds (t : Tree) (unit : TestUnit) (b : Nat) : Prop :=
  match t.kind b with
  | .group => False
  | .describe | .context => b ∈ t.scopeChain unit.scope
  | .before | .after => t.StandsAround unit b
  | .binding => t.StandsAround unit b ∧ ¬ t.Overridden b
  | .test => t.parent? b = some unit.scope

/-- Blocks from among the children of different scopes are different. -/
theorem nodup_flatMap_children (ht : t.Nested) {f : Nat → List Nat}
    (hf : ∀ s, (f s).Sublist (t.children s)) {scopes : List Nat} (hs : scopes.Nodup) :
    (scopes.flatMap f).Nodup := by
  refine List.nodup_flatMap.mpr ⟨fun s _ => (ht.children_sorted s).nodup.sublist (hf s), ?_⟩
  refine hs.imp fun {s s'} hne b hb hb' => hne ?_
  have hp := ht.mem_children.mp ((hf s).subset hb)
  rw [ht.mem_children.mp ((hf s').subset hb')] at hp
  exact (Option.some.inj hp).symm

end Tree

end BlockSpec
