import BlockSpec.Proofs.LegalNames
import BlockSpec.Proofs.Partition
import Mathlib.Data.List.Chain

/-! # What runs before the tests

The blocks that run before the tests of a scope are found by going through the chain of scopes
around it, the outermost first, and declaring the children of each scope one after the other.
Declaring a binding takes an earlier one of its name away, whatever stands between the two. What
remains of a scope is therefore said without the order of events:

    befores, and the bindings that no later binding of the scope has the name of, as they stand

So a scope assigns a name at most once, and after all assignments a name holds the value of the last
binding of that name in the innermost scope that has one. -/

namespace BlockSpec

namespace Tree

variable {t : Tree} {i j p scope : Nat} {name : Text}

/-! ### The chain of scopes -/

/-- The scopes from an outermost one down to a block: the first stands directly in the file, each
further one directly in the one before it. -/
structure IsScopeChain (t : Tree) (scope : Nat) (chain : List Nat) : Prop where
  scopes : ∀ s ∈ chain, (t.kind s).isScope = true
  outermost : ∃ s, chain.head? = some s ∧ t.parent? s = some 0
  linked : chain.IsChain fun outer inner => t.parent? inner = some outer
  innermost : chain.getLast? = some scope

theorem scopeChain_zero (ht : t.Nested) : t.scopeChain 0 = [] := by
  rw [scopeChain, ht.lineage_zero]
  rfl

theorem scopeChain_of_parent (ht : t.Nested) (hp : t.parent? i = some p) :
    t.scopeChain i = t.scopeChain p ++ [i] := by
  have hi : i ≠ 0 := Nat.ne_zero_of_lt (ht.parent_lt hp)
  rw [scopeChain, ht.lineage_of_parent hp, List.filter_cons_of_pos (by simpa using hi),
    List.reverse_cons, scopeChain]

theorem isScopeChain_scopeChain (ht : t.Nested) (hl : t.Legal) : ∀ i, i < t.size →
    (t.kind i).isScope = true → t.IsScopeChain i (t.scopeChain i) := by
  refine ht.up_induction (fun hfile => ?_) fun i p hp ih hi => ?_
  · rw [kind, hl.root_kind] at hfile
    cases hfile
  · rw [scopeChain_of_parent ht hp]
    rcases Nat.eq_zero_or_pos p with rfl | hpos
    · rw [scopeChain_zero ht]
      exact ⟨by simpa using hi, ⟨i, rfl, hp⟩, List.isChain_singleton i, rfl⟩
    · -- a block that has something inside and is not the file is a scope itself
      have hps := lt_trans (ht.parent_lt hp) (Nested.lt_size_of_parent hp)
      obtain ⟨q, hq, -⟩ := ht.nearest p hpos hps
      obtain ⟨hscopes, ⟨s, hs, hfile⟩, hlinked, hlast⟩ :=
        ih ((hl.isScope_of_parent hp).resolve_left (hl.kind_ne_group hq))
      refine ⟨fun x hx => ?_, ⟨s, by rw [List.head?_append, hs]; rfl, hfile⟩, ?_, by simp⟩
      · rcases List.mem_append.mp hx with hx | hx
        · exact hscopes x hx
        · rw [List.mem_singleton.mp hx]; exact hi
      · refine List.isChain_append.mpr ⟨hlinked, List.isChain_singleton i, fun x hx y hy => ?_⟩
        rw [hlast] at hx
        cases hx
        cases hy
        exact hp

/-! ### What remains of a scope -/

/-- A block runs before the tests: a before, or a binding whose place no later one of its scope
takes. -/
def Remains (t : Tree) (j : Nat) : Prop :=
  t.kind j = .before ∨ t.kind j = .binding ∧ ¬ t.Overridden j

instance (t : Tree) (j : Nat) : Decidable (t.Remains j) :=
  inferInstanceAs (Decidable (t.kind j = .before ∨ t.kind j = .binding ∧ ¬ t.Overridden j))

theorem localSetUps_sorted (ht : t.Nested) (s : Nat) : (t.localSetUps s).Pairwise (· < ·) :=
  (ht.children_sorted s).sublist (foldl_declare_sublist t _)

/-- Declaring the children of a scope one after the other leaves those that remain, as they
stand. -/
theorem localSetUps_eq_filter (ht : t.Nested) (s : Nat) :
    t.localSetUps s = (t.children s).filter fun j => t.Remains j := by
  refine List.Pairwise.eq_of_mem_iff (r := (· < ·)) (localSetUps_sorted ht s)
    ((ht.children_sorted s).filter _) fun j => ?_
  rw [mem_localSetUps ht, List.mem_filter, ht.mem_children, decide_eq_true_iff, Remains]

/-- No two bindings that remain of a scope have one name. -/
theorem nodup_names_localSetUps (ht : t.Nested) (s : Nat) :
    (((t.localSetUps s).filter fun j => t.kind j = .binding).map t.nameOf).Nodup := by
  refine List.pairwise_map.mpr (((localSetUps_sorted ht s).filter _).imp_of_mem ?_)
  intro i j hi hj hlt heq
  obtain ⟨hi, hik⟩ := List.mem_filter.mp hi
  obtain ⟨hj, hjk⟩ := List.mem_filter.mp hj
  obtain ⟨hip, hremains⟩ := (mem_localSetUps ht).mp hi
  have hjp := ((mem_localSetUps ht).mp hj).1
  have hover : t.Overridden i := ⟨j, Nested.lt_size_of_parent hjp, hlt, hjp.trans hip.symm,
    of_decide_eq_true hjk, heq.symm⟩
  rcases hremains with hbefore | ⟨-, hnot⟩
  · rw [of_decide_eq_true hik] at hbefore
    cases hbefore
  · exact hnot hover

/-! ### Assignments -/

/-- A binding of a name. -/
def binds (t : Tree) (name : Text) (j : Nat) : Bool := t.kind j = .binding && t.nameOf j == name

theorem binds_iff : t.binds name j = true ↔ t.kind j = .binding ∧ t.nameOf j = name := by
  simp [binds]

/-- What the statement of one set-up block does to the attributes, each of which holds the value of
some binding: the value of a binding is kept under its name. -/
def assign (t : Tree) (held : Text → Option Nat) (j : Nat) : Text → Option Nat :=
  if t.kind j = .binding then Function.update held (t.nameOf j) (some j) else held

/-- The attributes after the statements of some set-up blocks. -/
def assigned (t : Tree) (js : List Nat) : Text → Option Nat := js.foldl t.assign fun _ => none

/-- The last binding of a name in a scope. -/
def lastBinding (t : Tree) (name : Text) (s : Nat) : Option Nat :=
  ((t.children s).filter (t.binds name)).getLast?

/-- A statement gives a value to the name that its block binds, and to no other. -/
theorem assign_apply (t : Tree) (held : Text → Option Nat) (j : Nat) (name : Text) :
    t.assign held j name = if t.binds name j then some j else held name := by
  rw [assign]
  by_cases hk : t.kind j = .binding
  · by_cases hname : t.nameOf j = name
    · simp [binds, hk, hname]
    · simp [binds, hk, hname, Function.update_of_ne (Ne.symm hname)]
  · simp [binds, hk]

/-- A name holds the value that it was given last. -/
theorem assigned_eq_getLast? (t : Tree) (js : List Nat) (name : Text) :
    t.assigned js name = (js.filter (t.binds name)).getLast? := by
  induction js using List.reverseRecOn with
  | nil => rfl
  | append_singleton js j ih =>
    have hstep : t.assigned (js ++ [j]) = t.assign (t.assigned js) j := by
      rw [assigned, List.foldl_append]; rfl
    rw [hstep, assign_apply, ih, List.filter_append]
    by_cases hbinds : t.binds name j = true <;> simp [hbinds]

/-- The last of some positions in order is the one that no other exceeds. -/
theorem getLast?_eq_some_iff_of_sorted {js : List Nat} (hjs : js.Pairwise (· < ·)) :
    js.getLast? = some j ↔ j ∈ js ∧ ∀ k ∈ js, k ≤ j := by
  rcases List.eq_nil_or_concat' js with rfl | ⟨front, last, rfl⟩
  · simp
  · have hlt : ∀ k ∈ front, k < last := fun k hk =>
      (List.pairwise_append.mp hjs).2.2 k hk last (List.mem_singleton_self last)
    rw [List.getLast?_concat, Option.some_inj]
    constructor
    · rintro rfl
      refine ⟨by simp, fun k hk => ?_⟩
      rcases List.mem_append.mp hk with hk | hk
      · exact (hlt k hk).le
      · exact (List.mem_singleton.mp hk).le
    · rintro ⟨hj, hmax⟩
      rcases List.mem_append.mp hj with hj | hj
      · exact absurd (hlt j hj) (not_lt.mpr (hmax last (by simp)))
      · exact (List.mem_singleton.mp hj).symm

/-- Of the bindings of a name in a scope, the last one remains. -/
theorem filter_binds_localSetUps (ht : t.Nested) (name : Text) (s : Nat) :
    (t.localSetUps s).filter (t.binds name) = (t.lastBinding name s).toList := by
  have hsorted := (ht.children_sorted s).filter (t.binds name)
  have hsingle : (t.lastBinding name s).toList.Pairwise (· < ·) := by
    cases t.lastBinding name s <;> simp
  refine List.Pairwise.eq_of_mem_iff (r := (· < ·)) ((localSetUps_sorted ht s).filter _) hsingle
    fun j => ?_
  rw [Option.mem_toList, lastBinding, getLast?_eq_some_iff_of_sorted hsorted]
  simp only [List.mem_filter, mem_localSetUps ht, ht.mem_children, binds_iff]
  constructor
  · rintro ⟨⟨hp, hremains⟩, hk, hname⟩
    refine ⟨⟨hp, hk, hname⟩, fun k ⟨hkp, hkk, hkname⟩ => not_lt.mp fun hlt => ?_⟩
    rcases hremains with hbefore | ⟨-, hnot⟩
    · rw [hk] at hbefore; cases hbefore
    · exact hnot ⟨k, Nested.lt_size_of_parent hkp, hlt, hkp.trans hp.symm, hkk,
        hkname.trans hname.symm⟩
  · rintro ⟨⟨hp, hk, hname⟩, hmax⟩
    refine ⟨⟨hp, .inr ⟨hk, ?_⟩⟩, hk, hname⟩
    rintro ⟨k, -, hlt, hkp, hkk, hkname⟩
    exact absurd hlt (not_lt.mpr (hmax k ⟨hkp.trans hp, hkk, hkname.trans hname⟩))

/-- The last binding of a name along a chain of scopes is found in the innermost scope that has
one. -/
theorem assigned_flatMap_localSetUps (ht : t.Nested) (name : Text) (chain : List Nat) :
    t.assigned (chain.flatMap t.localSetUps) name =
      chain.reverse.findSome? (t.lastBinding name) := by
  rw [assigned_eq_getLast?]
  induction chain using List.reverseRecOn with
  | nil => rfl
  | append_singleton chain s ih =>
    rw [List.flatMap_append, List.filter_append, List.getLast?_append, ih, List.flatMap_singleton,
      filter_binds_localSetUps ht, List.reverse_append, List.findSome?_append,
      List.reverse_singleton, List.findSome?_singleton]
    cases t.lastBinding name s <;> rfl

/-- The set-up dispatcher assigns the names of the bindings among its blocks. -/
theorem attributes_eq (t : Tree) (ms : List Method) : TestModule.attributes t ms =
    ((ms.map (·.owner)).filter fun j => t.kind j = .binding).map t.nameOf := by
  induction ms with
  | nil => rfl
  | cons m ms ih =>
    have hcons : TestModule.attributes t (m :: ms) =
        (if t.kind m.owner = .binding then [t.nameOf m.owner] else []) ++
          TestModule.attributes t ms := by
      by_cases hk : t.kind m.owner = .binding <;> simp [TestModule.attributes, hk]
    rw [hcons, ih, List.map_cons, List.filter_cons]
    by_cases hk : t.kind m.owner = .binding <;> simp [hk]

/-- What runs before and after the tests of a scope, and what the attributes hold then. -/
structure Resolved (t : Tree) (scope : Nat) : Prop where
  chain : t.IsScopeChain scope (t.scopeChain scope)
  /-- Scope by scope, befores and bindings run in order, but for bindings that a later one of the
  same scope and name replaces. -/
  setUps : t.setUps scope =
    (t.scopeChain scope).flatMap fun s => (t.children s).filter fun j => t.Remains j
  tearDowns : t.tearDowns scope =
    (t.scopeChain scope).flatMap fun s => (t.children s).filter fun j => t.kind j = .after
  /-- The set-up dispatcher of the scope's class assigns the names of the bindings, in order. -/
  statements : ∀ unit ∈ t.units, unit.scope = scope →
    ((TestClass.ofUnit t unit).setUps.map (TestModule.setUpText t)).filterMap
      (fun call => (Row.padded TestModule.methodWidth call).declared?) =
    ((t.setUps scope).filter fun j => t.kind j = .binding).map t.nameOf
  /-- A name ends up with the last binding of the innermost scope that binds it. -/
  bound : ∀ name, t.assigned (t.setUps scope) name =
    (t.scopeChain scope).reverse.findSome? (t.lastBinding name)
  /-- A scope assigns a name at most once. -/
  once : ∀ s ∈ t.scopeChain scope,
    ((((t.children s).filter fun j => t.Remains j).filter fun j => t.kind j = .binding).map
      t.nameOf).Nodup

end Tree

/-- In every spec that can be read, what runs around the tests of a scope is resolved scope by
scope, the outermost first. -/
theorem parse_resolves {source : Text} {seed : Digest} {t : Tree} (h : parse source seed = .ok t)
    {scope : Nat} (hscope : (t.kind scope).isScope = true) : t.Resolved scope := by
  obtain ⟨ht, hl⟩ := Parser.nested_and_legal_of_parse h
  have hlt : scope < t.size := by
    by_contra hge
    rw [Tree.kind, Tree.block_of_size_le (not_lt.mp hge)] at hscope
    cases hscope
  refine ⟨Tree.isScopeChain_scopeChain ht hl scope hlt hscope, ?_, rfl, ?_,
    fun name => Tree.assigned_flatMap_localSetUps ht name _, fun s _ => ?_⟩
  · exact List.flatMap_congr fun s _ => Tree.localSetUps_eq_filter ht s
  · rintro unit - rfl
    have hnames :=
      (TestModule.forall_mem_nameRows.mp (TestModule.nameable_of_mem_nameRows h unit)).1
    rw [TestModule.filterMap_declared?_setUpText hnames, Tree.attributes_eq,
      (TestModule.owners_ofUnit t unit).1]
  · rw [← Tree.localSetUps_eq_filter ht]
    exact Tree.nodup_names_localSetUps ht s

/-- A spec whose bindings replace each other within a scope, across befores, and from scope to
scope. -/
def layeredBindings : Text :=
  ("describe \"A\":\n    let \"x\": 1\n    before \"b\": pass\n    let \"y\": 0\n" ++
    "    let \" X \": 2\n    after \"d\": pass\n    context \"B\":\n        let \"x\": 3\n" ++
    "        it \"z\": pass\n        let \"w\": 4\n        let \"x\": 5\n" ++
    "        after \"e\": pass\n").toList

theorem parse_resolves_layered : ∃ t, parse layeredBindings (Vector.replicate 32 7) = .ok t ∧
    (t.kind 7).isScope = true ∧ t.scopeChain 7 = [1, 7] ∧ t.setUps 7 = [3, 4, 5, 10, 11] ∧
    t.tearDowns 7 = [6, 12] ∧ t.assigned (t.setUps 7) "x".toList = some 11 ∧ t.Resolved 7 := by
  have hview : (parse layeredBindings (Vector.replicate 32 7)).map (fun t =>
      ((t.kind 7).isScope, t.scopeChain 7, t.setUps 7, t.tearDowns 7,
        t.assigned (t.setUps 7) "x".toList)) =
      .ok (true, [1, 7], [3, 4, 5, 10, 11], [6, 12], some 11) := by
    decide +kernel
  obtain ⟨t, h, hview⟩ := exists_of_map_eq_ok hview
  simp only [Prod.mk.injEq] at hview
  obtain ⟨hscope, hchain, hsetUps, htearDowns, hx⟩ := hview
  exact ⟨t, h, hscope, hchain, hsetUps, htearDowns, hx, parse_resolves h hscope⟩

end BlockSpec
