import BlockSpec.Proofs.Embedding
import BlockSpec.Proofs.Lines
import Mathlib.Data.List.Find

/-! # Sections of a spec

A spec may be cut in front of a header at the left margin, where no decorators wait. Nothing of what
was read before the cut reaches behind it but the draws: the header belongs to the file, and from
there on only blocks behind the cut are open.

    s₁   0 ── 1 ── 2               s₁ ++ s₂   0 ── 1 ── 2
    s₂   0 ── 1 ── 2                          └─── 3 ── 4

So the tree of the whole is the tree of the first part with the blocks of the second one behind it,
and the same is true of the units and of what runs around their tests. -/

namespace BlockSpec

namespace Tree

/-- Where a block goes when the blocks of a tree, the file's own apart, are put behind this one. -/
def shift (t : Tree) (i : Nat) : Nat := if i = 0 then 0 else i + (t.size - 1)

/-- The third tree is the first one with the blocks of the second one behind it, `n` lines further
down, and with the scopes of both directly in the file. -/
structure Joins (n : Nat) (t₁ t₂ t : Tree) : Prop where
  size : t.size + 1 = t₁.size + t₂.size
  root : t.block 0 =
    { t₁.block 0 with children := t₁.children 0 ++ (t₂.children 0).map t₁.shift }
  first : ∀ i, 0 < i → i < t₁.size → t.block i = t₁.block i
  second : t₂.Embeds n t₁.shift t

variable {t₁ t₂ t : Tree} {n i p : Nat} {b b' : Block}

@[simp] theorem shift_zero (t : Tree) : t.shift 0 = 0 := rfl

theorem shift_of_pos (t : Tree) (hi : 0 < i) : t.shift i = i + (t.size - 1) :=
  if_neg (Nat.ne_of_gt hi)

theorem shift_inj {j : Nat} : t.shift i = t.shift j ↔ i = j := by
  simp only [shift]
  split <;> split <;> omega

/-! ### Joined trees grow together -/

namespace Joins

variable (h : Joins n t₁ t₂ t) (hpos : 0 < t₁.size)
include h hpos

theorem shift_lt (hi : i < t₂.size) : t₁.shift i < t.size := by
  have hsize := h.size
  rcases Nat.eq_zero_or_pos i with rfl | hi'
  · rw [shift_zero]; omega
  · rw [shift_of_pos _ hi']; omega

theorem shift_size (hp : p < t₂.size) : t₁.shift t₂.size = t.size := by
  have hsize := h.size
  rw [shift_of_pos _ (by omega)]; omega

theorem attach (hp : p < t₂.size) (hb : b'.unmarked = (b.renumber (· + n)).unmarked)
    (hchildren : b.children = []) :
    Joins n t₁ (t₂.attach p b) (t.attach (t₁.shift p) b') := by
  have hsize := h.size
  have hnew := h.shift_size hpos hp
  have hchild : ∀ {i}, i < t₂.size → (t₂.attach p b).children i =
      if i = p then t₂.children i ++ [t₂.size] else t₂.children i := fun hi => by
    rw [children, block_attach_of_lt hi]; rfl
  refine ⟨by rw [size_attach, size_attach]; omega, ?_, fun i hi hlt => ?_, rfl, h.second.pos,
    fun i hi hlt => ?_⟩
  · rw [block_attach_of_lt (by omega), h.root, hchild (by omega)]
    by_cases hp0 : p = 0
    · simp [hp0, hnew]
    · have hne : 0 ≠ t₁.shift p := Nat.ne_of_lt (h.second.pos p (Nat.pos_of_ne_zero hp0))
      simp [hne, Ne.symm hp0]
  · have hne : i ≠ t₁.shift p := by
      simp only [shift]
      split <;> omega
    rw [block_attach_of_lt (by omega), if_neg hne]
    exact h.first i hi hlt
  · rcases Nat.lt_or_eq_of_le (Nat.le_of_lt_succ (size_attach ▸ hlt)) with hlt | rfl
    · have hblock := h.second.block i hi hlt
      rw [block_attach_of_lt (h.shift_lt hpos hlt), block_attach_of_lt hlt]
      simp only [Block.unmarked, Block.moved, Block.renumber, Block.mk.injEq, shift_inj] at hblock ⊢
      simp only [hblock, true_and, and_true]
      split
      · simp [hnew]
      · rfl
    · rw [hnew, block_attach_size (h.shift_lt hpos hp), block_attach_size hp]
      simp only [Block.unmarked, Block.moved, Block.renumber, Block.mk.injEq] at hb ⊢
      simp [hb, hchildren]

/-! ### What joined trees have -/

omit hpos in
/-- The first tree stands in the whole, at the same positions. -/
theorem embeds_first : t₁.Embeds 0 id t :=
  ⟨rfl, fun _ hi => hi, fun i hi hlt => by rw [id, h.first i hi hlt, Block.moved_id]⟩

theorem marked (hroot : (t₂.block 0).kind = .group) (hpos₂ : 0 < t₂.size) :
    t.marked = t₁.marked ++ t₂.marked.map t₁.shift := by
  obtain ⟨m, hm⟩ : ∃ m, t₂.size = m + 1 := ⟨t₂.size - 1, by omega⟩
  have hsize : t.size = t₁.size + m := by have := h.size; omega
  have hfirst : ∀ i, i < t₁.size → (t.block i).kind = (t₁.block i).kind := by
    intro i hi
    rcases Nat.eq_zero_or_pos i with rfl | hipos
    · rw [h.root]
    · rw [h.first i hipos hi]
  have hshift : ∀ j, t₁.shift (j + 1) = t₁.size + j := by
    intro j
    rw [shift_of_pos _ (Nat.succ_pos j)]
    omega
  have hsecond : ∀ j, j < m → (t.block (t₁.size + j)).kind = (t₂.block (j + 1)).kind := by
    intro j hj
    rw [← hshift]
    exact h.second.kind (by omega) (by omega)
  rw [Tree.marked, hsize, List.range_add, List.filter_append, Tree.marked, Tree.marked, hm,
    List.range_succ_eq_map, List.filter_cons_of_neg (by simp [hroot]), List.filter_map,
    List.filter_map, List.map_map]
  congr 1
  · exact List.filter_congr fun i hi => by rw [hfirst i (List.mem_range.mp hi)]
  · rw [List.filter_congr fun j hj => ?_]
    · exact List.map_congr_left fun j _ => (hshift j).symm
    · simp only [Function.comp_apply, hsecond j (List.mem_range.mp hj), Nat.succ_eq_add_one]

theorem units (ht₁ : t₁.Nested) (hl₁ : t₁.Legal) (ht₂ : t₂.Nested) (hl₂ : t₂.Legal)
    (ht : t.Nested) (hl : t.Legal) :
    t.units = t₁.units ++ t₂.units.map (TestUnit.moved t₁.shift) := by
  have hsize := h.size
  have hchildren : t.children 0 = (t₁.children 0).map id ++ (t₂.children 0).map t₁.shift := by
    rw [children, h.root, List.map_id]
  have hid : TestUnit.moved id = id := by
    funext unit; simp [TestUnit.moved]
  have hpos₂ := ht₂.size_pos
  rw [units_eq_flatMap ht hl, hchildren, List.flatMap_append,
    h.embeds_first.units ht₁ hl₁ (by omega), h.second.units ht₂ hl₂ (by omega), hid,
    List.map_id]

end Joins

end Tree

/-! ### Reading behind a cut -/

namespace Parser

namespace State

variable {n : Nat} {t₁ : Tree} {s s' : State} {row : CodeLine}

/-- Two readers have read the same lines, the second one behind the lines of another tree. -/
structure Joins (n : Nat) (t₁ : Tree) (s s' : State) : Prop where
  pos : 0 < t₁.size
  nested : s.tree.Nested
  nested' : s'.tree.Nested
  root_kind : (s.tree.block 0).kind = (t₁.block 0).kind
  tree : Tree.Joins n t₁ s.tree s'.tree
  pending : s'.pending = s.pending.map (CodeLine.renumber (· + n))

/-- At the left margin a header belongs to the file. -/
theorem scopeFor_zero (hs : s.tree.Nested) : s.scopeFor 0 = 0 := by
  obtain ⟨hlt, hindent, -⟩ := scopeFor_spec hs 0
  by_contra hne
  have := hs.neg_one_lt_indent (Nat.pos_of_ne_zero hne) hlt
  omega

theorem joins_start (seed : Digest) (hs : s.tree.Nested) (hl : s.tree.Legal)
    (hpending : s.pending = []) : Joins n s.tree (start seed) s := by
  refine ⟨hs.size_pos, (built_start seed).nested, hs, hl.root_kind.symm, ?_, by rw [hpending]; rfl⟩
  have hchildren : (start seed).tree.children 0 = [] := rfl
  refine ⟨rfl, ?_, fun _ _ _ => rfl, rfl, fun i hi => ?_, fun i hi hlt => ?_⟩
  · rw [hchildren, List.map_nil, List.append_nil]; rfl
  · rw [Tree.shift_of_pos _ hi]; omega
  · exact absurd hlt (Nat.not_lt.mpr hi)

namespace Joins

variable (h : Joins n t₁ s s')
include h

theorem opened {line : Nat} {hd : Header}
    (hscope : s'.scopeFor hd.indent = t₁.shift (s.scopeFor hd.indent)) :
    Joins n t₁ (s.opened line hd) (s'.opened (line + n) hd) := by
  obtain ⟨hp, -, -⟩ := scopeFor_spec h.nested hd.indent
  refine ⟨h.pos, nested_opened h.nested line hd, nested_opened h.nested' _ hd, ?_, ?_, rfl⟩
  · rw [State.opened, Tree.attach_frame Block.kind (fun _ _ => rfl) h.nested.size_pos]
    exact h.root_kind
  · simp only [State.opened, hscope]
    exact h.tree.attach h.pos hp (unmarked_blockOf h.pending line hd) rfl

/-- Corresponding scopes are of one kind. -/
theorem kind_scope {d : Nat} (hscope : s'.scopeFor d = t₁.shift (s.scopeFor d)) :
    (s'.tree.block (s'.scopeFor d)).kind = (s.tree.block (s.scopeFor d)).kind := by
  obtain ⟨hlt, -, -⟩ := scopeFor_spec h.nested d
  rw [hscope]
  rcases Nat.eq_zero_or_pos (s.scopeFor d) with hzero | hpos
  · rw [hzero, Tree.shift_zero, h.root_kind, h.tree.root]
  · exact h.tree.second.kind hpos hlt

section Opened

variable (hsize : 1 < s.tree.size)
include hsize

/-- Once a block is open behind the cut, the current blocks correspond. -/
theorem current : s'.current = t₁.shift s.current := by
  have hjoin := h.tree.size
  have hpos := h.pos
  rw [State.current, State.current, Tree.shift_of_pos _ (by omega)]
  omega

theorem scopeFor (d : Nat) : s'.scopeFor d = t₁.shift (s.scopeFor d) := by
  have hlineage := h.tree.second.lineage h.nested h.nested' _ (current_lt h.nested)
  have hindent : ∀ j ∈ s.tree.lineage s.current,
      (s'.tree.block (t₁.shift j)).indent = (s.tree.block j).indent := by
    intro j hj
    have hlt : j < s.tree.size :=
      lt_of_le_of_lt (h.nested.le_of_mem_lineage (current_lt h.nested) hj) (current_lt h.nested)
    rcases Nat.eq_zero_or_pos j with rfl | hpos
    · rw [Tree.shift_zero, h.nested'.root_indent, h.nested.root_indent]
    · exact h.tree.second.indent hpos hlt
  have hfind : (s.tree.lineage s.current).find?
        ((fun i => decide ((s'.tree.block i).indent < d)) ∘ t₁.shift) =
      (s.tree.lineage s.current).find? fun i => (s.tree.block i).indent < d :=
    List.find?_congr fun j hj => by rw [Function.comp_apply, hindent j hj]
  rw [State.scopeFor, h.current hsize, hlineage, List.find?_map, hfind, State.scopeFor]
  cases (s.tree.lineage s.current).find? fun i => (s.tree.block i).indent < d <;> rfl

/-- Code goes to a block behind the cut. -/
theorem tree_addCode (code : List CodeLine) : Tree.Joins n t₁ (s.addCode code).tree
    (s'.addCode (code.map (CodeLine.renumber (· + n)))).tree := by
  have hpos := h.nested.size_pos
  have hpos' := h.nested'.size_pos
  have hpos₁ := h.pos
  have hsizes := h.tree.size
  have hcurrent := h.current hsize
  have hlast : t₁.size ≤ s'.current := by
    rw [hcurrent, State.current, Tree.shift_of_pos _ (by omega)]; omega
  have hchildren : (s.addCode code).tree.children 0 = s.tree.children 0 :=
    addCode_frame Block.children (fun _ _ => rfl) hpos
  refine ⟨by simpa using hsizes, ?_, fun i hi hlt => ?_, rfl, h.tree.second.pos,
    fun i hi hlt => ?_⟩
  · rw [block_addCode hpos', if_neg (by omega), List.append_nil, hchildren]
    exact h.tree.root
  · rw [block_addCode hpos', if_neg (by omega), List.append_nil]
    exact h.tree.first i hi hlt
  · have hblock := h.tree.second.block i hi (by simpa using hlt)
    rw [block_addCode hpos', block_addCode hpos, hcurrent]
    simp only [Block.unmarked, Block.moved, Block.renumber, Block.mk.injEq,
      Tree.shift_inj] at hblock ⊢
    simp only [hblock, List.map_append, and_true, true_and]
    split <;> simp

theorem addCode (code : List CodeLine) :
    Joins n t₁ (s.addCode code) (s'.addCode (code.map (CodeLine.renumber (· + n)))) := by
  refine ⟨h.pos, nested_addCode h.nested code, nested_addCode h.nested' _, ?_,
    h.tree_addCode hsize code, h.pending⟩
  rw [addCode_frame Block.kind (fun _ _ => rfl) h.nested.size_pos]
  exact h.root_kind

theorem settle : Joins n t₁ s.settle s'.settle := by
  have hadd := h.addCode hsize s.pending
  rw [← h.pending] at hadd
  exact ⟨hadd.pos, hadd.nested, hadd.nested', hadd.root_kind, hadd.tree, rfl⟩

/-- Once a block is open behind the cut, the readers stay in step. -/
theorem step : Agree (· + n) (fun a b => Joins n t₁ a b ∧ 1 < a.tree.size) (s.step row)
    (s'.step (row.renumber (· + n))) := by
  refine step_agree ?_ ⟨h, hsize⟩ (fun hd _ => ?_)
    (fun hd _ _ => ⟨h.opened (h.scopeFor hsize _), ?_⟩) ?_ ?_
  · rw [h.pending, List.isEmpty_map]
  · exact h.kind_scope (h.scopeFor hsize _)
  · rw [State.opened, Tree.size_attach]; omega
  · exact ⟨⟨h.pos, h.nested, h.nested', h.root_kind, h.tree, by simp [h.pending]⟩, hsize⟩
  · have hsettled : 1 < s.settle.tree.size := by simpa using hsize
    exact ⟨(h.settle hsize).addCode hsettled [row], by simpa using hsize⟩

end Opened

/-- The first header behind the cut is opened alike. -/
theorem step_first {hd : Header} (hh : Header.parse? row.text = some hd) (hindent : hd.indent = 0) :
    Agree (· + n) (fun a b => Joins n t₁ a b ∧ 1 < a.tree.size) (s.step row)
      (s'.step (row.renumber (· + n))) := by
  have hscope : s'.scopeFor hd.indent = t₁.shift (s.scopeFor hd.indent) := by
    rw [hindent, scopeFor_zero h.nested, scopeFor_zero h.nested', Tree.shift_zero]
  have hsolid : Text.allBlank row.text = false := by
    by_contra hblank
    rw [Header.parse?_of_allBlank (by simpa using hblank)] at hh
    cases hh
  simp only [State.step, CodeLine.renumber, hsolid, hh, Bool.false_eq_true, if_false]
  refine openBlock_agree (h.kind_scope hscope) fun _ => ⟨h.opened hscope, ?_⟩
  have hpos := h.nested.size_pos
  rw [State.opened, Tree.size_attach]
  omega

end Joins

end State

/-! ### The cut -/

/-- Whether a row of lines ends in decorators, comments among them or behind them. -/
def endsInMarks (texts : List Text) : Bool :=
  (texts.reverse.takeWhile fun x => isDecorator x || isComment x).any isDecorator

/-- Whether the lines of a spec that are not blank end in decorators. -/
def endsInDecorators (source : Text) : Bool := endsInMarks (solidTexts source)

variable {s₁ s₂ : Text} {seed : Digest}

/-- Only lines at the end can be left waiting. -/
theorem pending_eq_nil {s : State} (hdec : endsInDecorators s₁ = false)
    (hs : (numbered s₁).foldlM State.step (start seed) = .ok s) : s.pending = [] := by
  suffices hmarks : s.pending ≠ [] →
      endsInMarks (((numbered s₁).filter isSolid).map (·.text)) = true by
    by_contra hne
    rw [map_text_filter_isSolid, ← endsInDecorators, hdec] at hmarks
    exact absurd (hmarks hne) (by decide)
  refine read_induction (P := fun seen s => s.pending ≠ [] →
    endsInMarks ((seen.filter isSolid).map (·.text)) = true) (fun hne => absurd rfl hne) ?_ hs
  intro seen row rest s s' _ ih hr hne
  rw [List.filter_append, List.filter_singleton]
  cases hr with
  | blank hb => simpa [isSolid, hb] using ih hne
  | header _ _ _ => exact absurd rfl hne
  | waits hb _ hw =>
    rcases hw with hdec | ⟨hcom, hold⟩
    · simp [isSolid, hb, endsInMarks, hdec]
    · have hmarks := ih hold
      rw [endsInMarks] at hmarks
      simp [isSolid, hb, endsInMarks, hcom, hmarks]
  | code _ _ _ => exact absurd rfl hne

/-- The lines of the whole are those of the parts, the later ones further down. -/
theorem numbered_append (hend : s₁.EndsLine) : numbered (s₁ ++ s₂) =
    numbered s₁ ++ (numbered s₂).map (CodeLine.renumber (· + (Text.lines s₁).length)) := by
  rw [numbered, Text.lines_append hend, List.zipIdx_append, List.map_append, numbered, numbered,
    List.map_map]
  congr 1
  refine List.ext_getElem (by simp) fun i _ _ => ?_
  simp only [List.getElem_map, List.getElem_zipIdx, Function.comp_apply, CodeLine.renumber]
  congr 1
  omega

/-- Settling changes nothing when nothing waits. -/
theorem State.tree_settle_of_pending {s : State} (hs : s.tree.Nested) (h : s.pending = []) :
    s.settle.tree = s.tree := by
  refine Tree.ext_block (by simp) fun i => ?_
  rw [tree_settle, block_addCode hs.size_pos, h]
  simp

/-- Runs that start with a header at the left margin stay in step from there on. -/
theorem run_joins {n : Nat} {t₁ : Tree} {a b : State} {row : CodeLine} {hd : Header}
    (h : State.Joins n t₁ a b) (hh : Header.parse? row.text = some hd) (hindent : hd.indent = 0)
    (rest : List CodeLine) :
    Agree (· + n) (fun a b => State.Joins n t₁ a b ∧ 1 < a.tree.size)
      ((row :: rest).foldlM State.step a)
      (((row :: rest).map (CodeLine.renumber (· + n))).foldlM State.step b) := by
  rw [List.foldlM_cons, List.map_cons, List.foldlM_cons]
  exact (h.step_first hh hindent).bind fun a b hab =>
    run_agree (R := fun _ a b => State.Joins n t₁ a b ∧ 1 < a.tree.size)
      (fun _ _ _ _ _ _ h => h.1.step h.2) hab

/-- Behind a first part that was read, the second one is read as on its own. -/
theorem parse_append (hend : s₁.EndsLine) (hdec : endsInDecorators s₁ = false) {line : Text}
    {hd : Header} (hfirst : (solidTexts s₂).head? = some line) (hh : Header.parse? line = some hd)
    (hindent : hd.indent = 0) {t₁ : Tree} (h₁ : parse s₁ seed = .ok t₁) :
    Agree (· + (Text.lines s₁).length) (Tree.Joins (Text.lines s₁).length t₁) (parse s₂ seed)
      (parse (s₁ ++ s₂) seed) := by
  obtain ⟨s, hs, rfl⟩ := run_of_parse h₁
  have hbuilt := built_of_run hs
  have hpending := pending_eq_nil hdec hs
  rw [State.tree_settle_of_pending hbuilt.nested hpending]
  rw [← map_text_filter_isSolid, List.head?_map, Option.map_eq_some_iff] at hfirst
  obtain ⟨row, hrow, rfl⟩ := hfirst
  obtain ⟨rest, hrows⟩ := List.head?_eq_some_iff.mp hrow
  have hstart : State.Joins (Text.lines s₁).length s.tree (start seed) s :=
    State.joins_start seed hbuilt.nested hbuilt.legal hpending
  have hrun := run_joins hstart hh hindent rest
  -- both runs skip the blank lines in front
  rw [← hrows, ← filter_isSolid_map_renumber, foldlM_filter_isSolid, foldlM_filter_isSolid] at hrun
  rw [parse, parse, numbered_append hend, List.foldlM_append, hs]
  exact hrun.map fun _ _ h => (h.1.settle h.2).tree

/-- What cannot be read makes no whole that can be read. -/
theorem exists_parse_of_append (hend : s₁.EndsLine) {t : Tree}
    (h : parse (s₁ ++ s₂) seed = .ok t) : ∃ t₁, parse s₁ seed = .ok t₁ := by
  obtain ⟨s, hs, -⟩ := run_of_parse h
  rw [numbered_append hend, List.foldlM_append] at hs
  cases hfront : (numbered s₁).foldlM State.step (start seed) with
  | error fault => rw [hfront] at hs; cases hs
  | ok s => exact ⟨s.settle.tree, by rw [parse, hfront]; rfl⟩

end Parser

/-! ### Independence -/

/-- The tree of two sections: the blocks of the second one behind those of the first one, with the
suffixes drawn after those of the first, and units that neither section changes for the other. -/
structure Tree.Sections (n : Nat) (draws : SuffixStream) (t₁ t₂ t : Tree) : Prop
    extends Tree.Joins n t₁ t₂ t where
  /-- The draws of the second section follow those of the first one. -/
  suffix : ∀ k i, t₂.marked[k]? = some i →
    (t.block (t₁.shift i)).suffix = some (draws.after (t₁.marked.length + k)).suffix
  units : t.units = t₁.units ++ t₂.units.map (TestUnit.moved t₁.shift)
  /-- What runs around the tests of a section stands in that section. -/
  around_first : ∀ unit ∈ t₁.units, t.setUps unit.scope = t₁.setUps unit.scope ∧
    t.tearDowns unit.scope = t₁.tearDowns unit.scope
  around_second : ∀ unit ∈ t₂.units,
    t.setUps (t₁.shift unit.scope) = (t₂.setUps unit.scope).map t₁.shift ∧
    t.tearDowns (t₁.shift unit.scope) = (t₂.tearDowns unit.scope).map t₁.shift

theorem Parser.sections_of_joins {s₁ s₂ source : Text} {seed : Digest} {t₁ t₂ t : Tree} {n : Nat}
    (h₁ : parse s₁ seed = .ok t₁) (h₂ : parse s₂ seed = .ok t₂) (h : parse source seed = .ok t)
    (hjoin : t₁.Joins n t₂ t) : Tree.Sections n (.ofSeed seed) t₁ t₂ t := by
  obtain ⟨ht₁, hl₁⟩ := nested_and_legal_of_parse h₁
  obtain ⟨ht₂, hl₂⟩ := nested_and_legal_of_parse h₂
  obtain ⟨ht, hl⟩ := nested_and_legal_of_parse h
  have hscope : ∀ {t : Tree}, t.Nested → t.Legal → ∀ unit ∈ t.units, unit.scope < t.size :=
    fun ht hl unit hu => Tree.lt_size_of_tests_ne_nil ht ((Tree.mem_units_iff ht hl).mp hu).1
  refine ⟨hjoin, fun k i hi => suffix_of_marked h ?_,
    hjoin.units ht₁.size_pos ht₁ hl₁ ht₂ hl₂ ht hl, fun unit hu => ?_, fun unit hu => ?_⟩
  · rw [hjoin.marked ht₁.size_pos hl₂.root_kind ht₂.size_pos, List.getElem?_append_right (by omega),
      Nat.add_sub_cancel_left, List.getElem?_map, hi]
    rfl
  · have hlt := hscope ht₁ hl₁ unit hu
    have hsetUps := hjoin.embeds_first.setUps ht₁ ht hlt
    have htearDowns := hjoin.embeds_first.tearDowns ht₁ ht hlt
    rw [List.map_id] at hsetUps htearDowns
    exact ⟨hsetUps, htearDowns⟩
  · have hlt := hscope ht₂ hl₂ unit hu
    exact ⟨hjoin.second.setUps ht₂ ht hlt, hjoin.second.tearDowns ht₂ ht hlt⟩

/-- Sections are independent: a spec that is cut in front of a header at the left margin, where no
decorators wait, can be read just when both parts can, and its tree is made of theirs. -/
theorem parse_sections {s₁ s₂ : Text} (hend : s₁.EndsLine)
    (hdec : Parser.endsInDecorators s₁ = false) {line : Text} {hd : Header}
    (hfirst : (Parser.solidTexts s₂).head? = some line) (hh : Header.parse? line = some hd)
    (hindent : hd.indent = 0) (seed : Digest) :
    ((∃ t, parse (s₁ ++ s₂) seed = .ok t) ↔
      (∃ t₁, parse s₁ seed = .ok t₁) ∧ ∃ t₂, parse s₂ seed = .ok t₂) ∧
    ∀ t₁ t₂ t, parse s₁ seed = .ok t₁ → parse s₂ seed = .ok t₂ → parse (s₁ ++ s₂) seed = .ok t →
      Tree.Sections (Text.lines s₁).length (.ofSeed seed) t₁ t₂ t := by
  refine ⟨⟨fun ⟨t, ht⟩ => ?_, fun ⟨⟨t₁, h₁⟩, h₂⟩ => ?_⟩, fun t₁ t₂ t h₁ h₂ ht => ?_⟩
  · obtain ⟨t₁, h₁⟩ := Parser.exists_parse_of_append hend ht
    have hagree := Parser.parse_append hend hdec hfirst hh hindent h₁
    exact ⟨⟨t₁, h₁⟩, hagree.exists_ok_iff.mpr ⟨t, ht⟩⟩
  · exact (Parser.parse_append hend hdec hfirst hh hindent h₁).exists_ok_iff.mp h₂
  · have hagree := Parser.parse_append hend hdec hfirst hh hindent h₁
    rw [h₂, ht] at hagree
    exact Parser.sections_of_joins h₁ h₂ ht hagree.of_ok

/-- A section with code of the file, a decorated test and a comment at its end. -/
def firstSection : Text :=
  ("import os\ndescribe \"A\":\n    before \"b\": f()\n    @skip\n    it \"x\": g()\n" ++
    "    # done\n").toList

/-- A section with a before of its own. -/
def secondSection : Text :=
  "\ndescribe \"B\":\n    context \"C\":\n        before \"b\": f()\n        it \"x\": g()\n".toList

theorem parse_sections_decorated : ∃ t₁ t₂ t,
    parse firstSection (Vector.replicate 32 7) = .ok t₁ ∧
    parse secondSection (Vector.replicate 32 7) = .ok t₂ ∧
    parse (firstSection ++ secondSection) (Vector.replicate 32 7) = .ok t ∧
    t₁.size = 4 ∧ t₂.size = 5 ∧
    Tree.Sections 6 (.ofSeed (Vector.replicate 32 7)) t₁ t₂ t := by
  have hview : (parse firstSection (Vector.replicate 32 7)).map Tree.size = .ok 4 := by
    decide +kernel
  have hview' : (parse secondSection (Vector.replicate 32 7)).map Tree.size = .ok 5 := by
    decide +kernel
  obtain ⟨t₁, h₁, hsize₁⟩ := exists_of_map_eq_ok hview
  obtain ⟨t₂, h₂, hsize₂⟩ := exists_of_map_eq_ok hview'
  have hend : firstSection.EndsLine := .inr (by decide +kernel)
  have hfirst : (Parser.solidTexts secondSection).head? = some "describe \"B\":".toList := by
    decide +kernel
  have hh : Header.parse? "describe \"B\":".toList =
      some ⟨0, .describe, "B".toList, none, none⟩ := by
    decide +kernel
  obtain ⟨hread, hsections⟩ :=
    parse_sections hend (by decide +kernel) hfirst hh rfl (Vector.replicate 32 7)
  obtain ⟨t, h⟩ := hread.mpr ⟨⟨t₁, h₁⟩, t₂, h₂⟩
  exact ⟨t₁, t₂, t, h₁, h₂, h, hsize₁, hsize₂, hsections t₁ t₂ t h₁ h₂ h⟩

end BlockSpec
