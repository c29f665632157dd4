import BlockSpec.Proofs.Nesting
import Mathlib.Order.Bounds.Basic

/-! # The tree that reading builds

Reading only ever adds code to the last block or attaches a block to the nearest open one that is
indented less. Both keep the tree nested and its blocks legal, so the tree of every spec that can be
read is a well-formed arena, in which the parent of a block is the nearest earlier block of smaller
indent. -/

namespace BlockSpec

/-- The block without its code. -/
def Block.bare (b : Block) : Block := { b with body := [] }

/-- Blocks that differ in their code only agree in everything that does not look at it. -/
theorem Block.congr_bare {α : Type} (f : Block → α) (hf : ∀ b : Block, f b.bare = f b) {b c : Block}
    (h : b.bare = c.bare) : f b = f c := by
  rw [← hf b, h, hf]

namespace Tree

/-- What the blocks of a spec that can be read have each on its own: the file leads, kinds stand
where they are accepted, headers come in the order of their lines, and suffixes and arguments are
only where they belong. -/
structure Legal (t : Tree) : Prop where
  root_kind : (t.block 0).kind = .group
  root_line : (t.block 0).line = 0
  accepts : ∀ i p, t.parent? i = some p → (t.block p).kind.accepts (t.block i).kind = true
  line_lt : ∀ i j, i < j → j < t.size → (t.block i).line < (t.block j).line
  suffix_iff : ∀ i, (t.block i).suffix.isSome = (t.block i).kind.takesSuffix
  args_test : ∀ i, (t.block i).args.isSome = true → (t.block i).kind = .test

/-! ### Adding code keeps the shape -/

variable {t t' : Tree}

theorem Nested.of_bare (ht : t.Nested) (hsize : t'.size = t.size)
    (hbare : ∀ i, (t'.block i).bare = (t.block i).bare) : t'.Nested := by
  have hindent i : (t'.block i).indent = (t.block i).indent :=
    Block.congr_bare Block.indent (fun _ => rfl) (hbare i)
  have hparent i : t'.parent? i = t.parent? i :=
    Block.congr_bare Block.parent (fun _ => rfl) (hbare i)
  have hchildren i : t'.children i = t.children i :=
    Block.congr_bare Block.children (fun _ => rfl) (hbare i)
  refine ⟨by rw [hsize]; exact ht.size_pos, by rw [hindent]; exact ht.root_indent,
    by rw [hparent]; exact ht.root_parent, fun i hpos hi => ?_, fun i => ?_⟩
  · obtain ⟨p, hp, hn⟩ := ht.nearest i hpos (hsize ▸ hi)
    refine ⟨p, by rw [hparent, hp], hn.lt, by rw [hindent, hindent]; exact hn.indent_lt, ?_⟩
    intro j hpj hji
    rw [hindent, hindent]
    exact hn.between j hpj hji
  · simp only [hchildren, hsize, hparent, ht.children_eq]

theorem Legal.of_bare (ht : t.Legal) (hsize : t'.size = t.size)
    (hbare : ∀ i, (t'.block i).bare = (t.block i).bare) : t'.Legal := by
  have hkind i : (t'.block i).kind = (t.block i).kind :=
    Block.congr_bare Block.kind (fun _ => rfl) (hbare i)
  have hline i : (t'.block i).line = (t.block i).line :=
    Block.congr_bare Block.line (fun _ => rfl) (hbare i)
  have hparent i : t'.parent? i = t.parent? i :=
    Block.congr_bare Block.parent (fun _ => rfl) (hbare i)
  have hsuffix i : (t'.block i).suffix = (t.block i).suffix :=
    Block.congr_bare Block.suffix (fun _ => rfl) (hbare i)
  have hargs i : (t'.block i).args = (t.block i).args :=
    Block.congr_bare Block.args (fun _ => rfl) (hbare i)
  constructor <;> simp only [hkind, hline, hparent, hsuffix, hargs, hsize]
  · exact ht.root_kind
  · exact ht.root_line
  · exact ht.accepts
  · exact ht.line_lt
  · exact ht.suffix_iff
  · exact ht.args_test

/-! ### Attaching a block keeps the shape -/

variable {p i : Nat} {b : Block}

theorem parent?_attach_of_lt (hi : i < t.size) : (t.attach p b).parent? i = t.parent? i :=
  attach_frame Block.parent (fun _ _ => rfl) hi

theorem parent?_attach_size (hp : p < t.size) : (t.attach p b).parent? t.size = some p := by
  rw [parent?, block_attach_size hp]

/-- Nothing names the new block as its parent yet, and the new block names only its own. -/
theorem Nested.children_attach (ht : t.Nested) (hp : p < t.size) (hb : b.children = []) (i : Nat) :
    (t.attach p b).children i =
      (List.range (t.size + 1)).filter fun j => (t.attach p b).parent? j = some i := by
  have hold : (List.range t.size).filter (fun j => (t.attach p b).parent? j = some i) =
      t.children i := by
    rw [ht.children_eq]
    refine List.filter_congr fun j hj => ?_
    rw [parent?_attach_of_lt (List.mem_range.mp hj)]
  rw [List.range_succ, List.filter_append, hold, List.filter_singleton, parent?_attach_size hp]
  rcases Nat.lt_trichotomy i t.size with hi | rfl | hi
  · rw [children, block_attach_of_lt hi, children]
    by_cases hpi : i = p
    · simp [hpi]
    · simp [hpi, Ne.symm hpi]
  · have hnone : t.children t.size = [] := by rw [children, block_of_size_le le_rfl]; rfl
    rw [children, block_attach_size hp, hnone]
    simp [hb, Nat.ne_of_lt hp]
  · have hnone : t.children i = [] := by rw [children, block_of_size_le hi.le]; rfl
    rw [children, block_of_size_le (by rw [size_attach]; exact hi), hnone]
    simp [Nat.ne_of_lt (lt_trans hp hi), Block.root]

/-- A block attached to the nearest block that is indented less leaves the tree nested. -/
theorem Nested.attach (ht : t.Nested) (hp : p < t.size) (hb : b.children = [])
    (hindent : (t.block p).indent < b.indent)
    (hbetween : ∀ j, p < j → j < t.size → b.indent ≤ (t.block j).indent) :
    (t.attach p b).Nested := by
  have hkeep {i} (hi : i < t.size) : ((t.attach p b).block i).indent = (t.block i).indent :=
    attach_frame Block.indent (fun _ _ => rfl) hi
  have hnew : ((t.attach p b).block t.size).indent = b.indent := by rw [block_attach_size hp]
  refine ⟨by simp, by rw [hkeep ht.size_pos]; exact ht.root_indent,
    by rw [parent?_attach_of_lt ht.size_pos]; exact ht.root_parent, fun i hpos hi => ?_,
    fun i => by rw [size_attach]; exact ht.children_attach hp hb i⟩
  rcases Nat.lt_or_eq_of_le (Nat.le_of_lt_succ (size_attach ▸ hi)) with hlt | rfl
  · obtain ⟨q, hq, hn⟩ := ht.nearest i hpos hlt
    refine ⟨q, by rw [parent?_attach_of_lt hlt, hq], hn.lt, ?_, fun j hqj hji => ?_⟩
    · rw [hkeep hlt, hkeep (lt_trans hn.lt hlt)]; exact hn.indent_lt
    · rw [hkeep hlt, hkeep (lt_trans hji hlt)]; exact hn.between j hqj hji
  · refine ⟨p, parent?_attach_size hp, hp, by rw [hkeep hp, hnew]; exact hindent, ?_⟩
    intro j hpj hj
    rw [hnew, hkeep hj]
    exact hbetween j hpj hj

/-- A legal block, put where it is accepted and on a later line, leaves the blocks legal. -/
theorem Legal.attach (ht : t.Legal) (hp : p < t.size)
    (hparent : ∀ i q, t.parent? i = some q → q < i)
    (haccepts : (t.block p).kind.accepts b.kind = true)
    (hline : ∀ i, i < t.size → (t.block i).line < b.line)
    (hsuffix : b.suffix.isSome = b.kind.takesSuffix)
    (hargs : b.args.isSome = true → b.kind = .test) :
    (t.attach p b).Legal := by
  have hpos : 0 < t.size := lt_of_le_of_lt (Nat.zero_le p) hp
  -- a block of the new tree is an old one, the new one, or none at all
  have hcases i : i < t.size ∨ i = t.size ∨ t.size < i := Nat.lt_trichotomy i t.size
  have hkind {i} (hi : i < t.size) : ((t.attach p b).block i).kind = (t.block i).kind :=
    attach_frame Block.kind (fun _ _ => rfl) hi
  have hlines {i} (hi : i < t.size) : ((t.attach p b).block i).line = (t.block i).line :=
    attach_frame Block.line (fun _ _ => rfl) hi
  have hbeyond {i} (hi : t.size < i) : (t.attach p b).block i = Block.root :=
    block_of_size_le (by rw [size_attach]; exact hi)
  refine ⟨by rw [hkind hpos]; exact ht.root_kind, by rw [hlines hpos]; exact ht.root_line,
    fun i q hq => ?_, fun i j hij hj => ?_, fun i => ?_, fun i h => ?_⟩
  · rcases hcases i with hi | rfl | hi
    · rw [parent?_attach_of_lt hi] at hq
      rw [hkind hi, hkind (lt_trans (hparent i q hq) hi)]
      exact ht.accepts i q hq
    · rw [parent?_attach_size hp] at hq
      cases hq
      rw [hkind hp, block_attach_size hp]
      exact haccepts
    · rw [parent?, hbeyond hi] at hq; cases hq
  · rcases Nat.lt_or_eq_of_le (Nat.le_of_lt_succ (size_attach ▸ hj)) with hlt | rfl
    · rw [hlines hlt, hlines (lt_trans hij hlt)]
      exact ht.line_lt i j hij hlt
    · rw [hlines hij, block_attach_size hp]
      exact hline i hij
  · rcases hcases i with hi | rfl | hi
    · rw [hkind hi, attach_frame Block.suffix (fun _ _ => rfl) hi]
      exact ht.suffix_iff i
    · rw [block_attach_size hp]; exact hsuffix
    · rw [hbeyond hi]; rfl
  · rcases hcases i with hi | rfl | hi
    · rw [attach_frame Block.args (fun _ _ => rfl) hi] at h
      rw [hkind hi]
      exact ht.args_test i h
    · rw [block_attach_size hp] at h ⊢
      exact hargs h
    · rw [hbeyond hi] at h; cases h

end Tree

/-! ### Reading -/

namespace Parser

namespace State

/-- What a run keeps: the tree is nested, its blocks are legal and their headers were read. -/
structure Built (seen : List CodeLine) (s : State) : Prop where
  nested : s.tree.Nested
  legal : s.tree.Legal
  line_le : ∀ i, (s.tree.block i).line ≤ seen.length

variable {s : State} {seen : List CodeLine}

theorem current_lt (hs : s.tree.Nested) : s.current < s.tree.size :=
  Nat.sub_lt hs.size_pos Nat.one_pos

/-- The block that a header belongs to is the nearest one that is indented less. -/
theorem scopeFor_spec (hs : s.tree.Nested) (d : Nat) :
    s.scopeFor d < s.tree.size ∧ (s.tree.block (s.scopeFor d)).indent < (d : Int) ∧
      ∀ j, s.scopeFor d < j → j < s.tree.size → (d : Int) ≤ (s.tree.block j).indent := by
  obtain ⟨q, hfind, hq, hlt, habove⟩ := hs.find?_lineage (d := (d : Int)) (by omega) s.current
    (current_lt hs)
  have hscope : s.scopeFor d = q := by rw [scopeFor, hfind]; rfl
  rw [hscope]
  refine ⟨lt_of_le_of_lt hq (current_lt hs), hlt, fun j hqj hj => habove j hqj ?_⟩
  exact Nat.le_sub_one_of_lt hj

theorem built_start (seed : Digest) : Built [] (start seed) := by
  have hblock : ∀ i, (start seed).tree.block i = Block.root := by
    rintro (_ | i)
    · rfl
    · exact Tree.block_of_size_le (Nat.le_add_left 1 i)
  have hparent i : (start seed).tree.parent? i = none := by rw [Tree.parent?, hblock]; rfl
  have hsize : (start seed).tree.size = 1 := rfl
  refine ⟨⟨Nat.one_pos, by rw [hblock]; rfl, hparent 0, fun i hpos hi => ?_, fun i => ?_⟩,
    ⟨by rw [hblock]; rfl, by rw [hblock]; rfl, fun i p hp => ?_, fun i j hij hj => ?_,
      fun i => by rw [hblock]; rfl, fun i h => ?_⟩, fun i => by rw [hblock]; exact Nat.zero_le _⟩
  · omega
  · simp [Tree.children, hblock, hparent, Block.root]
  · rw [hparent] at hp; cases hp
  · omega
  · rw [hblock] at h; cases h

theorem Built.addCode (hs : Built seen s) (code : List CodeLine) : Built seen (s.addCode code) := by
  have hbare i : ((s.addCode code).tree.block i).bare = (s.tree.block i).bare :=
    addCode_frame Block.bare (fun _ _ => rfl) hs.nested.size_pos
  refine ⟨hs.nested.of_bare size_addCode hbare, hs.legal.of_bare size_addCode hbare, fun i => ?_⟩
  rw [addCode_frame Block.line (fun _ _ => rfl) hs.nested.size_pos]
  exact hs.line_le i

theorem Built.opened (hs : Built seen s) {row : CodeLine} {h : Header}
    (hrow : row.line = seen.length + 1) (ha : s.Admits h) :
    Built (seen ++ [row]) (s.opened row.line h) := by
  obtain ⟨hp, hindent, hbetween⟩ := scopeFor_spec hs.nested h.indent
  have hline : ∀ i, i < s.tree.size → (s.tree.block i).line < (s.blockOf row.line h).line := by
    intro i _
    have := hs.line_le i
    simp only [blockOf]
    omega
  refine ⟨hs.nested.attach hp rfl hindent hbetween,
    hs.legal.attach hp (fun i q => hs.nested.parent_lt) ha.accepted hline ?_ ?_, fun i => ?_⟩
  · simp only [blockOf]
    cases h.kind.takesSuffix <;> rfl
  · simp only [blockOf]
    intro hargs
    by_contra hk
    rw [if_neg hk] at hargs
    cases hargs
  · rw [List.length_append, List.length_singleton]
    rcases Nat.lt_trichotomy i s.tree.size with hi | rfl | hi
    · rw [State.opened, Tree.attach_frame Block.line (fun _ _ => rfl) hi]
      exact le_trans (hs.line_le i) (Nat.le_succ _)
    · rw [State.opened, Tree.block_attach_size hp]
      exact hrow.le
    · rw [State.opened, Tree.block_of_size_le (by rw [Tree.size_attach]; exact hi)]
      exact Nat.zero_le _

/-- Every line keeps it. -/
theorem Built.reads (hs : Built seen s) {row : CodeLine} {s' : State}
    (hrow : row.line = seen.length + 1) (hr : Reads s row s') : Built (seen ++ [row]) s' := by
  -- a line that opens nothing leaves all headers among the lines read before
  have hmono : ∀ {s}, Built seen s → Built (seen ++ [row]) s := fun hs =>
    ⟨hs.nested, hs.legal, fun i => le_trans (hs.line_le i) (by simp)⟩
  cases hr with
  | blank => exact hmono hs
  | header _ _ ha => exact hs.opened hrow ha
  | waits => exact hmono ⟨hs.nested, hs.legal, hs.line_le⟩
  | code =>
    have hadd := hs.addCode s.pending
    have hset : Built seen s.settle := ⟨hadd.nested, hadd.legal, hadd.line_le⟩
    exact hmono (hset.addCode [row])

end State

/-- A run leads from the start to a state with a nested tree of legal blocks. -/
theorem built_of_run {source : Text} {seed : Digest} {s : State}
    (h : (numbered source).foldlM State.step (start seed) = .ok s) :
    State.Built (numbered source) s :=
  read_induction (P := State.Built) (State.built_start seed)
    (fun _ _ _ _ _ hrows hs hr => hs.reads (line_of_numbered hrows) hr) h

theorem nested_and_legal_of_parse {source : Text} {seed : Digest} {t : Tree}
    (h : parse source seed = .ok t) : t.Nested ∧ t.Legal := by
  obtain ⟨s, hs, rfl⟩ := run_of_parse h
  have hb := (built_of_run hs).addCode s.pending
  exact ⟨hb.nested, hb.legal⟩

/-! ### What every block has -/

section EveryBlock

variable {Q : Block → Prop} (hframe : ∀ (b : Block) body children parent,
  Q { b with body := body, children := children, parent := parent } ↔ Q b)
include hframe

theorem State.forall_block_addCode {s : State} (hs : s.tree.Nested)
    (hQ : ∀ i, Q (s.tree.block i)) (code : List CodeLine) (i : Nat) :
    Q ((s.addCode code).tree.block i) := by
  rw [State.block_addCode hs.size_pos]
  exact (hframe ..).mpr (hQ i)

theorem State.forall_block_opened {s : State} (hs : s.tree.Nested) (hQ : ∀ i, Q (s.tree.block i))
    (file : Q Block.root) {line : Nat} {h : Header} (hnew : Q (s.blockOf line h)) (i : Nat) :
    Q ((s.opened line h).tree.block i) := by
  obtain ⟨hp, -, -⟩ := State.scopeFor_spec hs h.indent
  rcases Nat.lt_trichotomy i s.tree.size with hi | rfl | hi
  · rw [State.opened, Tree.block_attach_of_lt hi]
    exact (hframe ..).mpr (hQ i)
  · rw [State.opened, Tree.block_attach_size hp]
    exact (hframe ..).mpr hnew
  · rw [State.opened, Tree.block_of_size_le (by rw [Tree.size_attach]; exact hi)]
    exact file

/-- What the file's block has, and every block has that a header line of the spec opens, all blocks
of a spec have, as long as neither code nor links matter. -/
theorem forall_block_of_lines (file : Q Block.root) {source : Text} {seed : Digest} {t : Tree}
    (opened : ∀ (s : State) (row : CodeLine) (h : Header), row ∈ numbered source →
      Header.parse? row.text = some h → s.Admits h → Q (s.blockOf row.line h))
    (h : parse source seed = .ok t) (i : Nat) : Q (t.block i) := by
  obtain ⟨s, hs, rfl⟩ := run_of_parse h
  have hrun : s.Built (numbered source) ∧ ∀ i, Q (s.tree.block i) := by
    refine read_induction (P := fun seen s => s.Built seen ∧ ∀ i, Q (s.tree.block i))
      ⟨State.built_start seed, ?_⟩ ?_ hs
    · rintro (_ | i)
      · exact file
      · rw [Tree.block_of_size_le (Nat.le_add_left 1 i)]
        exact file
    · rintro seen row rest s s' hrows ⟨hb, hQ⟩ hr
      have hrow : row ∈ numbered source := by simp [hrows]
      refine ⟨hb.reads (line_of_numbered hrows) hr, ?_⟩
      cases hr with
      | blank => exact hQ
      | header _ hh ha =>
        exact State.forall_block_opened hframe hb.nested hQ file (opened s row _ hrow hh ha)
      | waits => exact hQ
      | code =>
        have hsettle := State.forall_block_addCode hframe hb.nested hQ s.pending
        exact State.forall_block_addCode hframe (hb.addCode s.pending).nested hsettle [row]
  exact State.forall_block_addCode hframe hrun.1.nested hrun.2 s.pending i

/-- The same without a look at the lines: what every block has, whatever header opens it. -/
theorem forall_block_of_parse (file : Q Block.root)
    (opened : ∀ (s : State) (line : Nat) (h : Header), s.Admits h → Q (s.blockOf line h))
    {source : Text} {seed : Digest} {t : Tree} (h : parse source seed = .ok t) (i : Nat) :
    Q (t.block i) :=
  forall_block_of_lines hframe file (fun s row hd _ _ ha => opened s row.line hd ha) h i

end EveryBlock

end Parser

/-! ### The arena -/

namespace Tree

/-- A well-formed arena of blocks: a forest of links that hangs from the file, is nested by kind and
by indent, and lists its blocks in the order of their headers. -/
structure IsArena (t : Tree) : Prop where
  /-- The file leads. -/
  root : 0 < t.size ∧ (t.block 0).kind = .group ∧ (t.block 0).indent = -1 ∧
    (t.block 0).line = 0 ∧ t.parent? 0 = none
  /-- Every other block has one earlier parent, which lists it once and alone. -/
  parent : ∀ i, 0 < i → i < t.size → ∃ p, t.parent? i = some p ∧ p < i ∧
    (t.children p).count i = 1 ∧ (∀ q, q ≠ p → i ∉ t.children q) ∧
    (t.block p).kind.accepts (t.block i).kind = true ∧ (t.block p).indent < (t.block i).indent
  /-- Children are blocks, in order. -/
  children : ∀ i, (t.children i).Pairwise (· < ·) ∧ ∀ j ∈ t.children i, 0 < j ∧ j < t.size
  /-- Headers come in the order of their lines. -/
  line_lt : ∀ i j, i < j → j < t.size → (t.block i).line < (t.block j).line
  /-- The ancestors of a block are found by following the links up, fall strictly and end in the
  file. -/
  ancestors : ∀ i, i < t.size →
    t.ancestors i = (match t.parent? i with | some p => p :: t.ancestors p | none => []) ∧
    (t.lineage i).Pairwise (· > ·) ∧ (t.lineage i).getLast? = some 0
  /-- Visiting every block before its children meets the blocks in order. -/
  walk : t.walk.map (·.2) = List.range t.size
  /-- Suffixes are exactly where they belong. -/
  suffix : ∀ i, i < t.size →
    ((t.block i).suffix.isSome = true ↔ (t.block i).kind = .before ∨ (t.block i).kind = .after)
  /-- Only tests have arguments. -/
  args : ∀ i, i < t.size → (t.block i).args.isSome = true → (t.block i).kind = .test

theorem IsArena.of_nested {t : Tree} (ht : t.Nested) (hl : t.Legal) : t.IsArena where
  root := ⟨ht.size_pos, hl.root_kind, ht.root_indent, hl.root_line, ht.root_parent⟩
  parent i hpos hi := by
    obtain ⟨p, hp, hn⟩ := ht.nearest i hpos hi
    refine ⟨p, hp, hn.lt, ?_, fun q hq hmem => hq ?_, hl.accepts i p hp, hn.indent_lt⟩
    · exact List.count_eq_one_of_mem (ht.children_sorted p).nodup (ht.mem_children.mpr hp)
    · rw [ht.mem_children, hp] at hmem
      exact (Option.some.inj hmem).symm
  children i := by
    refine ⟨ht.children_sorted i, fun j hj => ?_⟩
    have hp := ht.mem_children.mp hj
    exact ⟨lt_of_le_of_lt (Nat.zero_le i) (ht.parent_lt hp), Nested.lt_size_of_parent hp⟩
  line_lt := hl.line_lt
  ancestors i hi := by
    refine ⟨?_, ht.lineage_sorted i hi, ht.getLast?_lineage i hi⟩
    cases hp : t.parent? i with
    | none => exact Nested.ancestors_of_parent_none hp
    | some p => exact ht.ancestors_of_parent hp
  walk := ht.walk_ids
  suffix i _ := by
    rw [hl.suffix_iff]
    cases (t.block i).kind <;> simp [Kind.takesSuffix]
  args i _ := hl.args_test i

end Tree

/-- Every spec that can be read becomes a well-formed arena. -/
theorem parse_isArena {source : Text} {seed : Digest} {t : Tree} (h : parse source seed = .ok t) :
    t.IsArena := by
  obtain ⟨ht, hl⟩ := Parser.nested_and_legal_of_parse h
  exact .of_nested ht hl

/-- A spec whose headers go back to indents that no open block has. -/
def raggedSpec : Text :=
  ("describe \"A\":\n      before \"b\": pass\n    context \"C\":\n" ++
    "        it \"x\" (m): pass\n  it \"y\": pass\n").toList

theorem parse_isArena_ragged :
    ∃ t, parse raggedSpec (Vector.replicate 32 7) = .ok t ∧ t.size = 6 ∧ t.IsArena := by
  have hsize : (parse raggedSpec (Vector.replicate 32 7)).map Tree.size = .ok 6 := by
    decide +kernel
  obtain ⟨t, h, hsize⟩ := exists_of_map_eq_ok hsize
  exact ⟨t, h, hsize, parse_isArena h⟩

/-- The parent of a block is the nearest earlier block of smaller indent. The file, at `-1`, always
qualifies, and the way up from the block opened just before finds the same block as looking back
over all earlier ones. -/
theorem parse_parent_nearest {source : Text} {seed : Digest} {t : Tree}
    (h : parse source seed = .ok t) {i : Nat} (hpos : 0 < i) (hi : i < t.size) :
    ∃ p, t.parent? i = some p ∧
      IsGreatest {j | j < i ∧ (t.block j).indent < (t.block i).indent} p ∧
      (t.block 0).indent = -1 ∧ (t.block 0).indent < (t.block i).indent ∧
      (t.lineage (i - 1)).find? (fun j => (t.block j).indent < (t.block i).indent) = some p ∧
      (List.range i).reverse.find? (fun j => (t.block j).indent < (t.block i).indent) = some p := by
  obtain ⟨ht, -⟩ := Parser.nested_and_legal_of_parse h
  obtain ⟨p, hp, hn⟩ := ht.nearest i hpos hi
  refine ⟨p, hp, ⟨⟨hn.lt, hn.indent_lt⟩, fun j hj => ?_⟩, ht.root_indent, ?_,
    ht.find?_lineage_pred hp, hn.find?_reverse_range⟩
  · by_contra hlt
    exact absurd hj.2 (not_lt.mpr (hn.between j (not_le.mp hlt) hj.1))
  · rw [ht.root_indent]
    exact ht.neg_one_lt_indent hpos hi

/-- The last header of the ragged spec goes back between two open blocks and belongs to the
outer one. -/
theorem parse_parent_nearest_ragged :
    ∃ t, parse raggedSpec (Vector.replicate 32 7) = .ok t ∧ t.parent? 5 = some 1 ∧
      IsGreatest {j | j < 5 ∧ (t.block j).indent < (t.block 5).indent} 1 := by
  have hview : (parse raggedSpec (Vector.replicate 32 7)).map
      (fun t => (t.size, t.parent? 5)) = .ok (6, some 1) := by
    decide +kernel
  obtain ⟨t, h, hview⟩ := exists_of_map_eq_ok hview
  obtain ⟨hsize, hparent⟩ := Prod.mk.inj hview
  obtain ⟨p, hp, hgreatest, -⟩ :=
    parse_parent_nearest h (show 0 < 5 by decide) (by rw [hsize]; decide)
  rw [hparent] at hp
  cases hp
  exact ⟨t, h, hparent, hgreatest⟩

end BlockSpec
