import BlockSpec.Proofs.Digits
import BlockSpec.Proofs.Lockstep

/-! # What the seed decides

The seed is a stream of draws, and only befores and afters draw from it, one suffix each, when they
are opened:

    headers     describe   before   let   after   it   before
    draws                  0              1            2

A header that is refused draws nothing, and whether a header is refused does not depend on what was
drawn. So runs from different seeds stay in step: their trees are *alike*, which is to say the same
but for the suffixes, and these can be told from the kinds of the blocks and the seed alone. -/

namespace BlockSpec

/-- The stream after some draws. -/
def SuffixStream.after (s : SuffixStream) : Nat → SuffixStream
  | 0 => s
  | k + 1 => (s.after k).advance

/-- The block without its suffix. -/
def Block.unmarked (b : Block) : Block := { b with suffix := none }

/-- The block with its lines under other numbers. -/
def Block.renumber (f : Nat → Nat) (b : Block) : Block :=
  { b with
    line := f b.line
    decorators := b.decorators.map (CodeLine.renumber f)
    body := b.body.map (CodeLine.renumber f) }

@[simp] theorem Block.renumber_id (b : Block) : b.renumber id = b := by simp [renumber]

namespace Tree

/-- The tree without its suffixes. -/
def unmarked (t : Tree) : Tree := ⟨t.blocks.map Block.unmarked⟩

/-- The positions of the befores and afters, in order. -/
def marked (t : Tree) : List Nat :=
  (List.range t.size).filter fun i => (t.block i).kind = .before ∨ (t.block i).kind = .after

/-- The second tree is the first one with its lines under other numbers, but for the suffixes. -/
structure Alike (f : Nat → Nat) (t t' : Tree) : Prop where
  size : t'.size = t.size
  block : ∀ i, (t'.block i).unmarked = ((t.block i).renumber f).unmarked

/-! ### Trees by their blocks -/

variable {t t' : Tree} {i p : Nat} {b b' : Block} {f : Nat → Nat}

theorem ext_block (hsize : t'.size = t.size) (hblock : ∀ i, t'.block i = t.block i) : t' = t := by
  obtain ⟨blocks⟩ := t
  obtain ⟨blocks'⟩ := t'
  congr 1
  refine Array.ext hsize fun i hi hi' => ?_
  have := hblock i
  simpa [block, Array.getElem?_eq_getElem hi, Array.getElem?_eq_getElem hi'] using this

@[simp] theorem size_unmarked : t.unmarked.size = t.size := by simp [unmarked, size]

@[simp] theorem block_unmarked : t.unmarked.block i = (t.block i).unmarked := by
  simp only [unmarked, block, Array.getElem?_map]
  cases t.blocks[i]? <;> rfl

theorem mem_marked : i ∈ t.marked ↔ i < t.size ∧ (t.block i).kind.takesSuffix = true := by
  rw [marked, List.mem_filter, List.mem_range, decide_eq_true_iff]
  refine and_congr_right fun _ => ?_
  cases (t.block i).kind <;> simp [Kind.takesSuffix]

theorem marked_congr (hsize : t'.size = t.size)
    (hkind : ∀ i, (t'.block i).kind = (t.block i).kind) : t'.marked = t.marked := by
  simp only [marked, hsize, hkind]

theorem marked_attach (hp : p < t.size) : (t.attach p b).marked =
    t.marked ++ if b.kind.takesSuffix then [t.size] else [] := by
  have hold : (List.range t.size).filter (fun i => ((t.attach p b).block i).kind = .before ∨
      ((t.attach p b).block i).kind = .after) = t.marked := by
    refine List.filter_congr fun i hi => ?_
    rw [attach_frame Block.kind (fun _ _ => rfl) (List.mem_range.mp hi)]
  rw [marked, size_attach, List.range_succ, List.filter_append, hold, List.filter_singleton,
    block_attach_size hp]
  cases b.kind <;> rfl

/-! ### Alike trees -/

namespace Alike

variable (h : t.Alike f t')
include h

/-- Alike trees agree in everything that looks neither at suffixes nor at numbers of lines. -/
theorem frame {α : Type} (g : Block → α) (hg : ∀ b : Block, g (b.renumber f).unmarked = g b)
    (hg' : ∀ b : Block, g b.unmarked = g b) (i : Nat) : g (t'.block i) = g (t.block i) := by
  rw [← hg', h.block, hg]

theorem kind (i : Nat) : (t'.block i).kind = (t.block i).kind :=
  h.frame Block.kind (fun _ => rfl) (fun _ => rfl) i

theorem indent (i : Nat) : (t'.block i).indent = (t.block i).indent :=
  h.frame Block.indent (fun _ => rfl) (fun _ => rfl) i

theorem parent? (i : Nat) : t'.parent? i = t.parent? i :=
  h.frame Block.parent (fun _ => rfl) (fun _ => rfl) i

theorem lineage (i : Nat) : t'.lineage i = t.lineage i := by
  have hup : ∀ n i, t'.ancestorsWithin n i = t.ancestorsWithin n i := by
    intro n
    induction n with
    | zero => intro i; rfl
    | succ n ih => intro i; simp only [ancestorsWithin, h.parent?, ih]
  rw [Tree.lineage, Tree.lineage, ancestors, ancestors, hup, h.size]

theorem attach (hp : p < t.size) (hb : b'.unmarked = (b.renumber f).unmarked) :
    (t.attach p b).Alike f (t'.attach p b') := by
  refine ⟨by simp [h.size], fun i => ?_⟩
  rcases Nat.lt_trichotomy i t.size with hi | rfl | hi
  · have hblock := h.block i
    rw [block_attach_of_lt hi, block_attach_of_lt (h.size ▸ hi), h.size]
    simp only [Block.unmarked, Block.renumber, Block.mk.injEq] at hblock ⊢
    simp only [hblock, and_self]
  · rw [block_attach_size hp, ← h.size, block_attach_size (h.size ▸ hp)]
    simp only [Block.unmarked, Block.renumber, Block.mk.injEq] at hb ⊢
    simp only [hb, and_self]
  · have hbeyond := h.block i
    rw [block_of_size_le hi.le, block_of_size_le (h.size ▸ hi.le)] at hbeyond
    rw [block_of_size_le (by rw [size_attach, h.size]; exact hi),
      block_of_size_le (by rw [size_attach]; exact hi)]
    exact hbeyond

end Alike

end Tree

namespace Parser

namespace State

/-! ### Nested trees stay nested -/

variable {s s' : State} {row : CodeLine} {f : Nat → Nat}

theorem nested_opened (hs : s.tree.Nested) (line : Nat) (h : Header) :
    (s.opened line h).tree.Nested := by
  obtain ⟨hp, hindent, hbetween⟩ := scopeFor_spec hs h.indent
  exact hs.attach hp rfl hindent hbetween

theorem nested_addCode (hs : s.tree.Nested) (code : List CodeLine) :
    (s.addCode code).tree.Nested :=
  hs.of_bare size_addCode fun _ => addCode_frame Block.bare (fun _ _ => rfl) hs.size_pos

/-! ### Readers in step -/

/-- A header has the same block under both numberings, but for the suffix. -/
theorem unmarked_blockOf (hpending : s'.pending = s.pending.map (CodeLine.renumber f)) (line : Nat)
    (h : Header) :
    (s'.blockOf (f line) h).unmarked = ((s.blockOf line h).renumber f).unmarked := by
  simp only [blockOf, Block.unmarked, Block.renumber, hpending, List.map_map, Block.mk.injEq,
    true_and, and_true]
  refine ⟨rfl, ?_⟩
  cases h.code <;> rfl

/-- Two readers have read the same lines, under different numbers. -/
structure Alike (f : Nat → Nat) (s s' : State) : Prop where
  nested : s.tree.Nested
  tree : s.tree.Alike f s'.tree
  pending : s'.pending = s.pending.map (CodeLine.renumber f)

theorem alike_start {f : Nat → Nat} (hf : f 0 = 0) (seed seed' : Digest) :
    Alike f (start seed) (start seed') := by
  refine ⟨(built_start seed).nested, ⟨rfl, fun i => ?_⟩, rfl⟩
  have hblock : ∀ seed, (start seed).tree.block i = Block.root := by
    intro seed
    cases i with
    | zero => rfl
    | succ i => exact Tree.block_of_size_le (Nat.le_add_left 1 i)
  rw [hblock, hblock]
  simp [Block.unmarked, Block.renumber, Block.root, hf]

namespace Alike

theorem scopeFor (h : Alike f s s') (d : Nat) : s'.scopeFor d = s.scopeFor d := by
  simp only [State.scopeFor, State.current, h.tree.size, h.tree.lineage, h.tree.indent]

theorem addCode (h : Alike f s s') (code : List CodeLine) :
    Alike f (s.addCode code) (s'.addCode (code.map (CodeLine.renumber f))) := by
  have hpos := h.nested.size_pos
  refine ⟨nested_addCode h.nested code, ⟨by simp [h.tree.size], fun i => ?_⟩, h.pending⟩
  have hblock := h.tree.block i
  rw [block_addCode hpos, block_addCode (h.tree.size ▸ hpos), State.current, State.current,
    h.tree.size]
  simp only [Block.unmarked, Block.renumber, Block.mk.injEq] at hblock ⊢
  simp only [hblock, List.map_append, and_true, true_and]
  split <;> simp

theorem settle (h : Alike f s s') : Alike f s.settle s'.settle := by
  have hadd := h.addCode s.pending
  rw [← h.pending] at hadd
  exact ⟨hadd.nested, hadd.tree, rfl⟩

theorem opened (h : Alike f s s') (line : Nat) (hd : Header) :
    Alike f (s.opened line hd) (s'.opened (f line) hd) := by
  obtain ⟨hp, -, -⟩ := scopeFor_spec h.nested hd.indent
  refine ⟨nested_opened h.nested line hd, ?_, rfl⟩
  simp only [State.opened, h.scopeFor]
  exact h.tree.attach hp (unmarked_blockOf h.pending line hd)

/-- Readers that are alike stay so at every line, whatever they have drawn. -/
theorem step (h : Alike f s s') :
    Agree f (Alike f) (s.step row) (s'.step (row.renumber f)) := by
  refine step_agree ?_ h (fun hd _ => ?_) (fun hd _ _ => h.opened row.line hd) ?_ ?_
  · rw [h.pending, List.isEmpty_map]
  · rw [h.scopeFor, h.tree.kind]
  · exact ⟨h.nested, h.tree, by simp [h.pending]⟩
  · exact h.settle.addCode [row]

end Alike

end State

/-- Runs over the same texts are alike, whatever they draw, or refused alike. -/
theorem run_alike {f : Nat → Nat} (hf : f 0 = 0) (rows : List CodeLine) (seed seed' : Digest) :
    Agree f (State.Alike f) (rows.foldlM State.step (start seed))
      ((rows.map (CodeLine.renumber f)).foldlM State.step (start seed')) :=
  run_agree (R := fun _ => State.Alike f) (fun _ _ _ _ _ _ h => h.step)
    (State.alike_start hf seed seed')

/-- Specs whose lines have the same texts, blank ones left out, are read into trees that are alike,
or refused alike. -/
theorem parse_alike {f : Nat → Nat} (hf : f 0 = 0) {source source' : Text}
    (hrows : (numbered source').filter isSolid =
      ((numbered source).filter isSolid).map (CodeLine.renumber f)) (seed seed' : Digest) :
    Agree f (Tree.Alike f) (parse source seed) (parse source' seed') := by
  have hrun := run_alike hf ((numbered source).filter isSolid) seed seed'
  rw [← hrows, foldlM_filter_isSolid, foldlM_filter_isSolid] at hrun
  exact hrun.map fun _ _ h => h.settle.tree

/-! ### What is drawn -/

variable {s s' : State} {row : CodeLine} {σ : SuffixStream}

/-- The suffixes drawn so far are the first ones of a stream, in the order of the blocks, and the
next ones will follow. -/
structure State.Draws (σ : SuffixStream) (s : State) : Prop where
  nested : s.tree.Nested
  suffixes : s.suffixes = σ.after s.tree.marked.length
  drawn : s.tree.marked.map (fun i => (s.tree.block i).suffix) =
    (List.range s.tree.marked.length).map fun k => some (σ.after k).suffix
  others : ∀ i, i ∉ s.tree.marked → (s.tree.block i).suffix = none

theorem State.draws_start (seed : Digest) : (start seed).Draws (.ofSeed seed) := by
  refine ⟨(built_start seed).nested, rfl, rfl, fun i _ => ?_⟩
  cases i with
  | zero => rfl
  | succ i => rw [Tree.block_of_size_le (Nat.le_add_left 1 i)]; rfl

theorem State.Draws.addCode (h : s.Draws σ) (code : List CodeLine) : (s.addCode code).Draws σ := by
  have hpos := h.nested.size_pos
  have hmarked : (s.addCode code).tree.marked = s.tree.marked :=
    Tree.marked_congr size_addCode fun _ => addCode_frame Block.kind (fun _ _ => rfl) hpos
  have hsuffix i : ((s.addCode code).tree.block i).suffix = (s.tree.block i).suffix :=
    addCode_frame Block.suffix (fun _ _ => rfl) hpos
  refine ⟨nested_addCode h.nested code, ?_, ?_, ?_⟩
  · rw [hmarked]; exact h.suffixes
  · simp only [hmarked, hsuffix]; exact h.drawn
  · simp only [hmarked, hsuffix]; exact h.others

/-- A before or an after draws the next suffix, and no other block draws. -/
theorem State.Draws.opened (h : s.Draws σ) (line : Nat) (hd : Header) :
    (s.opened line hd).Draws σ := by
  obtain ⟨hp, -, -⟩ := scopeFor_spec h.nested hd.indent
  have hmarked : (s.opened line hd).tree.marked =
      s.tree.marked ++ if hd.kind.takesSuffix then [s.tree.size] else [] := Tree.marked_attach hp
  have hnew : ((s.opened line hd).tree.block s.tree.size).suffix =
      if hd.kind.takesSuffix then some s.suffixes.suffix else none := by
    rw [State.opened, Tree.block_attach_size hp]; rfl
  have hold : ∀ i ∈ s.tree.marked, ((s.opened line hd).tree.block i).suffix =
      (s.tree.block i).suffix := fun i hi =>
    Tree.attach_frame Block.suffix (fun _ _ => rfl) (Tree.mem_marked.mp hi).1
  refine ⟨nested_opened h.nested line hd, ?_, ?_, fun i hi => ?_⟩
  · rw [hmarked, State.opened, h.suffixes]
    cases hd.kind.takesSuffix <;> simp [SuffixStream.after]
  · rw [hmarked, List.map_append, List.map_congr_left hold, h.drawn]
    cases hk : hd.kind.takesSuffix with
    | false => simp
    | true =>
      rw [hk, if_pos rfl] at hnew
      simp [hnew, h.suffixes, List.range_succ]
  · rw [hmarked, List.mem_append, not_or] at hi
    rcases Nat.lt_trichotomy i s.tree.size with hlt | rfl | hgt
    · rw [State.opened, Tree.attach_frame Block.suffix (fun _ _ => rfl) hlt]
      exact h.others i hi.1
    · rw [hnew, if_neg fun hk => hi.2 (by simp [hk])]
    · rw [State.opened, Tree.block_of_size_le (by rw [Tree.size_attach]; exact hgt)]; rfl

theorem State.Draws.reads (h : s.Draws σ) (hr : Reads s row s') : s'.Draws σ := by
  cases hr with
  | blank => exact h
  | header _ _ _ => exact h.opened row.line _
  | waits => exact ⟨h.nested, h.suffixes, h.drawn, h.others⟩
  | code =>
    have hadd := h.addCode s.pending
    have hsettle : s.settle.Draws σ := ⟨hadd.nested, hadd.suffixes, hadd.drawn, hadd.others⟩
    exact hsettle.addCode [row]

variable {source : Text} {seed seed' : Digest} {t t' : Tree}

theorem draws_of_parse (h : parse source seed = .ok t) :
    t.marked.map (fun i => (t.block i).suffix) = (List.range t.marked.length).map
      (fun k => some ((SuffixStream.ofSeed seed).after k).suffix) ∧
    ∀ i, i ∉ t.marked → (t.block i).suffix = none := by
  obtain ⟨s, hs, rfl⟩ := run_of_parse h
  have hdraws : s.Draws (.ofSeed seed) :=
    read_induction (P := fun _ s => s.Draws (.ofSeed seed)) (State.draws_start seed)
      (fun _ _ _ _ _ _ hs hr => hs.reads hr) hs
  exact ⟨(hdraws.addCode s.pending).drawn, (hdraws.addCode s.pending).others⟩

/-- Befores and afters stand in the order of their lines. -/
theorem marked_sorted (h : parse source seed = .ok t) :
    t.marked.Pairwise fun i j => (t.block i).line < (t.block j).line := by
  have hlegal := (nested_and_legal_of_parse h).2
  exact (List.pairwise_lt_range.filter _).imp_of_mem fun _ hj hlt =>
    hlegal.line_lt _ _ hlt (Tree.mem_marked.mp hj).1

/-- The `k`-th before or after has the `k`-th suffix. -/
theorem suffix_of_marked (h : parse source seed = .ok t) {k i : Nat}
    (hi : t.marked[k]? = some i) :
    (t.block i).suffix = some ((SuffixStream.ofSeed seed).after k).suffix := by
  obtain ⟨hk, rfl⟩ := List.getElem?_eq_some_iff.mp hi
  have hget := congrArg (·[k]?) (draws_of_parse h).1
  simpa [hk] using hget

end Parser

/-! ### Digits of a suffix -/

/-- A suffix can be read back: it is `_x` and six digits, the low bits of the draw. -/
theorem SuffixStream.exists_digits (s : SuffixStream) : ∃ digits,
    s.suffix = "_x".toList ++ digits ∧ digits.length = 6 ∧
      (∀ c ∈ digits, c ∈ "0123456789abcdef".toList) ∧
      readHex digits = s.draw.toNat % 2 ^ 24 := by
  have hlow : (s.draw &&& 0xffffff).toNat = s.draw.toNat % 2 ^ 24 := by
    rw [UInt32.toNat_and]
    exact Nat.and_two_pow_sub_one_eq_mod s.draw.toNat 24
  refine ⟨hexPadded 6 (s.draw &&& 0xffffff).toNat, rfl, length_hexPadded (by decide) ?_,
    fun c hc => mem_of_mem_hexPadded hc, by rw [readHex_hexPadded, hlow]⟩
  rw [hlow]
  exact Nat.mod_lt _ (by decide)

/-! ### Seeds -/

/-- The seed decides nothing but the suffixes: a spec is refused with the same fault from every
seed, or read into trees that differ in suffixes only, and the `k`-th before or after carries the
low bits of the `k`-th draw, whatever else there is. -/
theorem seed_decides_suffixes (source : Text) (seed seed' : Digest) :
    ((∃ fault, parse source seed = .error fault ∧ parse source seed' = .error fault) ∨
      ∃ t t', parse source seed = .ok t ∧ parse source seed' = .ok t' ∧
        t'.unmarked = t.unmarked) ∧
    ∀ t, parse source seed = .ok t →
      (t.marked.Pairwise fun i j => (t.block i).line < (t.block j).line) ∧
      ∀ k i, t.marked[k]? = some i → ∃ digits,
        (t.block i).suffix = some ("_x".toList ++ digits) ∧ digits.length = 6 ∧
          (∀ c ∈ digits, c ∈ "0123456789abcdef".toList) ∧
          readHex digits = ((SuffixStream.ofSeed seed).after k).draw.toNat % 2 ^ 24 := by
  refine ⟨?_, fun t ht => ⟨Parser.marked_sorted ht, fun k i hi => ?_⟩⟩
  · have hagree : Parser.Agree id (Tree.Alike id) (parse source seed) (parse source seed') :=
      Parser.parse_alike rfl (by simp) seed seed'
    generalize parse source seed = x, parse source seed' = y at hagree
    cases hagree with
    | refused fault => exact .inl ⟨fault, rfl, by rw [Fault.renumber_id]⟩
    | read halike =>
      refine .inr ⟨_, _, rfl, rfl, Tree.ext_block (by simpa using halike.size) fun i => ?_⟩
      simpa using halike.block i
  · obtain ⟨digits, hdigits, hrest⟩ := ((SuffixStream.ofSeed seed).after k).exists_digits
    exact ⟨digits, by rw [Parser.suffix_of_marked ht hi, hdigits], hrest⟩

/-- The text of a spec with a before and an after. -/
def framedSpec : Text :=
  "describe \"A\":\n  before \"a\": f()\n  it \"b\": x\n  after \"a\": g()\n".toList

/-- The bytes from zero on. -/
def countingSeed : Digest := Vector.ofFn fun i => i.val.toUInt8

theorem seed_decides_suffixes_marked : ∃ t, parse framedSpec countingSeed = .ok t ∧
    t.marked = [2, 4] ∧ ∃ digits, (t.block 4).suffix = some ("_x".toList ++ digits) ∧
      digits.length = 6 ∧ (∀ c ∈ digits, c ∈ "0123456789abcdef".toList) ∧
      readHex digits = ((SuffixStream.ofSeed countingSeed).after 1).draw.toNat % 2 ^ 24 := by
  have hmarked : (parse framedSpec countingSeed).map Tree.marked = .ok [2, 4] := by decide +kernel
  obtain ⟨t, ht, hmarked⟩ := exists_of_map_eq_ok hmarked
  have hlast : t.marked[1]? = some 4 := by rw [hmarked]; rfl
  exact ⟨t, ht, hmarked,
    ((seed_decides_suffixes framedSpec countingSeed countingSeed).2 t ht).2 1 4 hlast⟩

example : (parse framedSpec countingSeed).map
    (fun t => t.marked.map fun i => (t.block i).suffix) =
      .ok [some "_x258ef8".toList, some "_x8ef861".toList] := by
  decide +kernel

end BlockSpec
