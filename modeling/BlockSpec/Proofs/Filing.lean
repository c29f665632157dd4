import BlockSpec.Proofs.Arena
import Mathlib.Data.List.Induction
import Mathlib.Data.List.TakeWhile

/-! # Every line has its place

A *loose* line is one that is neither blank nor a header. The loose lines between two headers form a
stretch: its end may be decorator lines that wait for the second header, and all that comes before
them is code of the first one.

    header i     ──▶  block i
    stretch i    ──▶  code … code │ decorators      (the cut is `waiting`)
                      body of i   │ decorators of i + 1, trimmed
    last stretch ──▶  body of the last block, whole

`Filed` says this of the lines read so far, with the lines that still wait in the state. -/

namespace BlockSpec

/-- Trimming a blank line leaves nothing, and no other line. -/
theorem Text.allBlank_iff {line : Text} : allBlank line = true ↔ trimStart line = [] := by
  rw [allBlank, List.all_eq_true, trimStart, List.dropWhile_eq_nil_iff]

/-- A blank line is no header. -/
theorem Header.parse?_of_allBlank {line : Text} (h : Text.allBlank line = true) :
    parse? line = none := by
  have hkey : keyword? [] = none := by decide
  rw [parse?, Text.allBlank_iff.mp h, hkey]

namespace Parser

/-- A line that is neither blank nor a header. -/
def isLoose (row : CodeLine) : Bool :=
  !Text.allBlank row.text && (Header.parse? row.text).isNone

theorem isLoose_iff {row : CodeLine} : isLoose row = true ↔
    Text.allBlank row.text = false ∧ Header.parse? row.text = none := by
  simp [isLoose]

/-! ### The numbers of the lines -/

theorem numbered_sorted (source : Text) :
    (numbered source).Pairwise fun r r' => r.line < r'.line := by
  rw [List.pairwise_iff_getElem]
  intro i j hi hj hij
  simp only [numbered, List.getElem_map, List.getElem_zipIdx]
  omega

theorem line_pos_of_mem_numbered {source : Text} {r : CodeLine} (h : r ∈ numbered source) :
    0 < r.line := by
  obtain ⟨⟨text, i⟩, -, rfl⟩ := List.mem_map.mp h
  exact Nat.succ_pos i

/-- Lines are told apart by their numbers. -/
theorem eq_of_line_eq {rows : List CodeLine} (hs : rows.Pairwise fun r r' => r.line < r'.line)
    {r r' : CodeLine} (hr : r ∈ rows) (hr' : r' ∈ rows) (h : r.line = r'.line) : r = r' := by
  have hnodup : (rows.map (·.line)).Nodup := (List.pairwise_map.mpr hs).imp Nat.ne_of_lt
  exact List.inj_on_of_nodup_map hnodup hr hr' h

/-! ### Waiting lines -/

/-- The lines that wait for an owner when some loose lines were read. -/
def waiting (rows : List CodeLine) : List CodeLine :=
  rows.foldl (fun held row =>
    if isDecorator row.text || (isComment row.text && !held.isEmpty) then held ++ [row] else []) []

theorem waiting_concat (rows : List CodeLine) (row : CodeLine) :
    waiting (rows ++ [row]) =
      if isDecorator row.text || (isComment row.text && !(waiting rows).isEmpty)
      then waiting rows ++ [row] else [] := by
  rw [waiting, List.foldl_append, List.foldl_cons, List.foldl_nil]; rfl

/-- Waiting lines are the last ones. -/
theorem waiting_suffix (rows : List CodeLine) : waiting rows <:+ rows := by
  induction rows using List.reverseRecOn with
  | nil => exact List.suffix_rfl
  | append_singleton rows row ih =>
    rw [waiting_concat]
    split
    · obtain ⟨before, hbefore⟩ := ih
      exact ⟨before, by rw [← List.append_assoc, hbefore]⟩
    · exact List.nil_suffix

/-- A line that may stand among decorators. -/
def IsMark (row : CodeLine) : Prop := isDecorator row.text = true ∨ isComment row.text = true

/-- A decorator line since which nothing but decorators and comments has come. -/
structure Leader (rows : List CodeLine) (m : CodeLine) : Prop where
  mem : m ∈ rows
  decorator : isDecorator m.text = true
  since : ∀ x ∈ rows, m.line ≤ x.line → IsMark x

variable {rows : List CodeLine} {m r y : CodeLine}

theorem Leader.concat (hm : Leader rows m) (hy : IsMark y) : Leader (rows ++ [y]) m := by
  refine ⟨List.mem_append_left _ hm.mem, hm.decorator, fun x hx hmx => ?_⟩
  rcases List.mem_append.mp hx with hx | hx
  · exact hm.since x hx hmx
  · rw [List.mem_singleton.mp hx]; exact hy

theorem Leader.of_concat (hm : Leader (rows ++ [y]) m) (hmem : m ∈ rows) : Leader rows m :=
  ⟨hmem, hm.decorator, fun x hx => hm.since x (List.mem_append_left _ hx)⟩

theorem leader_last (hlt : ∀ x ∈ rows, x.line < y.line) (hy : isDecorator y.text = true) :
    Leader (rows ++ [y]) y := by
  refine ⟨by simp, hy, fun x hx hyx => ?_⟩
  rcases List.mem_append.mp hx with hx | hx
  · exact absurd hyx (not_le.mpr (hlt x hx))
  · rw [List.mem_singleton.mp hx]; exact Or.inl hy

/-- The lines that wait are those from the first leader on. -/
theorem mem_waiting (hs : rows.Pairwise fun r r' => r.line < r'.line) :
    r ∈ waiting rows ↔ r ∈ rows ∧ ∃ m, Leader rows m ∧ m.line ≤ r.line := by
  induction rows using List.reverseRecOn generalizing r with
  | nil => simp [waiting]
  | append_singleton rows y ih =>
    obtain ⟨hrows, -, hlast⟩ := List.pairwise_append.mp hs
    have hlt : ∀ x ∈ rows, x.line < y.line := fun x hx => hlast x hx y (List.mem_singleton_self y)
    have ih {r : CodeLine} := ih hrows (r := r)
    rw [waiting_concat, List.mem_append, List.mem_singleton]
    by_cases hy : isDecorator y.text || (isComment y.text && !(waiting rows).isEmpty)
    · rw [if_pos hy, List.mem_append, List.mem_singleton]
      simp only [Bool.or_eq_true, Bool.and_eq_true, Bool.not_eq_true', List.isEmpty_eq_false_iff,
        ne_eq] at hy
      have hmark : IsMark y := hy.imp_right And.left
      constructor
      · rintro (hr | rfl)
        · obtain ⟨hmem, m, hm, hle⟩ := ih.mp hr
          exact ⟨Or.inl hmem, m, hm.concat hmark, hle⟩
        · refine ⟨Or.inr rfl, ?_⟩
          rcases hy with hdec | ⟨-, hne⟩
          · exact ⟨r, leader_last hlt hdec, le_rfl⟩
          · -- a comment waits behind a line that waits already
            obtain ⟨w, hw⟩ := List.exists_mem_of_ne_nil _ hne
            obtain ⟨-, m, hm, -⟩ := ih.mp hw
            exact ⟨m, hm.concat hmark, (hlt m hm.mem).le⟩
      · rintro ⟨hr | rfl, m, hm, hle⟩
        · refine Or.inl (ih.mpr ⟨hr, m, hm.of_concat ?_, hle⟩)
          rcases List.mem_append.mp hm.mem with hmem | hmem
          · exact hmem
          · rw [List.mem_singleton.mp hmem] at hle
            exact absurd hle (not_le.mpr (hlt r hr))
        · exact Or.inr rfl
    · rw [if_neg hy]
      simp only [Bool.or_eq_true, Bool.and_eq_true, Bool.not_eq_true', List.isEmpty_eq_false_iff,
        ne_eq, not_or, not_and, not_not] at hy
      refine ⟨fun h => absurd h List.not_mem_nil, ?_⟩
      rintro ⟨-, m, hm, -⟩
      have hmem : m ∈ rows := by
        rcases List.mem_append.mp hm.mem with hmem | hmem
        · exact hmem
        · exact absurd (List.mem_singleton.mp hmem ▸ hm.decorator) hy.1
      -- the last line is a comment then, so the leader would wait already
      have hcomment := (hm.since y (by simp) (hlt m hmem).le).resolve_left hy.1
      have hwait : m ∈ waiting rows := ih.mpr ⟨hmem, m, hm.of_concat hmem, le_rfl⟩
      rw [hy.2 hcomment] at hwait
      exact absurd hwait List.not_mem_nil

/-! ### Stretches -/

/-- The loose lines between the header of the block at `i` and the next header. -/
def stretch (rows : List CodeLine) (t : Tree) (i : Nat) : List CodeLine :=
  rows.filter fun r => isLoose r ∧ (t.block i).line < r.line ∧
    (i + 1 < t.size → r.line < (t.block (i + 1)).line)

variable {t t' : Tree} {i : Nat}

theorem mem_stretch : r ∈ stretch rows t i ↔ r ∈ rows ∧ isLoose r = true ∧
    (t.block i).line < r.line ∧ (i + 1 < t.size → r.line < (t.block (i + 1)).line) := by
  rw [stretch, List.mem_filter, decide_eq_true_iff]

theorem stretch_congr (hsize : t'.size = t.size)
    (hline : ∀ i, (t'.block i).line = (t.block i).line) :
    stretch rows t' i = stretch rows t i := by
  simp only [stretch, hsize, hline]

theorem stretch_concat_of_not_loose (hy : isLoose y = false) :
    stretch (rows ++ [y]) t i = stretch rows t i := by
  simp [stretch, hy]

/-- A loose line behind all headers belongs to the last stretch. -/
theorem stretch_concat_of_loose (hy : isLoose y = true) (hi : i < t.size)
    (hline : ∀ j, (t.block j).line < y.line) :
    stretch (rows ++ [y]) t i = stretch rows t i ++ if i = t.size - 1 then [y] else [] := by
  rw [stretch, List.filter_append, List.filter_singleton]
  congr 1
  by_cases hlast : i = t.size - 1
  · simp [hy, hline, hlast, show ¬ (t.size - 1 + 1 < t.size) by omega]
  · have hnext : i + 1 < t.size := by omega
    simp [hlast, hnext, not_lt.mpr (hline (i + 1)).le]

/-- A header that comes behind all lines ends the last stretch. -/
theorem stretch_attach {p : Nat} {b : Block} (hp : p < t.size) (hi : i < t.size)
    (hline : ∀ r ∈ rows, r.line < b.line) : stretch rows (t.attach p b) i = stretch rows t i := by
  have hkeep {j} (hj : j < t.size) : ((t.attach p b).block j).line = (t.block j).line :=
    Tree.attach_frame Block.line (fun _ _ => rfl) hj
  refine List.filter_congr fun r hr => ?_
  rw [hkeep hi, Tree.size_attach]
  by_cases hnext : i + 1 < t.size
  · simp [hnext, hkeep hnext, show i < t.size by omega]
  · have hlast : i + 1 = t.size := by omega
    have hnew : ((t.attach p b).block (i + 1)).line = b.line := by
      rw [hlast, Tree.block_attach_size hp]
    simp [hnext, hi, hnew, hline r hr]

theorem stretch_attach_size {p : Nat} {b : Block} (hp : p < t.size)
    (hline : ∀ r ∈ rows, r.line < b.line) : stretch rows (t.attach p b) t.size = [] := by
  rw [stretch, List.filter_eq_nil_iff]
  intro r hr
  rw [Tree.block_attach_size hp]
  simp [not_lt.mpr (hline r hr).le]

/-! ### Filing the lines -/

/-- The code of a header line as it enters the body. -/
def codeOf (line : Nat) (h : Header) : List CodeLine :=
  (h.code.map fun code => ⟨line, headerCode h.kind code⟩).toList

/-- A decorator line as a block keeps it. -/
def trimmed (row : CodeLine) : CodeLine := ⟨row.line, Text.trim row.text⟩

/-- The code that the header of the block at `i` puts at the head of its body; the file has no
header. -/
def Leads (rows : List CodeLine) (t : Tree) (i : Nat) (code : List CodeLine) : Prop :=
  (i = 0 ∧ code = []) ∨ ∃ r ∈ rows, ∃ h, Header.parse? r.text = some h ∧
    r.line = (t.block i).line ∧ code = codeOf r.line h

theorem Leads.mono {rows' code : List CodeLine} (h : Leads rows t i code)
    (hrows : ∀ r ∈ rows, r ∈ rows') (hline : (t'.block i).line = (t.block i).line) :
    Leads rows' t' i code := by
  rcases h with h | ⟨r, hr, hd, hh, hri, hcode⟩
  · exact Or.inl h
  · exact Or.inr ⟨r, hrows r hr, hd, hh, by rw [hline, hri], hcode⟩

theorem Leads.concat {code : List CodeLine} (h : Leads rows t i code)
    (hline : (t'.block i).line = (t.block i).line) : Leads (rows ++ [y]) t' i code :=
  h.mono (fun _ hr => List.mem_append_left _ hr) hline

/-- The lines read so far are where they belong: every header has its block, and every stretch is
the code of its block with the waiting lines behind it, which the next block has as its decorators
or, behind the last header, the state holds. -/
structure Filed (seen : List CodeLine) (s : State) : Prop where
  header : ∀ r ∈ seen, (Header.parse? r.text).isSome = true →
    ∃ i, i < s.tree.size ∧ (s.tree.block i).line = r.line
  body : ∀ i, i < s.tree.size → ∃ code, Leads seen s.tree i code ∧
    (s.tree.block i).body ++ waiting (stretch seen s.tree i) = code ++ stretch seen s.tree i
  decorators : ∀ i, i + 1 < s.tree.size →
    (s.tree.block (i + 1)).decorators = (waiting (stretch seen s.tree i)).map trimmed
  root : (s.tree.block 0).decorators = []
  pending : s.pending = waiting (stretch seen s.tree s.current)

namespace Filed

variable {seen : List CodeLine} {s : State} {row : CodeLine}

theorem start (seed : Digest) : Filed [] (start seed) := by
  refine ⟨by simp, fun i hi => ⟨[], Or.inl ⟨?_, rfl⟩, ?_⟩, fun i hi => ?_, rfl, rfl⟩
  · exact Nat.lt_one_iff.mp hi
  · rw [Nat.lt_one_iff.mp hi]; rfl
  · exact absurd hi (Nat.not_lt.mpr (Nat.le_add_left 1 i))

/-- A line that is no header asks for no new block. -/
theorem header_concat (hf : Filed seen s) (hrow : Header.parse? row.text = none) :
    ∀ r ∈ seen ++ [row], (Header.parse? r.text).isSome = true →
      ∃ i, i < s.tree.size ∧ (s.tree.block i).line = r.line := by
  intro r hr hsome
  rcases List.mem_append.mp hr with hr | hr
  · exact hf.header r hr hsome
  · rw [List.mem_singleton.mp hr, hrow] at hsome
    cases hsome

theorem blank (hf : Filed seen s) (hb : Text.allBlank row.text = true) :
    Filed (seen ++ [row]) s := by
  have hloose : isLoose row = false := by simp [isLoose, hb]
  have hst i : stretch (seen ++ [row]) s.tree i = stretch seen s.tree i :=
    stretch_concat_of_not_loose hloose
  refine ⟨hf.header_concat (Header.parse?_of_allBlank hb), fun i hi => ?_, fun i hi => ?_, hf.root,
    by rw [hst]; exact hf.pending⟩
  · obtain ⟨code, hlead, hbody⟩ := hf.body i hi
    exact ⟨code, hlead.concat rfl, by rw [hst]; exact hbody⟩
  · rw [hst]; exact hf.decorators i hi

/-- A loose line goes to the end of the current stretch: it is added to the code and the waiting
lines of the current block, and the rest is left alone. -/
theorem loose (hf : Filed seen s) (hs : 0 < s.tree.size)
    (hline : ∀ i, (s.tree.block i).line < row.line) (hloose : isLoose row = true) {s' : State}
    (hsize : s'.tree.size = s.tree.size)
    (hbare : ∀ i, (s'.tree.block i).bare = (s.tree.block i).bare)
    (hother : ∀ i, i ≠ s.current → (s'.tree.block i).body = (s.tree.block i).body)
    (hpending : s'.pending = waiting (stretch seen s.tree s.current ++ [row]))
    (hbody : (s'.tree.block s.current).body ++ s'.pending =
      (s.tree.block s.current).body ++ s.pending ++ [row]) : Filed (seen ++ [row]) s' := by
  have hlines i : (s'.tree.block i).line = (s.tree.block i).line :=
    Block.congr_bare Block.line (fun _ => rfl) (hbare i)
  have hdecorators i : (s'.tree.block i).decorators = (s.tree.block i).decorators :=
    Block.congr_bare Block.decorators (fun _ => rfl) (hbare i)
  have hst {i} (hi : i < s.tree.size) : stretch (seen ++ [row]) s'.tree i =
      stretch seen s.tree i ++ if i = s.current then [row] else [] := by
    rw [stretch_congr hsize hlines, stretch_concat_of_loose hloose hi hline]; rfl
  have hcur : s.current < s.tree.size := Nat.sub_lt hs Nat.one_pos
  have hcur' : s'.current = s.current := by rw [State.current, hsize]; rfl
  have hlast : stretch (seen ++ [row]) s'.tree s.current =
      stretch seen s.tree s.current ++ [row] := by
    rw [hst hcur, if_pos rfl]
  refine ⟨fun r hr hsome => ?_, fun i hi => ?_, fun i hi => ?_, by rw [hdecorators, hf.root], ?_⟩
  · obtain ⟨i, hi, hri⟩ := hf.header_concat (isLoose_iff.mp hloose).2 r hr hsome
    exact ⟨i, by rw [hsize]; exact hi, by rw [hlines, hri]⟩
  · rw [hsize] at hi
    obtain ⟨code, hlead, hfiled⟩ := hf.body i hi
    refine ⟨code, hlead.concat (hlines i), ?_⟩
    by_cases hic : i = s.current
    · subst hic
      rw [hlast, ← hpending, hbody, hf.pending, hfiled, List.append_assoc]
    · rw [hst hi, if_neg hic, List.append_nil, hother i hic]
      exact hfiled
  · rw [hsize] at hi
    have hic : i ≠ s.current := by rw [State.current]; omega
    rw [hst (Nat.lt_of_succ_lt hi), if_neg hic, List.append_nil, hdecorators]
    exact hf.decorators i hi
  · rw [hpending, hcur', hlast]

/-- A decorator, or a comment behind one, waits. -/
theorem waits (hf : Filed seen s) (hs : 0 < s.tree.size)
    (hline : ∀ i, (s.tree.block i).line < row.line) (hloose : isLoose row = true)
    (hw : s.Holds row) : Filed (seen ++ [row]) { s with pending := s.pending ++ [row] } := by
  refine hf.loose hs hline hloose rfl (fun _ => rfl) (fun _ _ => rfl) ?_ ?_
  · rw [waiting_concat, ← hf.pending, if_pos]
    simpa [State.Holds] using hw
  · rw [List.append_assoc]

/-- Any other loose line settles the waiting ones and is code itself. -/
theorem code (hf : Filed seen s) (hs : 0 < s.tree.size)
    (hline : ∀ i, (s.tree.block i).line < row.line) (hloose : isLoose row = true)
    (hw : ¬ s.Holds row) : Filed (seen ++ [row]) (s.settle.addCode [row]) := by
  have hs' : 0 < s.settle.tree.size := by simpa using hs
  have hcur : s.settle.current = s.current := by rw [State.current, State.tree_settle]; simp; rfl
  refine hf.loose hs hline hloose (by simp) (fun i => ?_) (fun i hi => ?_) ?_ ?_
  · rw [State.addCode_frame Block.bare (fun _ _ => rfl) hs', State.tree_settle,
      State.addCode_frame Block.bare (fun _ _ => rfl) hs]
  · simp [State.block_addCode hs', State.block_addCode hs, hcur, hi]
  · rw [waiting_concat, ← hf.pending, if_neg]
    · rfl
    · simpa [State.Holds] using hw
  · simp [State.block_addCode hs', State.block_addCode hs, hcur]

/-- A header ends the current stretch and takes the waiting lines. -/
theorem opened (hf : Filed seen s) (hs : s.tree.Nested) (hseen : ∀ r ∈ seen, r.line < row.line)
    {h : Header} (hh : Header.parse? row.text = some h) :
    Filed (seen ++ [row]) (s.opened row.line h) := by
  have hloose : isLoose row = false := by simp [isLoose, hh]
  obtain ⟨hp, -, -⟩ := State.scopeFor_spec hs h.indent
  have hnew : (s.opened row.line h).tree.block s.tree.size =
      { s.blockOf row.line h with parent := some (s.scopeFor h.indent) } :=
    Tree.block_attach_size hp
  have hsize : (s.opened row.line h).tree.size = s.tree.size + 1 := Tree.size_attach
  have hst {i} (hi : i < s.tree.size) :
      stretch (seen ++ [row]) (s.opened row.line h).tree i = stretch seen s.tree i := by
    rw [stretch_concat_of_not_loose hloose]
    exact stretch_attach hp hi hseen
  have hst' : stretch (seen ++ [row]) (s.opened row.line h).tree s.tree.size = [] := by
    rw [stretch_concat_of_not_loose hloose]
    exact stretch_attach_size hp hseen
  have hkeep {α : Type} (f : Block → α) (hf : ∀ b c, f { b with children := c } = f b) {i}
      (hi : i < s.tree.size) : f ((s.opened row.line h).tree.block i) = f (s.tree.block i) :=
    Tree.attach_frame f hf hi
  refine ⟨fun r hr hsome => ?_, fun i hi => ?_, fun i hi => ?_, ?_, ?_⟩
  · rcases List.mem_append.mp hr with hr | hr
    · obtain ⟨i, hi, hri⟩ := hf.header r hr hsome
      exact ⟨i, by omega, by rw [hkeep Block.line (fun _ _ => rfl) hi, hri]⟩
    · rw [List.mem_singleton.mp hr]
      exact ⟨s.tree.size, by omega, by rw [hnew]; rfl⟩
  · rcases Nat.lt_or_eq_of_le (Nat.le_of_lt_succ (hsize ▸ hi)) with hlt | rfl
    · obtain ⟨code, hlead, hfiled⟩ := hf.body i hlt
      refine ⟨code, hlead.concat (hkeep Block.line (fun _ _ => rfl) hlt), ?_⟩
      rw [hst hlt, hkeep Block.body (fun _ _ => rfl) hlt]
      exact hfiled
    · refine ⟨codeOf row.line h, Or.inr ⟨row, by simp, h, hh, by rw [hnew]; rfl, rfl⟩, ?_⟩
      rw [hst', hnew]; rfl
  · rw [hsize] at hi
    rw [hst (by omega)]
    rcases Nat.lt_or_eq_of_le (Nat.le_of_lt_succ hi) with hlt | hlast
    · rw [hkeep Block.decorators (fun _ _ => rfl) hlt]
      exact hf.decorators i hlt
    · rw [hlast, hnew, show i = s.current by rw [State.current]; omega, ← hf.pending]; rfl
  · rw [hkeep Block.decorators (fun _ _ => rfl) hs.size_pos]
    exact hf.root
  · have hcur : (s.opened row.line h).current = s.tree.size := by rw [State.current, hsize]; rfl
    rw [hcur, hst']; rfl

end Filed

/-! ### A whole run -/

theorem filed_of_run {source : Text} {seed : Digest} {s : State}
    (h : (numbered source).foldlM State.step (Parser.start seed) = .ok s) :
    Filed (numbered source) s := by
  refine (read_induction (P := fun seen s => State.Built seen s ∧ Filed seen s)
    ⟨State.built_start seed, Filed.start seed⟩ ?_ h).2
  rintro seen row rest s s' hrows ⟨hb, hf⟩ hr
  have hrow := line_of_numbered hrows
  have hsorted := hrows ▸ numbered_sorted source
  have hseen : ∀ r ∈ seen, r.line < row.line := fun r hr =>
    (List.pairwise_append.mp hsorted).2.2 r hr row List.mem_cons_self
  have hline i : (s.tree.block i).line < row.line := by
    have := hb.line_le i
    omega
  refine ⟨hb.reads hrow hr, ?_⟩
  cases hr with
  | blank hblank => exact hf.blank hblank
  | header _ hh _ => exact hf.opened hb.nested hseen hh
  | waits hblank hnone hw =>
    exact hf.waits hb.nested.size_pos hline (isLoose_iff.mpr ⟨hblank, hnone⟩) hw
  | code hblank hnone hw =>
    exact hf.code hb.nested.size_pos hline (isLoose_iff.mpr ⟨hblank, hnone⟩) hw

/-- The end of a stretch that becomes the decorators of the next block; the last stretch has no next
block. -/
def handedOn (rows : List CodeLine) (t : Tree) (i : Nat) : List CodeLine :=
  if i + 1 < t.size then waiting (stretch rows t i) else []

/-- All lines are where they belong. -/
structure Settled (rows : List CodeLine) (t : Tree) : Prop where
  header : ∀ r ∈ rows, (Header.parse? r.text).isSome = true →
    ∃ i, i < t.size ∧ (t.block i).line = r.line
  body : ∀ i, i < t.size → ∃ code, Leads rows t i code ∧
    (t.block i).body ++ handedOn rows t i = code ++ stretch rows t i
  decorators : ∀ i, (t.block (i + 1)).decorators = (handedOn rows t i).map trimmed
  root : (t.block 0).decorators = []

/-- At the end the lines that still wait become code. -/
theorem Filed.settle {seen : List CodeLine} {s : State} (hf : Filed seen s)
    (hs : 0 < s.tree.size) : Settled seen s.settle.tree := by
  rw [State.tree_settle]
  have hsize : (s.addCode s.pending).tree.size = s.tree.size := State.size_addCode
  have hline i : ((s.addCode s.pending).tree.block i).line = (s.tree.block i).line :=
    State.addCode_frame Block.line (fun _ _ => rfl) hs
  have hdecorators i : ((s.addCode s.pending).tree.block i).decorators =
      (s.tree.block i).decorators :=
    State.addCode_frame Block.decorators (fun _ _ => rfl) hs
  have hst i : stretch seen (s.addCode s.pending).tree i = stretch seen s.tree i :=
    stretch_congr hsize hline
  refine ⟨fun r hr hsome => ?_, fun i hi => ?_, fun i => ?_, by rw [hdecorators, hf.root]⟩
  · obtain ⟨i, hi, hri⟩ := hf.header r hr hsome
    exact ⟨i, by rw [hsize]; exact hi, by rw [hline, hri]⟩
  · rw [hsize] at hi
    obtain ⟨code, hlead, hfiled⟩ := hf.body i hi
    refine ⟨code, hlead.mono (fun _ hr => hr) (hline i), ?_⟩
    rw [State.block_addCode hs, handedOn, hsize, hst]
    by_cases hnext : i + 1 < s.tree.size
    · rw [if_pos hnext, if_neg (by rw [State.current]; omega), List.append_nil]
      exact hfiled
    · obtain rfl : i = s.current := by rw [State.current]; omega
      rw [if_neg hnext, if_pos rfl, List.append_nil, hf.pending]
      exact hfiled
  · rw [handedOn, hsize, hst]
    by_cases hnext : i + 1 < s.tree.size
    · rw [if_pos hnext, hdecorators]
      exact hf.decorators i hnext
    · rw [if_neg hnext, Tree.block_of_size_le (by rw [hsize]; omega)]; rfl

theorem settled_of_parse {source : Text} {seed : Digest} {t : Tree}
    (h : parse source seed = .ok t) : Settled (numbered source) t := by
  obtain ⟨s, hs, rfl⟩ := run_of_parse h
  exact (filed_of_run hs).settle (built_of_run hs).nested.size_pos

end Parser

end BlockSpec
