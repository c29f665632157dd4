import BlockSpec.Proofs.Filing

/-! # The account of the lines

What filing says about stretches, said about single lines. A line is accounted for by its number
alone: a header has one block, a loose line is a decorator of the next block or code of the last
one, and the blocks keep nothing else. Which of the two it is depends on the lines around it only:
it decorates when there is a next header and some decorator line at it or before it starts a run of
decorators and comments that reaches that header. -/

namespace BlockSpec

/-- All lines that the blocks keep, block by block: decorators, then code. -/
def Tree.entries (t : Tree) : List CodeLine :=
  (List.range t.size).flatMap fun i => (t.block i).decorators ++ (t.block i).body

namespace Parser

variable {rows : List CodeLine} {t : Tree} {r m x : CodeLine} {i j n : Nat}

/-! ### Lines that decorate -/

theorem exists_trimStart_eq {line : Text} {c : Char}
    (h : ((Text.trimStart line).head? == some c) = true) :
    ∃ rest, Text.trimStart line = c :: rest := by
  rw [beq_iff_eq, List.head?_eq_some_iff] at h
  exact h

/-- Decorators and comments are no headers. -/
theorem IsMark.parse?_eq_none (h : IsMark r) : Header.parse? r.text = none := by
  rcases h with h | h
  · obtain ⟨rest, hrest⟩ := exists_trimStart_eq h
    have hkey : Header.keyword? ('@' :: rest) = none := rfl
    rw [Header.parse?, hrest, hkey]
  · obtain ⟨rest, hrest⟩ := exists_trimStart_eq h
    have hkey : Header.keyword? ('#' :: rest) = none := rfl
    rw [Header.parse?, hrest, hkey]

theorem allBlank_of_isDecorator {line : Text} (h : isDecorator line = true) :
    Text.allBlank line = false := by
  obtain ⟨rest, hrest⟩ := exists_trimStart_eq h
  rw [← Bool.not_eq_true]
  intro hblank
  rw [Text.allBlank_iff, hrest] at hblank
  cases hblank

theorem isLoose_of_isDecorator (h : isDecorator r.text = true) : isLoose r = true := by
  have hnone : Header.parse? r.text = none := IsMark.parse?_eq_none (Or.inl h)
  exact isLoose_iff.mpr ⟨allBlank_of_isDecorator h, hnone⟩

/-- The first header line behind line `n`. -/
def NextHeader (rows : List CodeLine) (n h : Nat) : Prop :=
  IsLeast {k | n < k ∧ ∃ r ∈ rows, r.line = k ∧ (Header.parse? r.text).isSome = true} h

/-- Line `n` stands in a run of decorators and comments that a decorator starts and the next header
ends. -/
def Decorates (rows : List CodeLine) (n : Nat) : Prop :=
  ∃ h, NextHeader rows n h ∧ ∃ m ∈ rows, m.line ≤ n ∧ isDecorator m.text = true ∧
    ∀ x ∈ rows, m.line ≤ x.line → x.line < h → Text.allBlank x.text = false → IsMark x

/-! ### The blocks that lines belong to -/

/-- The lines of a spec beside the tree that they were filed in. -/
structure Ledger (rows : List CodeLine) (t : Tree) : Prop where
  sorted : rows.Pairwise fun r r' => r.line < r'.line
  line_pos : ∀ r ∈ rows, 0 < r.line
  size_pos : 0 < t.size
  legal : t.Legal
  settled : Settled rows t

theorem ledger_of_parse {source : Text} {seed : Digest} (h : parse source seed = .ok t) :
    Ledger (numbered source) t := by
  obtain ⟨hn, hl⟩ := nested_and_legal_of_parse h
  exact ⟨numbered_sorted source, fun _ => line_pos_of_mem_numbered, hn.size_pos, hl,
    settled_of_parse h⟩

namespace Ledger

theorem line_le_of_le (hb : Ledger rows t) (hj : j < t.size) (h : i ≤ j) :
    (t.block i).line ≤ (t.block j).line := by
  rcases Nat.lt_or_eq_of_le h with hlt | rfl
  · exact (hb.legal.line_lt i j hlt hj).le
  · exact le_rfl

/-- Every block but the file's was opened by a header line. -/
theorem exists_header (hb : Ledger rows t) (hpos : 0 < i) (hi : i < t.size) :
    ∃ r ∈ rows, r.line = (t.block i).line ∧ (Header.parse? r.text).isSome = true := by
  obtain ⟨code, hlead | ⟨r, hr, h, hh, hri, -⟩, -⟩ := hb.settled.body i hi
  · exact absurd hlead.1 hpos.ne'
  · exact ⟨r, hr, hri, by rw [hh]; rfl⟩

/-- A loose line stands in the stretch of the last block before it. -/
theorem exists_mem_stretch (hb : Ledger rows t) (hr : r ∈ rows) (hloose : isLoose r = true) :
    ∃ i, i < t.size ∧ r ∈ stretch rows t i := by
  have hroot : (t.block 0).line < r.line := by
    rw [hb.legal.root_line]; exact hb.line_pos r hr
  set i := Nat.findGreatest (fun j => (t.block j).line < r.line) (t.size - 1) with hi
  have hle : i ≤ t.size - 1 := Nat.findGreatest_le _
  have hspec : (t.block i).line < r.line :=
    Nat.findGreatest_spec (P := fun j => (t.block j).line < r.line) (Nat.zero_le _) hroot
  have hpos := hb.size_pos
  refine ⟨i, by omega, mem_stretch.mpr ⟨hr, hloose, hspec, fun hnext => ?_⟩⟩
  have hge : ¬ (t.block (i + 1)).line < r.line :=
    Nat.findGreatest_is_greatest (P := fun j => (t.block j).line < r.line)
      (n := t.size - 1) (Nat.lt_succ_self i) (by omega)
  -- the next block's line is a header line, so it is not the loose one
  obtain ⟨r', hr', hline, hsome⟩ := hb.exists_header (Nat.succ_pos i) hnext
  refine lt_of_le_of_ne (not_lt.mp hge) fun heq => ?_
  have : r = r' := eq_of_line_eq hb.sorted hr hr' (heq.trans hline.symm)
  subst this
  rw [(isLoose_iff.mp hloose).2] at hsome
  cases hsome

theorem isGreatest_of_mem_stretch (hb : Ledger rows t) (hi : i < t.size)
    (hr : r ∈ stretch rows t i) : IsGreatest {j | j < t.size ∧ (t.block j).line < r.line} i := by
  obtain ⟨-, -, hlt, hnext⟩ := mem_stretch.mp hr
  refine ⟨⟨hi, hlt⟩, fun j hj => ?_⟩
  by_contra hij
  have hsucc : i + 1 ≤ j := not_le.mp hij
  have h1 := hnext (lt_of_le_of_lt hsucc hj.1)
  have h2 := hb.line_le_of_le hj.1 hsucc
  exact absurd hj.2 (not_lt.mpr (le_trans h1.le h2))

theorem isLeast_of_mem_stretch (hb : Ledger rows t) (hi : i + 1 < t.size)
    (hr : r ∈ stretch rows t i) :
    IsLeast {j | j < t.size ∧ r.line < (t.block j).line} (i + 1) := by
  obtain ⟨-, -, hlt, hnext⟩ := mem_stretch.mp hr
  refine ⟨⟨hi, hnext hi⟩, fun j hj => ?_⟩
  by_contra hji
  have hle := hb.line_le_of_le (Nat.lt_of_succ_lt hi) (Nat.le_of_lt_succ (not_le.mp hji))
  exact absurd hj.2 (not_lt.mpr (le_trans hle hlt.le))

/-- The next header behind a line of a stretch is that of the next block. -/
theorem nextHeader_of_mem_stretch (hb : Ledger rows t) (hi : i + 1 < t.size)
    (hr : r ∈ stretch rows t i) : NextHeader rows r.line (t.block (i + 1)).line := by
  obtain ⟨-, -, hlt, hnext⟩ := mem_stretch.mp hr
  refine ⟨⟨hnext hi, hb.exists_header (Nat.succ_pos i) hi⟩, ?_⟩
  rintro k ⟨hk, r', hr', rfl, hsome⟩
  obtain ⟨j, hj, hline⟩ := hb.settled.header r' hr' hsome
  have hmem : j ∈ {j | j < t.size ∧ r.line < (t.block j).line} := ⟨hj, by rw [hline]; exact hk⟩
  rw [← hline]
  exact hb.line_le_of_le hj ((hb.isLeast_of_mem_stretch hi hr).2 hmem)

/-- No header stands inside a stretch. -/
theorem isLoose_of_between (hb : Ledger rows t) (hi : i + 1 < t.size) (hx : x ∈ rows)
    (hlt : (t.block i).line < x.line) (hnext : x.line < (t.block (i + 1)).line)
    (hblank : Text.allBlank x.text = false) : isLoose x = true := by
  cases hh : Header.parse? x.text with
  | none => exact isLoose_iff.mpr ⟨hblank, hh⟩
  | some h =>
    obtain ⟨j, hj, hline⟩ := hb.settled.header x hx (by rw [hh]; rfl)
    rw [← hline] at hlt hnext
    have hij : i < j := by
      by_contra hle
      exact absurd hlt (not_lt.mpr (hb.line_le_of_le (Nat.lt_of_succ_lt hi) (not_lt.mp hle)))
    exact absurd hnext (not_lt.mpr (hb.line_le_of_le hj hij))

theorem sorted_stretch (hb : Ledger rows t) (i : Nat) :
    (stretch rows t i).Pairwise fun r r' => r.line < r'.line := hb.sorted.filter _

theorem mem_handedOn (hb : Ledger rows t) : r ∈ handedOn rows t i ↔
    i + 1 < t.size ∧ r ∈ stretch rows t i ∧ ∃ m, Leader (stretch rows t i) m ∧ m.line ≤ r.line := by
  unfold handedOn
  split
  · rename_i hi
    rw [mem_waiting (hb.sorted_stretch i)]
    exact ⟨fun h => ⟨hi, h⟩, fun h => h.2⟩
  · rename_i hi
    exact ⟨fun h => absurd h List.not_mem_nil, fun h => absurd h.1 hi⟩

/-- A run of decorators and comments that goes on behind a header has not started before it: the
header is no such line. -/
theorem line_lt_of_marks (hb : Ledger rows t) (hi : i < t.size) (hm : m ∈ rows) {h : Nat}
    (hih : (t.block i).line < h)
    (hall : ∀ x ∈ rows, m.line ≤ x.line → x.line < h → Text.allBlank x.text = false → IsMark x) :
    (t.block i).line < m.line := by
  rcases Nat.eq_zero_or_pos i with rfl | hpos
  · rw [hb.legal.root_line]; exact hb.line_pos m hm
  · obtain ⟨x, hx, hline, hsome⟩ := hb.exists_header hpos hi
    by_contra hle
    have hblank : Text.allBlank x.text = false := by
      rw [← Bool.not_eq_true]
      intro hblank
      rw [Header.parse?_of_allBlank hblank] at hsome
      cases hsome
    have hmark := hall x hx (by omega) (by omega) hblank
    rw [hmark.parse?_eq_none] at hsome
    cases hsome

/-- A loose line is handed on to the next block exactly when it decorates. -/
theorem mem_handedOn_iff_decorates (hb : Ledger rows t) (hi : i < t.size)
    (hr : r ∈ stretch rows t i) : r ∈ handedOn rows t i ↔ Decorates rows r.line := by
  obtain ⟨-, -, hlt, hnext⟩ := mem_stretch.mp hr
  rw [hb.mem_handedOn]
  constructor
  · rintro ⟨hi', -, m, hm, hle⟩
    obtain ⟨hmem, -, hmi, -⟩ := mem_stretch.mp hm.mem
    refine ⟨_, hb.nextHeader_of_mem_stretch hi' hr, m, hmem, hle, hm.decorator, ?_⟩
    intro x hx hmx hxh hblank
    have hxi := lt_of_lt_of_le hmi hmx
    have hloose := hb.isLoose_of_between hi' hx hxi hxh hblank
    exact hm.since x (mem_stretch.mpr ⟨hx, hloose, hxi, fun _ => hxh⟩) hmx
  · rintro ⟨h, hh, m, hm, hle, hdec, hall⟩
    obtain ⟨hnh, r', hr', hline', hsome⟩ := hh.1
    obtain ⟨j, hj, hline⟩ := hb.settled.header r' hr' hsome
    have hij : i < j := by
      by_contra hji
      have := hb.line_le_of_le hi (not_lt.mp hji)
      omega
    have hi' : i + 1 < t.size := lt_of_le_of_lt hij hj
    have hheq : h = (t.block (i + 1)).line := hh.unique (hb.nextHeader_of_mem_stretch hi' hr)
    have hmi := hb.line_lt_of_marks hi hm (h := h) (by omega) hall
    have hmem : m ∈ stretch rows t i :=
      mem_stretch.mpr ⟨hm, isLoose_of_isDecorator hdec, hmi, fun _ => by omega⟩
    refine ⟨hi', hr, m, ⟨hmem, hdec, fun x hx hmx => ?_⟩, hle⟩
    obtain ⟨hxr, hxl, hxi, hxn⟩ := mem_stretch.mp hx
    exact hall x hxr hmx (by rw [hheq]; exact hxn hi') (isLoose_iff.mp hxl).1

/-! ### What the blocks keep -/

/-- The body of a block is the code of its header line and then its stretch, less the lines handed
on. -/
theorem body_split (hb : Ledger rows t) (hi : i < t.size) : ∃ code own, Leads rows t i code ∧
    stretch rows t i = own ++ handedOn rows t i ∧ (t.block i).body = code ++ own := by
  obtain ⟨code, hlead, hbody⟩ := hb.settled.body i hi
  obtain ⟨own, hown⟩ : handedOn rows t i <:+ stretch rows t i := by
    unfold handedOn
    split
    · exact waiting_suffix _
    · exact List.nil_suffix
  refine ⟨code, own, hlead, hown.symm, ?_⟩
  rw [← hown, ← List.append_assoc] at hbody
  exact List.append_cancel_right hbody

/-- Code from a header line has that line's number. -/
theorem line_of_mem_codeOf {line : Nat} {h : Header} (hr : r ∈ codeOf line h) : r.line = line := by
  rw [codeOf, Option.mem_toList, Option.map_eq_some_iff] at hr
  obtain ⟨code, -, rfl⟩ := hr
  rfl

theorem line_of_leads {code : List CodeLine} (hlead : Leads rows t i code) (hr : r ∈ code) :
    r.line = (t.block i).line := by
  rcases hlead with ⟨-, rfl⟩ | ⟨r', -, h, -, hline, rfl⟩
  · exact absurd hr List.not_mem_nil
  · rw [line_of_mem_codeOf hr, hline]

/-- The numbers of the lines that a block and its stretch give rise to: from the header line up to
the next one, in order. -/
theorem numbers_sorted (hb : Ledger rows t) (hi : i < t.size) :
    (((t.block i).body ++ (t.block (i + 1)).decorators).map (·.line)).Pairwise (· < ·) ∧
    ∀ n ∈ ((t.block i).body ++ (t.block (i + 1)).decorators).map (·.line),
      (t.block i).line ≤ n ∧ (i + 1 < t.size → n < (t.block (i + 1)).line) := by
  obtain ⟨code, hlead, hbody⟩ := hb.settled.body i hi
  have hmap : ((t.block i).body ++ (t.block (i + 1)).decorators).map (·.line) =
      (code ++ stretch rows t i).map (·.line) := by
    rw [hb.settled.decorators, ← hbody, List.map_append, List.map_append, List.map_map]
    rfl
  have hcode : code.Pairwise fun r r' => r.line < r'.line := by
    rcases hlead with ⟨-, rfl⟩ | ⟨r', -, h, -, -, rfl⟩
    · exact List.Pairwise.nil
    · unfold codeOf
      cases h.code <;> simp
  rw [hmap, List.pairwise_map, List.pairwise_append]
  refine ⟨⟨hcode, hb.sorted_stretch i, fun r hr r' hr' => ?_⟩, fun n hn => ?_⟩
  · rw [line_of_leads hlead hr]
    exact (mem_stretch.mp hr').2.2.1
  · obtain ⟨r, hr, rfl⟩ := List.mem_map.mp hn
    rcases List.mem_append.mp hr with hr | hr
    · rw [line_of_leads hlead hr]
      exact ⟨le_rfl, fun hnext => hb.legal.line_lt i (i + 1) (Nat.lt_succ_self i) hnext⟩
    · obtain ⟨-, -, hlt, hnext⟩ := mem_stretch.mp hr
      exact ⟨hlt.le, hnext⟩

/-- Pairs of neighbours can be told off from either end. -/
theorem flatMap_range_append_shift {α : Type} (d b : Nat → List α) : ∀ n,
    (List.range n).flatMap (fun i => d i ++ b i) ++ d n =
      d 0 ++ (List.range n).flatMap fun i => b i ++ d (i + 1)
  | 0 => by simp
  | n + 1 => by
    rw [List.range_succ, List.flatMap_append, List.flatMap_append, ← List.append_assoc,
      ← flatMap_range_append_shift d b n]
    simp

/-- All numbers that the blocks keep are different, and come in order. -/
theorem entries_sorted (hb : Ledger rows t) : (t.entries.map (·.line)).Pairwise (· < ·) := by
  have hend : (t.block t.size).decorators = [] := by rw [Tree.block_of_size_le le_rfl]; rfl
  have hshift := flatMap_range_append_shift (fun i => (t.block i).decorators)
    (fun i => (t.block i).body) t.size
  rw [hend, hb.settled.root, List.append_nil, List.nil_append] at hshift
  rw [Tree.entries, hshift, List.map_flatMap, List.pairwise_flatMap]
  refine ⟨fun i hi => (hb.numbers_sorted (List.mem_range.mp hi)).1, ?_⟩
  refine List.pairwise_lt_range.imp_of_mem fun {i j} hi hj hij n hn n' hn' => ?_
  have hj := List.mem_range.mp hj
  have hupper := ((hb.numbers_sorted (List.mem_range.mp hi)).2 n hn).2 (lt_of_le_of_lt hij hj)
  have hlower := ((hb.numbers_sorted hj).2 n' hn').1
  exact lt_of_lt_of_le hupper (le_trans (hb.line_le_of_le hj hij) hlower)

/-- A decorator of a block is a line that the block before handed on. -/
theorem exists_handedOn (hb : Ledger rows t) (hr : r ∈ (t.block i).decorators) :
    ∃ k, i = k + 1 ∧ ∃ r' ∈ handedOn rows t k, r = trimmed r' := by
  cases i with
  | zero => rw [hb.settled.root] at hr; cases hr
  | succ k =>
    rw [hb.settled.decorators, List.mem_map] at hr
    obtain ⟨r', hr', rfl⟩ := hr
    exact ⟨k, rfl, r', hr', rfl⟩

end Ledger

/-! ### The account -/

/-- The blocks of a tree account for the lines of a spec. -/
structure Accounts (rows : List CodeLine) (t : Tree) : Prop where
  /-- A header line has one block. -/
  header : ∀ r ∈ rows, (Header.parse? r.text).isSome = true →
    ∃! i, i < t.size ∧ (t.block i).line = r.line
  /-- Code on a header line leads the body of its block, a binding's as the value it returns. -/
  header_code : ∀ r ∈ rows, ∀ h code, Header.parse? r.text = some h → h.code = some code →
    ∀ i, i < t.size → (t.block i).line = r.line →
      (t.block i).body.head? = some ⟨r.line, headerCode h.kind code⟩
  /-- A line that decorates is, trimmed, a decorator of the first block behind it. -/
  decorator : ∀ r ∈ rows, isLoose r = true → Decorates rows r.line →
    ∃ i, IsLeast {j | j < t.size ∧ r.line < (t.block j).line} i ∧
      ⟨r.line, Text.trim r.text⟩ ∈ (t.block i).decorators
  /-- Any other loose line is, as it stands, code of the last block before it. -/
  code : ∀ r ∈ rows, isLoose r = true → ¬ Decorates rows r.line →
    ∃ i, IsGreatest {j | j < t.size ∧ (t.block j).line < r.line} i ∧ r ∈ (t.block i).body
  /-- Either way it is kept once. -/
  once : ∀ r ∈ rows, isLoose r = true → (t.entries.map (·.line)).count r.line = 1
  /-- There are no other decorators. -/
  only_decorators : ∀ i, i < t.size → ∀ e ∈ (t.block i).decorators,
    ∃ r ∈ rows, isLoose r = true ∧ Decorates rows r.line ∧ e = ⟨r.line, Text.trim r.text⟩ ∧
      IsLeast {j | j < t.size ∧ r.line < (t.block j).line} i
  /-- There is no other code. -/
  only_code : ∀ i, i < t.size → ∀ e ∈ (t.block i).body,
    (∃ r ∈ rows, ∃ h code, Header.parse? r.text = some h ∧ h.code = some code ∧
      r.line = (t.block i).line ∧ e = ⟨r.line, headerCode h.kind code⟩) ∨
    e ∈ rows ∧ isLoose e = true ∧ ¬ Decorates rows e.line ∧
      IsGreatest {j | j < t.size ∧ (t.block j).line < e.line} i
  /-- Numbers go up in every list. -/
  increasing : ∀ i, i < t.size → ((t.block i).body.map (·.line)).Pairwise (· < ·) ∧
    ((t.block i).decorators.map (·.line)).Pairwise (· < ·)

namespace Ledger

theorem existsUnique_block (hb : Ledger rows t) (hr : r ∈ rows)
    (hsome : (Header.parse? r.text).isSome = true) :
    ∃! i, i < t.size ∧ (t.block i).line = r.line := by
  obtain ⟨i, hi, hline⟩ := hb.settled.header r hr hsome
  refine ⟨i, ⟨hi, hline⟩, fun j hj => ?_⟩
  rcases Nat.lt_trichotomy j i with hlt | rfl | hlt
  · exact absurd (hb.legal.line_lt j i hlt hi) (by omega)
  · rfl
  · exact absurd (hb.legal.line_lt i j hlt hj.1) (by omega)

theorem head?_body (hb : Ledger rows t) (hr : r ∈ rows) {h : Header} {code : Text}
    (hh : Header.parse? r.text = some h) (hcode : h.code = some code) (hi : i < t.size)
    (hline : (t.block i).line = r.line) :
    (t.block i).body.head? = some ⟨r.line, headerCode h.kind code⟩ := by
  obtain ⟨lead, own, hlead, -, hbody⟩ := hb.body_split hi
  rcases hlead with ⟨rfl, -⟩ | ⟨r', hr', h', hh', hline', rfl⟩
  · have := hb.line_pos r hr
    rw [hb.legal.root_line] at hline
    omega
  · obtain rfl : r' = r := eq_of_line_eq hb.sorted hr' hr (hline'.trans hline)
    rw [hh] at hh'
    cases hh'
    rw [hbody, codeOf, hcode]
    rfl

theorem count_entries (hb : Ledger rows t) (h : n ∈ t.entries.map (·.line)) :
    (t.entries.map (·.line)).count n = 1 :=
  List.count_eq_one_of_mem hb.entries_sorted.nodup h

/-- Being handed on and being kept exclude each other. -/
theorem mem_own_iff (hb : Ledger rows t) {own : List CodeLine}
    (hown : stretch rows t i = own ++ handedOn rows t i) :
    r ∈ own ↔ r ∈ stretch rows t i ∧ r ∉ handedOn rows t i := by
  have hnodup : (own ++ handedOn rows t i).Nodup := by
    rw [← hown]
    exact (hb.sorted_stretch i).imp fun h heq => absurd (heq ▸ h) (lt_irrefl _)
  rw [hown, List.mem_append]
  refine ⟨fun h => ⟨Or.inl h, fun h' => ?_⟩, fun h => h.1.resolve_right h.2⟩
  exact (List.nodup_append.mp hnodup).2.2 r h r h' rfl

theorem mem_decorators_of_decorates (hb : Ledger rows t) (hi : i < t.size)
    (hr : r ∈ stretch rows t i) (hd : Decorates rows r.line) :
    i + 1 < t.size ∧ trimmed r ∈ (t.block (i + 1)).decorators := by
  have hhand := (hb.mem_handedOn_iff_decorates hi hr).mpr hd
  refine ⟨(hb.mem_handedOn.mp hhand).1, ?_⟩
  rw [hb.settled.decorators]
  exact List.mem_map_of_mem hhand

theorem mem_body_of_not_decorates (hb : Ledger rows t) (hi : i < t.size)
    (hr : r ∈ stretch rows t i) (hd : ¬ Decorates rows r.line) : r ∈ (t.block i).body := by
  obtain ⟨code, own, -, hown, hbody⟩ := hb.body_split hi
  have hhand : r ∉ handedOn rows t i := fun h => hd ((hb.mem_handedOn_iff_decorates hi hr).mp h)
  rw [hbody]
  exact List.mem_append_right _ ((hb.mem_own_iff hown).mpr ⟨hr, hhand⟩)

theorem line_mem_entries (hb : Ledger rows t) (hr : r ∈ rows) (hloose : isLoose r = true) :
    r.line ∈ t.entries.map (·.line) := by
  obtain ⟨i, hi, hst⟩ := hb.exists_mem_stretch hr hloose
  by_cases hd : Decorates rows r.line
  · obtain ⟨hi', hmem⟩ := hb.mem_decorators_of_decorates hi hst hd
    refine List.mem_map.mpr ⟨trimmed r, List.mem_flatMap.mpr ⟨i + 1, ?_, ?_⟩, rfl⟩
    · exact List.mem_range.mpr hi'
    · exact List.mem_append_left _ hmem
  · have hmem := hb.mem_body_of_not_decorates hi hst hd
    refine List.mem_map.mpr ⟨r, List.mem_flatMap.mpr ⟨i, List.mem_range.mpr hi, ?_⟩, rfl⟩
    exact List.mem_append_right _ hmem

theorem origin_of_mem_body (hb : Ledger rows t) (hi : i < t.size) (he : r ∈ (t.block i).body) :
    (∃ r' ∈ rows, ∃ h code, Header.parse? r'.text = some h ∧ h.code = some code ∧
      r'.line = (t.block i).line ∧ r = ⟨r'.line, headerCode h.kind code⟩) ∨
    r ∈ stretch rows t i ∧ ¬ Decorates rows r.line := by
  obtain ⟨code, own, hlead, hown, hbody⟩ := hb.body_split hi
  rw [hbody, List.mem_append] at he
  rcases he with he | he
  · rcases hlead with ⟨-, rfl⟩ | ⟨r', hr', h, hh, hline, rfl⟩
    · exact absurd he List.not_mem_nil
    · rw [codeOf, Option.mem_toList, Option.map_eq_some_iff] at he
      obtain ⟨text, htext, rfl⟩ := he
      exact Or.inl ⟨r', hr', h, text, hh, htext, hline, rfl⟩
  · obtain ⟨hst, hhand⟩ := (hb.mem_own_iff hown).mp he
    exact Or.inr ⟨hst, fun hd => hhand ((hb.mem_handedOn_iff_decorates hi hst).mpr hd)⟩

theorem accounts (hb : Ledger rows t) : Accounts rows t where
  header _ hr hsome := hb.existsUnique_block hr hsome
  header_code _ hr _ _ hh hcode _ hi hline := hb.head?_body hr hh hcode hi hline
  decorator r hr hloose hd := by
    obtain ⟨i, hi, hst⟩ := hb.exists_mem_stretch hr hloose
    obtain ⟨hi', hmem⟩ := hb.mem_decorators_of_decorates hi hst hd
    exact ⟨i + 1, hb.isLeast_of_mem_stretch hi' hst, hmem⟩
  code r hr hloose hd := by
    obtain ⟨i, hi, hst⟩ := hb.exists_mem_stretch hr hloose
    exact ⟨i, hb.isGreatest_of_mem_stretch hi hst, hb.mem_body_of_not_decorates hi hst hd⟩
  once _ hr hloose := hb.count_entries (hb.line_mem_entries hr hloose)
  only_decorators i hi e he := by
    obtain ⟨k, rfl, r, hr, rfl⟩ := hb.exists_handedOn he
    obtain ⟨-, hst, -⟩ := hb.mem_handedOn.mp hr
    obtain ⟨hmem, hloose, -, -⟩ := mem_stretch.mp hst
    have hd := (hb.mem_handedOn_iff_decorates (Nat.lt_of_succ_lt hi) hst).mp hr
    exact ⟨r, hmem, hloose, hd, rfl, hb.isLeast_of_mem_stretch hi hst⟩
  only_code i hi e he := by
    refine (hb.origin_of_mem_body hi he).imp_right fun ⟨hst, hd⟩ => ?_
    obtain ⟨hmem, hloose, -, -⟩ := mem_stretch.mp hst
    exact ⟨hmem, hloose, hd, hb.isGreatest_of_mem_stretch hi hst⟩
  increasing i hi := by
    have hentries := hb.entries_sorted
    rw [Tree.entries, List.map_flatMap, List.pairwise_flatMap] at hentries
    have hblock := hentries.1 i (List.mem_range.mpr hi)
    rw [List.map_append, List.pairwise_append] at hblock
    exact ⟨hblock.2.1, hblock.1⟩

end Ledger

end Parser

/-- Every line of a spec that can be read is accounted for: headers by their blocks, loose lines as
decorators of the next block or code of the last one. -/
theorem parse_accounts {source : Text} {seed : Digest} {t : Tree} (h : parse source seed = .ok t) :
    Parser.Accounts (Parser.numbered source) t :=
  (Parser.ledger_of_parse h).accounts

/-- A spec with decorator lines above headers, among blank lines and comments, inside a body and at
the end. -/
def decoratedSpec : Text :=
  ("import os\n@late\n# note\ndescribe \"A\":\n    @skip\n\n    # why\n    it \"x\": pass\n" ++
    "        @inner\n        def f(): pass\n    @end\n").toList

theorem parse_accounts_decorated : ∃ t, parse decoratedSpec (Vector.replicate 32 7) = .ok t ∧
    (t.block 2).decorators.map (·.line) = [5, 7] ∧ (t.block 2).body.map (·.line) = [8, 9, 10, 11] ∧
    Parser.Accounts (Parser.numbered decoratedSpec) t := by
  have hview : (parse decoratedSpec (Vector.replicate 32 7)).map
      (fun t => ((t.block 2).decorators.map (·.line), (t.block 2).body.map (·.line))) =
        .ok ([5, 7], [8, 9, 10, 11]) := by
    decide +kernel
  obtain ⟨t, h, hview⟩ := exists_of_map_eq_ok hview
  obtain ⟨hdecorators, hbody⟩ := Prod.mk.inj hview
  exact ⟨t, h, hdecorators, hbody, parse_accounts h⟩

end BlockSpec
