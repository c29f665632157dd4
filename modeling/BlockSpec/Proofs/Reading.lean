import BlockSpec.Parser

/-! # What reading a line does

A line takes the reader from one state to the next in one of four ways: a blank line changes
nothing, a header opens a block, a decorator line waits, and any other line is code. `Reads` lists
them, `reads_of_step` says that there are no others, and `read_induction` carries a property of the
states along a whole run. The rest are the frame facts of the two changes a tree goes through: code
added to the last block, and a block attached. -/

namespace BlockSpec

/-- What an image succeeds with comes from a success. -/
theorem exists_of_map_eq_ok {ε α β : Type} {f : α → β} {x : Except ε α} {b : β}
    (h : x.map f = .ok b) : ∃ a, x = .ok a ∧ f a = b := by
  cases x with
  | error e => cases h
  | ok a => exact ⟨a, rfl, Except.ok.inj h⟩

namespace Tree

/-! ### Attaching a block -/

variable {t : Tree} {p i : Nat} {b : Block}

@[simp] theorem size_attach : (t.attach p b).size = t.size + 1 := by
  simp [attach, size]

/-- Beyond the last block stands the default, which is the file's. -/
theorem block_of_size_le (h : t.size ≤ i) : t.block i = Block.root := by
  rw [block, Array.getElem?_eq_none h]; rfl

theorem lt_size_of_mem_body {row : CodeLine} (h : row ∈ (t.block i).body) : i < t.size := by
  refine Nat.lt_of_not_le fun hi => ?_
  rw [block_of_size_le hi] at h
  cases h

theorem lt_size_of_mem_decorators {row : CodeLine} (h : row ∈ (t.block i).decorators) :
    i < t.size := by
  refine Nat.lt_of_not_le fun hi => ?_
  rw [block_of_size_le hi] at h
  cases h

/-- The earlier blocks stay as they are, but the one attached to has one more child. -/
theorem block_attach_of_lt (hi : i < t.size) :
    (t.attach p b).block i =
      { t.block i with
        children := if i = p then (t.block i).children ++ [t.size] else (t.block i).children } := by
  have hne : i ≠ t.blocks.size := Nat.ne_of_lt hi
  have hget : t.blocks[i]? = some t.blocks[i] := Array.getElem?_eq_getElem hi
  simp only [attach, block, Array.getElem?_modify, Array.getElem?_push, if_neg hne, hget]
  by_cases hp : p = i
  · simp [hp]
  · simp [hp, Ne.symm hp]

theorem block_attach_size (hp : p < t.size) :
    (t.attach p b).block t.size = { b with parent := some p } := by
  have hne : p ≠ t.blocks.size := Nat.ne_of_lt hp
  simp only [attach, block, size, Array.getElem?_modify, Array.getElem?_push, if_neg hne]
  simp

/-- Attaching leaves everything but the links down of the earlier blocks alone. -/
theorem attach_frame {α : Type} (f : Block → α) (hf : ∀ b c, f { b with children := c } = f b)
    (hi : i < t.size) : f ((t.attach p b).block i) = f (t.block i) := by
  rw [block_attach_of_lt hi]; exact hf _ _

end Tree

namespace Parser

/-! ### Adding code -/

namespace State

variable {s : State} {code : List CodeLine} {i : Nat}

@[simp] theorem size_addCode : (s.addCode code).tree.size = s.tree.size := by
  simp [addCode, Tree.size]

@[simp] theorem pending_addCode : (s.addCode code).pending = s.pending := rfl

@[simp] theorem tree_settle : s.settle.tree = (s.addCode s.pending).tree := rfl

@[simp] theorem pending_settle : s.settle.pending = [] := rfl

/-- Code goes to the end of the current block's body. -/
theorem block_addCode (hs : 0 < s.tree.size) :
    (s.addCode code).tree.block i =
      { s.tree.block i with
        body := (s.tree.block i).body ++ if i = s.current then code else [] } := by
  have hlt : s.current < s.tree.blocks.size := Nat.sub_lt hs Nat.one_pos
  simp only [addCode, Tree.block, Array.getElem?_modify]
  by_cases hi : s.current = i
  · simp [← hi, Array.getElem?_eq_getElem hlt]
  · simp [hi, Ne.symm hi]

/-- Adding code leaves everything but the bodies alone. -/
theorem addCode_frame {α : Type} (f : Block → α) (hf : ∀ b c, f { b with body := c } = f b)
    (hs : 0 < s.tree.size) : f ((s.addCode code).tree.block i) = f (s.tree.block i) := by
  rw [block_addCode hs]; exact hf _ _

end State

/-! ### The ways of reading a line -/

/-- A header may be opened: its kind is accepted where it stands, and a binding has a usable
name. -/
structure State.Admits (s : State) (h : Header) : Prop where
  accepted : (s.tree.block (s.scopeFor h.indent)).kind.accepts h.kind = true
  named : h.kind = .binding → isIdentifier (snake h.label) = true

/-- The state after a header was opened. -/
def State.opened (s : State) (line : Nat) (h : Header) : State :=
  { tree := s.tree.attach (s.scopeFor h.indent) (s.blockOf line h)
    pending := []
    suffixes := if h.kind.takesSuffix then s.suffixes.advance else s.suffixes }

/-- A line that is no header waits for an owner: it is a decorator, or a comment behind one. -/
def State.Holds (s : State) (row : CodeLine) : Prop :=
  isDecorator row.text = true ∨ isComment row.text = true ∧ s.pending ≠ []

/-- A line takes the reader from one state to the next. -/
inductive Reads (s : State) (row : CodeLine) : State → Prop
  | blank (hb : Text.allBlank row.text = true) : Reads s row s
  | header {h : Header} (hb : Text.allBlank row.text = false)
      (hh : Header.parse? row.text = some h) (ha : s.Admits h) : Reads s row (s.opened row.line h)
  | waits (hb : Text.allBlank row.text = false) (hh : Header.parse? row.text = none)
      (hw : s.Holds row) : Reads s row { s with pending := s.pending ++ [row] }
  | code (hb : Text.allBlank row.text = false) (hh : Header.parse? row.text = none)
      (hw : ¬ s.Holds row) : Reads s row (s.settle.addCode [row])

theorem opened_of_openBlock {s s' : State} {line : Nat} {h : Header}
    (ho : s.openBlock line h = .ok s') : s.Admits h ∧ s' = s.opened line h := by
  simp only [State.openBlock] at ho
  split at ho
  · cases ho
  · rename_i hacc
    split at ho
    · cases ho
    · rename_i hname
      refine ⟨⟨by simpa using hacc, fun hk => ?_⟩, by cases ho; rfl⟩
      simpa [hk] using hname

/-- Reading a line that succeeds is one of the four ways. -/
theorem reads_of_step {s s' : State} {row : CodeLine} (h : s.step row = .ok s') :
    Reads s row s' := by
  unfold State.step at h
  split at h
  · rename_i hb
    cases h; exact .blank hb
  · rename_i hb
    have hb' : Text.allBlank row.text = false := by simpa using hb
    split at h
    · rename_i hd hh
      obtain ⟨ha, rfl⟩ := opened_of_openBlock h
      exact .header hb' hh ha
    · rename_i hh
      split at h
      · rename_i hw
        cases h
        exact .waits hb' hh (by simpa [State.Holds] using hw)
      · rename_i hw
        cases h
        exact .code hb' hh (by simpa [State.Holds] using hw)

/-! ### Runs -/

/-- What every line keeps, and the start has, a whole run has. -/
theorem read_induction {P : List CodeLine → State → Prop} {rows : List CodeLine} {s₀ : State}
    (start : P [] s₀)
    (step : ∀ seen row rest s s', rows = seen ++ row :: rest → P seen s → Reads s row s' →
      P (seen ++ [row]) s')
    {s : State} (h : rows.foldlM State.step s₀ = .ok s) : P rows s := by
  suffices hrun : ∀ (rest seen : List CodeLine) (s₁ : State), rows = seen ++ rest → P seen s₁ →
      rest.foldlM State.step s₁ = .ok s → P rows s from hrun rows [] s₀ rfl start h
  intro rest
  induction rest with
  | nil =>
    intro seen s₁ hrows hP hs
    cases hs
    simpa [hrows] using hP
  | cons row rest ih =>
    intro seen s₁ hrows hP hs
    rw [List.foldlM_cons] at hs
    cases hstep : s₁.step row with
    | error e => rw [hstep] at hs; cases hs
    | ok s₂ =>
      rw [hstep] at hs
      exact ih (seen ++ [row]) s₂ (by simp [hrows])
        (step seen row rest s₁ s₂ hrows hP (reads_of_step hstep)) hs

/-- A spec that is read leads to a last state, whose waiting lines are settled. -/
theorem run_of_parse {source : Text} {seed : Digest} {t : Tree} (h : parse source seed = .ok t) :
    ∃ s, (numbered source).foldlM State.step (start seed) = .ok s ∧ t = s.settle.tree := by
  obtain ⟨s, hs, ht⟩ := exists_of_map_eq_ok h
  exact ⟨s, hs, ht.symm⟩

/-- The next line has the next number. -/
theorem line_of_numbered {source : Text} {seen rest : List CodeLine} {row : CodeLine}
    (h : numbered source = seen ++ row :: rest) : row.line = seen.length + 1 := by
  have hget : (numbered source)[seen.length]? = some row := by simp [h]
  simp only [numbered, List.getElem?_map, List.getElem?_zipIdx, Option.map_map,
    Option.map_eq_some_iff] at hget
  obtain ⟨text, -, rfl⟩ := hget
  simp

end Parser

end BlockSpec
