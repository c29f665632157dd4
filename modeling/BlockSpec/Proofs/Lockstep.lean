import BlockSpec.Proofs.Filing

/-! # Two runs in step

Two readers are given lines of the same texts under different numbers. As long as they agree on
whether something is waiting, and on the kind of block that a header belongs to, they go the same
way at every line:

    blank    neither changes
    header   both open a block, or both refuse it with the same fault on their own lines
    other    both hold the line back, or both take it as code

So a relation between their states that each of these keeps holds at the end of the runs, unless
both are refused. Blank lines can be left out of a run altogether. -/

namespace BlockSpec

/-- A line under another number. -/
def CodeLine.renumber (f : Nat → Nat) (row : CodeLine) : CodeLine := { row with line := f row.line }

/-- A fault on a line of another number. -/
def Fault.renumber (f : Nat → Nat) : Fault → Fault
  | .nesting parent child line indent => .nesting parent child (f line) indent
  | .label text line => .label text (f line)
  | .setUp found line => .setUp found (f line)
  | .file path message => .file path message
  | .settings path message => .settings path message

@[simp] theorem CodeLine.renumber_id : CodeLine.renumber id = id := rfl

@[simp] theorem Fault.renumber_id (fault : Fault) : fault.renumber id = fault := by
  cases fault <;> rfl

namespace Parser

/-! ### Results that agree -/

/-- Two results agree: both are faults, the same up to the numbers of lines, or both are there and
are related. -/
inductive Agree {α β : Type} (f : Nat → Nat) (R : α → β → Prop) :
    Except Fault α → Except Fault β → Prop
  | refused (fault : Fault) : Agree f R (.error fault) (.error (fault.renumber f))
  | read {a : α} {b : β} : R a b → Agree f R (.ok a) (.ok b)

namespace Agree

variable {α β γ δ : Type} {f : Nat → Nat} {R R' : α → β → Prop} {Q : γ → δ → Prop}
  {x : Except Fault α} {y : Except Fault β}

theorem bind (h : Agree f R x y) {g : α → Except Fault γ} {g' : β → Except Fault δ}
    (hg : ∀ a b, R a b → Agree f Q (g a) (g' b)) : Agree f Q (x >>= g) (y >>= g') := by
  cases h with
  | refused fault => exact .refused fault
  | read hab => exact hg _ _ hab

theorem map (h : Agree f R x y) {g : α → γ} {g' : β → δ} (hg : ∀ a b, R a b → Q (g a) (g' b)) :
    Agree f Q (x.map g) (y.map g') := by
  cases h with
  | refused fault => exact .refused fault
  | read hab => exact .read (hg _ _ hab)

/-- What else follows from where the results come from. -/
theorem imp_of_eq (h : Agree f R x y) (hR : ∀ a b, x = .ok a → y = .ok b → R a b → R' a b) :
    Agree f R' x y := by
  cases h with
  | refused fault => exact .refused fault
  | read hab => exact .read (hR _ _ rfl rfl hab)

theorem exists_ok_iff (h : Agree f R x y) : (∃ a, x = .ok a) ↔ ∃ b, y = .ok b := by
  cases h with
  | refused fault => simp
  | read hab => simp

/-- Two results that are there are related. -/
theorem of_ok {a : α} {b : β} (h : Agree f R (.ok a) (.ok b)) : R a b := by
  cases h with
  | read hab => exact hab

end Agree

/-! ### One line -/

variable {s s' : State} {row : CodeLine} {rows : List CodeLine} {f : Nat → Nat}

/-- Two readers open the same header alike if it belongs to blocks of the same kind. -/
theorem openBlock_agree {R : State → State → Prop} {h : Header}
    (hkind : (s'.tree.block (s'.scopeFor h.indent)).kind =
      (s.tree.block (s.scopeFor h.indent)).kind)
    (hopened : s.Admits h → R (s.opened row.line h) (s'.opened (f row.line) h)) :
    Agree f R (s.openBlock row.line h) (s'.openBlock (f row.line) h) := by
  simp only [State.openBlock, hkind]
  split
  · exact .refused (.nesting _ _ _ _)
  · rename_i hacc
    split
    · exact .refused (.label _ _)
    · rename_i hname
      refine .read (hopened ⟨by simpa using hacc, fun hk => ?_⟩)
      simpa [hk] using hname

/-- Two readers that agree on what is waiting, and on where a header belongs, go the same way. -/
theorem step_agree {R : State → State → Prop} (hpending : s'.pending.isEmpty = s.pending.isEmpty)
    (hblank : R s s')
    (hkind : ∀ h, Header.parse? row.text = some h →
      (s'.tree.block (s'.scopeFor h.indent)).kind = (s.tree.block (s.scopeFor h.indent)).kind)
    (hopened : ∀ h, Header.parse? row.text = some h → s.Admits h →
      R (s.opened row.line h) (s'.opened (f row.line) h))
    (hwaits : R { s with pending := s.pending ++ [row] }
      { s' with pending := s'.pending ++ [row.renumber f] })
    (hcode : R (s.settle.addCode [row]) (s'.settle.addCode [row.renumber f])) :
    Agree f R (s.step row) (s'.step (row.renumber f)) := by
  simp only [State.step, CodeLine.renumber, hpending]
  split
  · exact .read hblank
  · split
    · rename_i h hh
      exact openBlock_agree (hkind h hh) (hopened h hh)
    · split
      · exact .read hwaits
      · exact .read hcode

/-! ### Whole runs -/

/-- A relation that every pair of lines keeps is kept by two runs, unless both are refused. -/
theorem run_agree {R : List CodeLine → State → State → Prop}
    (hstep : ∀ seen row rest s s', rows = seen ++ row :: rest → R seen s s' →
      Agree f (R (seen ++ [row])) (s.step row) (s'.step (row.renumber f)))
    (h : R [] s s') : Agree f (R rows) (rows.foldlM State.step s)
      ((rows.map (CodeLine.renumber f)).foldlM State.step s') := by
  suffices hrun : ∀ (rest seen : List CodeLine) (s s' : State), rows = seen ++ rest →
      R seen s s' → Agree f (R rows) (rest.foldlM State.step s)
        ((rest.map (CodeLine.renumber f)).foldlM State.step s') from hrun rows [] s s' rfl h
  intro rest
  induction rest with
  | nil =>
    intro seen s s' hrows hR
    exact .read (by simpa [hrows] using hR)
  | cons row rest ih =>
    intro seen s s' hrows hR
    rw [List.foldlM_cons, List.map_cons, List.foldlM_cons]
    exact (hstep seen row rest s s' hrows hR).bind fun a b hab =>
      ih (seen ++ [row]) a b (by simp [hrows]) hab

/-! ### Blank lines -/

/-- A line with something on it. -/
def isSolid (row : CodeLine) : Bool := !Text.allBlank row.text

/-- The texts of the lines that are not blank, in order. -/
def solidTexts (source : Text) : List Text := (Text.lines source).filter (!Text.allBlank ·)

theorem map_text_filter_isSolid (source : Text) :
    ((numbered source).filter isSolid).map (·.text) = solidTexts source := by
  have hlines : Text.lines source = (numbered source).map (·.text) := by
    simp [numbered, Function.comp_def]
  rw [solidTexts, hlines, List.filter_map]
  rfl

theorem filter_isSolid_map_renumber (rows : List CodeLine) :
    (rows.map (CodeLine.renumber f)).filter isSolid =
      (rows.filter isSolid).map (CodeLine.renumber f) := by
  rw [List.filter_map]; rfl

theorem step_of_not_isSolid (s : State) (h : isSolid row = false) : s.step row = .ok s := by
  rw [State.step, if_pos (by simpa [isSolid] using h)]

/-- Reading skips blank lines. -/
theorem foldlM_filter_isSolid (s : State) (rows : List CodeLine) :
    (rows.filter isSolid).foldlM State.step s = rows.foldlM State.step s := by
  induction rows generalizing s with
  | nil => rfl
  | cons row rest ih =>
    rw [List.foldlM_cons]
    cases h : isSolid row with
    | true =>
      rw [List.filter_cons_of_pos h, List.foldlM_cons]
      exact bind_congr fun s => ih s
    | false =>
      rw [List.filter_cons_of_neg (by simp [h]), ih, step_of_not_isSolid s h]
      rfl

end Parser

end BlockSpec
