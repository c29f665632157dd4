import BlockSpec.Proofs.Filing

/-! # Which specs are refused

Whether a header can be opened depends on the headers before it only: it stands in the nearest
earlier header that is indented less, or in the file, and must be of a kind that is accepted there;
a binding must have a usable name besides. A header that fails one of the two is *bad*.

    headers    e₁  e₂  …  eₖ │ h │ later lines
               none is bad   │ bad ──▶ the fault of h, whatever comes later
    no header is bad         ──▶ the spec can be read

The blocks opened so far mirror the headers read so far, so the search of the reader, which walks up
the tree, and the search among the headers, which goes back over all of them, find the same
block. -/

namespace BlockSpec

namespace Parser

/-- A header and the number of its line. -/
structure HeaderLine where
  line : Nat
  header : Header
  deriving DecidableEq, Repr

/-- The headers among some lines, in order. -/
def headerLines (rows : List CodeLine) : List HeaderLine :=
  rows.filterMap fun row => (Header.parse? row.text).map (HeaderLine.mk row.line)

/-- The kind of what a header stands in: the nearest earlier header that is indented less, the file
if there is none. -/
def enclosingKind (earlier : List HeaderLine) (e : HeaderLine) : Kind :=
  match earlier.reverse.find? fun x => x.header.indent < e.header.indent with
  | some x => x.header.kind
  | none => .group

/-- A header of a kind that is not accepted where it stands. -/
def Misplaced (earlier : List HeaderLine) (e : HeaderLine) : Prop :=
  (enclosingKind earlier e).accepts e.header.kind = false

/-- A binding whose label gives no usable name. -/
def Misnamed (e : HeaderLine) : Prop :=
  e.header.kind = .binding ∧ isIdentifier (snake e.header.label) = false

/-- A header that cannot be opened behind the given ones. -/
def Bad (earlier : List HeaderLine) (e : HeaderLine) : Prop := Misplaced earlier e ∨ Misnamed e

/-- No header is bad behind those before it. -/
def AllGood (headers : List HeaderLine) : Prop :=
  ∀ earlier e later, headers = earlier ++ e :: later → ¬ Bad earlier e

instance (earlier : List HeaderLine) (e : HeaderLine) : Decidable (Misplaced earlier e) :=
  inferInstanceAs (Decidable (_ = false))

/-- The fault of a bad header. A misplaced header is reported as such even if it is misnamed too. -/
def faultOf (earlier : List HeaderLine) (e : HeaderLine) : Fault :=
  if Misplaced earlier e then
    .nesting (enclosingKind earlier e) e.header.kind e.line e.header.indent
  else .label e.header.label e.line

/-- The line that a bad header's fault points at is its own. -/
theorem line?_faultOf (earlier : List HeaderLine) (e : HeaderLine) :
    (faultOf earlier e).line? = some e.line := by
  unfold faultOf
  split <;> rfl

/-! ### Headers in order -/

variable {rows seen rest : List CodeLine} {row : CodeLine} {earlier later : List HeaderLine}
  {e : HeaderLine} {s : State}

@[simp] theorem headerLines_append (rows rest : List CodeLine) :
    headerLines (rows ++ rest) = headerLines rows ++ headerLines rest := List.filterMap_append

theorem headerLines_singleton (row : CodeLine) :
    headerLines [row] = ((Header.parse? row.text).map (HeaderLine.mk row.line)).toList := by
  rw [headerLines, List.filterMap_cons]
  cases Header.parse? row.text <;> rfl

/-- A header stands on one of the lines, with the earlier and the later headers on both sides. -/
theorem exists_row_of_headerLines (h : headerLines rows = earlier ++ e :: later) :
    ∃ seen row rest, rows = seen ++ row :: rest ∧ headerLines seen = earlier ∧
      Header.parse? row.text = some e.header ∧ row.line = e.line := by
  obtain ⟨seen, tail, rfl, hseen, htail⟩ := List.filterMap_eq_append_iff.mp h
  obtain ⟨blank, row, rest, rfl, hnone, hrow, -⟩ := List.filterMap_eq_cons_iff.mp htail
  obtain ⟨header, hh, rfl⟩ := Option.map_eq_some_iff.mp hrow
  refine ⟨seen ++ blank, row, rest, by simp, ?_, hh, rfl⟩
  have hblank : headerLines blank = [] := List.filterMap_eq_nil_iff.mpr hnone
  rw [headerLines_append, hblank, List.append_nil]
  exact hseen

theorem AllGood.of_append (h : AllGood (earlier ++ later)) : AllGood earlier := by
  rintro before e after rfl
  exact h before e (after ++ later) (by simp)

theorem AllGood.concat (h : AllGood earlier) (he : ¬ Bad earlier e) : AllGood (earlier ++ [e]) := by
  intro before x after hsplit
  rcases List.eq_nil_or_concat after with rfl | ⟨after, y, rfl⟩
  · obtain ⟨rfl, hx⟩ := List.append_inj' hsplit rfl
    cases hx
    exact he
  · rw [List.concat_eq_append, ← List.cons_append, ← List.append_assoc] at hsplit
    exact h before x after (List.append_inj' hsplit rfl).1

/-- If a header is bad then one is bad behind good ones. -/
theorem exists_first_bad (headers : List HeaderLine) : AllGood headers ∨
    ∃ earlier e later, headers = earlier ++ e :: later ∧ AllGood earlier ∧ Bad earlier e := by
  induction headers using List.reverseRecOn with
  | nil =>
    refine Or.inl fun earlier e later h => ?_
    exact absurd h.symm (List.append_ne_nil_of_right_ne_nil _ (List.cons_ne_nil _ _))
  | append_singleton headers e ih =>
    rcases ih with hgood | ⟨earlier, x, later, rfl, hgood, hbad⟩
    · by_cases he : Bad headers e
      · exact Or.inr ⟨headers, e, [], rfl, hgood, he⟩
      · exact Or.inl (hgood.concat he)
    · exact Or.inr ⟨earlier, x, later ++ [e], by simp, hgood, hbad⟩

/-! ### The tree mirrors the headers -/

/-- The blocks behind the file's are those of the headers, in order. -/
structure Mirrors (headers : List HeaderLine) (t : Tree) : Prop where
  size : t.size = headers.length + 1
  kind : ∀ (i : Nat) (hi : i < headers.length), (t.block (i + 1)).kind = headers[i].header.kind
  indent : ∀ (i : Nat) (hi : i < headers.length),
    (t.block (i + 1)).indent = (headers[i].header.indent : Int)

namespace Mirrors

variable {headers : List HeaderLine} {t t' : Tree}

theorem of_bare (hm : Mirrors headers t) (hsize : t'.size = t.size)
    (hbare : ∀ i, (t'.block i).bare = (t.block i).bare) : Mirrors headers t' where
  size := hsize.trans hm.size
  kind i hi := (Block.congr_bare Block.kind (fun _ => rfl) (hbare (i + 1))).trans (hm.kind i hi)
  indent i hi :=
    (Block.congr_bare Block.indent (fun _ => rfl) (hbare (i + 1))).trans (hm.indent i hi)

theorem attach (hm : Mirrors headers t) {p : Nat} (hp : p < t.size) {b : Block}
    (hkind : b.kind = e.header.kind) (hindent : b.indent = (e.header.indent : Int)) :
    Mirrors (headers ++ [e]) (t.attach p b) := by
  have hkeep {α : Type} (f : Block → α) (hf : ∀ b c, f { b with children := c } = f b) {i : Nat}
      (hi : i < headers.length) : f ((t.attach p b).block (i + 1)) = f (t.block (i + 1)) :=
    Tree.attach_frame f hf (by rw [hm.size]; omega)
  have hnew : (t.attach p b).block (headers.length + 1) = { b with parent := some p } := by
    rw [← hm.size]; exact Tree.block_attach_size hp
  refine ⟨by simp [hm.size], fun i hi => ?_, fun i hi => ?_⟩ <;>
    rcases Nat.lt_or_eq_of_le (Nat.le_of_lt_succ (by simpa using hi)) with hlt | rfl
  · rw [hkeep Block.kind (fun _ _ => rfl) hlt, hm.kind i hlt, List.getElem_append_left hlt]
  · simp [hnew, hkind]
  · rw [hkeep Block.indent (fun _ _ => rfl) hlt, hm.indent i hlt, List.getElem_append_left hlt]
  · simp [hnew, hindent]

end Mirrors

/-- Going back over all headers finds the last one below an indent. -/
theorem find?_reverse_eq {α : Type} {p : α → Bool} {l : List α} {i : Nat} (hi : i < l.length)
    (hp : p l[i] = true) (hbehind : ∀ (j : Nat) (hj : j < l.length), i < j → p l[j] = false) :
    l.reverse.find? p = some l[i] := by
  have hnone : (l.drop (i + 1)).reverse.find? p = none := by
    rw [List.find?_eq_none]
    intro a ha
    obtain ⟨j, hj, rfl⟩ := List.getElem_of_mem (List.mem_reverse.mp ha)
    rw [List.length_drop] at hj
    rw [List.getElem_drop, hbehind (i + 1 + j) (by omega) (by omega)]
    exact Bool.false_ne_true
  have hsplit : l = l.take i ++ l[i] :: l.drop (i + 1) := by
    rw [← List.drop_eq_getElem_cons hi, List.take_append_drop]
  conv_lhs => rw [hsplit]
  rw [List.reverse_append, List.reverse_cons, List.append_assoc, List.find?_append, hnone]
  simp [hp]

/-- The reader's search up the tree and the search back over the headers agree. -/
theorem kind_scopeFor (hs : s.tree.Nested) (hl : s.tree.Legal) (hm : Mirrors earlier s.tree)
    (e : HeaderLine) :
    (s.tree.block (s.scopeFor e.header.indent)).kind = enclosingKind earlier e := by
  obtain ⟨hp, hbelow, habove⟩ := State.scopeFor_spec hs e.header.indent
  have hbehind (j : Nat) (hj : j < earlier.length) (hpj : s.scopeFor e.header.indent < j + 1) :
      decide (earlier[j].header.indent < e.header.indent) = false := by
    have := habove (j + 1) hpj (by rw [hm.size]; omega)
    rw [hm.indent j hj] at this
    exact decide_eq_false (by omega)
  rcases hscope : s.scopeFor e.header.indent with _ | i
  · have hnone : earlier.reverse.find? (fun x => x.header.indent < e.header.indent) = none := by
      rw [List.find?_eq_none]
      intro x hx
      obtain ⟨j, hj, rfl⟩ := List.getElem_of_mem (List.mem_reverse.mp hx)
      rw [hbehind j hj (by omega)]
      exact Bool.false_ne_true
    rw [hl.root_kind, enclosingKind, hnone]
  · rw [hscope] at hp hbelow hbehind
    have hi : i < earlier.length := by rw [hm.size] at hp; omega
    rw [hm.indent i hi] at hbelow
    have hfind : earlier.reverse.find? (fun x => x.header.indent < e.header.indent) =
        some earlier[i] :=
      find?_reverse_eq hi (decide_eq_true (by omega)) fun j hj hij => hbehind j hj (by omega)
    rw [hm.kind i hi, enclosingKind, hfind]

/-! ### One line -/

/-- The lines read so far opened a block for every header. -/
structure State.Follows (seen : List CodeLine) (s : State) : Prop where
  built : s.Built seen
  mirrors : Mirrors (headerLines seen) s.tree

/-- A line that is no header can be read. -/
theorem exists_step_of_parse?_eq_none (s : State) (h : Header.parse? row.text = none) :
    ∃ s', s.step row = .ok s' := by
  unfold State.step
  by_cases hb : Text.allBlank row.text = true
  · exact ⟨s, if_pos hb⟩
  · simp only [if_neg hb, h]
    split <;> exact ⟨_, rfl⟩

theorem step_of_header (s : State) {h : Header} (hh : Header.parse? row.text = some h) :
    s.step row = s.openBlock row.line h := by
  have hblank : ¬ Text.allBlank row.text = true := by
    intro hblank
    rw [Header.parse?_of_allBlank hblank] at hh
    cases hh
  rw [State.step, if_neg hblank, hh]

/-- A header is opened or refused as the headers before it say. -/
theorem State.Follows.step_header (hs : s.Follows seen) {h : Header}
    (hh : Header.parse? row.text = some h) :
    (Bad (headerLines seen) ⟨row.line, h⟩ →
      s.step row = .error (faultOf (headerLines seen) ⟨row.line, h⟩)) ∧
    (¬ Bad (headerLines seen) ⟨row.line, h⟩ → s.step row = .ok (s.opened row.line h)) := by
  have hkind := kind_scopeFor hs.built.nested hs.built.legal hs.mirrors ⟨row.line, h⟩
  simp only at hkind
  rw [step_of_header s hh, State.openBlock, hkind]
  constructor
  · rintro (hplace | hname)
    · rw [faultOf, if_pos hplace, if_pos (by simpa [Misplaced] using hplace)]
    · by_cases hplace : Misplaced (headerLines seen) ⟨row.line, h⟩
      · rw [faultOf, if_pos hplace, if_pos (by simpa [Misplaced] using hplace)]
      · rw [faultOf, if_neg hplace, if_neg (by simpa [Misplaced] using hplace),
          if_pos (by simpa [Misnamed] using hname)]
  · intro hgood
    rw [Bad, not_or] at hgood
    rw [if_neg (by simpa [Misplaced] using hgood.1), if_neg (by simpa [Misnamed] using hgood.2)]
    rfl

/-- Every line that can be read keeps the blocks in step with the headers. -/
theorem State.Follows.reads (hs : s.Follows seen) {s' : State}
    (hrow : row.line = seen.length + 1) (hr : Reads s row s') : s'.Follows (seen ++ [row]) := by
  refine ⟨hs.built.reads hrow hr, ?_⟩
  have hpos := hs.built.nested.size_pos
  rw [headerLines_append, headerLines_singleton]
  cases hr with
  | blank hb =>
    simpa [Header.parse?_of_allBlank hb] using hs.mirrors
  | header _ hh _ =>
    obtain ⟨hp, -, -⟩ := State.scopeFor_spec hs.built.nested _
    rw [hh]
    exact hs.mirrors.attach hp rfl rfl
  | waits _ hnone _ => simpa [hnone] using hs.mirrors
  | code _ hnone _ =>
    have hpos' : 0 < s.settle.tree.size := by simpa using hpos
    rw [hnone, Option.map_none, Option.toList_none, List.append_nil]
    refine hs.mirrors.of_bare (by simp) fun i => ?_
    rw [State.addCode_frame Block.bare (fun _ _ => rfl) hpos', State.tree_settle,
      State.addCode_frame Block.bare (fun _ _ => rfl) hpos]

/-! ### A whole run -/

/-- Lines behind good headers only are read to their end. -/
theorem exists_run (seed : Digest) (hline : ∀ seen row rest, rows = seen ++ row :: rest →
    row.line = seen.length + 1) (hgood : AllGood (headerLines rows)) :
    ∃ s, rows.foldlM State.step (start seed) = .ok s ∧ s.Follows rows := by
  induction rows using List.reverseRecOn with
  | nil =>
    refine ⟨start seed, rfl, State.built_start seed, rfl, ?_, ?_⟩ <;>
      exact fun i hi => absurd hi (Nat.not_lt_zero i)
  | append_singleton rows row ih =>
    rw [headerLines_append] at hgood
    obtain ⟨s, hs, hfollows⟩ := ih
      (fun seen x rest h => hline seen x (rest ++ [row]) (by simp [h])) hgood.of_append
    have hrow : row.line = rows.length + 1 := hline rows row [] rfl
    obtain ⟨s', hs'⟩ : ∃ s', s.step row = .ok s' := by
      cases hh : Header.parse? row.text with
      | none => exact exists_step_of_parse?_eq_none s hh
      | some h =>
        refine ⟨_, (hfollows.step_header hh).2 (hgood _ _ [] ?_)⟩
        rw [headerLines_singleton, hh]; rfl
    refine ⟨s', ?_, hfollows.reads hrow (reads_of_step hs')⟩
    rw [List.foldlM_append, hs]
    simp [hs', bind, Except.bind, pure, Except.pure]

/-- A bad header behind good ones ends the reading. -/
theorem run_of_first_bad (seed : Digest) {h : Header}
    (hline : ∀ before x after, seen ++ row :: rest = before ++ x :: after →
      x.line = before.length + 1)
    (hgood : AllGood (headerLines seen)) (hh : Header.parse? row.text = some h)
    (hbad : Bad (headerLines seen) ⟨row.line, h⟩) :
    (seen ++ row :: rest).foldlM State.step (start seed) =
      .error (faultOf (headerLines seen) ⟨row.line, h⟩) := by
  obtain ⟨s, hs, hfollows⟩ := exists_run seed
    (fun before x after hsplit => hline before x (after ++ row :: rest) (by simp [hsplit])) hgood
  rw [List.foldlM_append, hs]
  simp [(hfollows.step_header hh).1 hbad, bind, Except.bind]

variable {source : Text} {seed : Digest}

/-- A spec without bad headers can be read. -/
theorem exists_parse_of_allGood (seed : Digest) (h : AllGood (headerLines (numbered source))) :
    ∃ t, parse source seed = .ok t := by
  obtain ⟨s, hs, -⟩ := exists_run seed (fun _ _ _ => line_of_numbered) h
  exact ⟨s.settle.tree, by rw [parse, hs]; rfl⟩

/-- The first bad header of a spec decides its fault. -/
theorem parse_of_first_bad (seed : Digest)
    (h : headerLines (numbered source) = earlier ++ e :: later)
    (hgood : AllGood earlier) (hbad : Bad earlier e) :
    parse source seed = .error (faultOf earlier e) := by
  obtain ⟨seen, row, rest, hrows, rfl, hh, hline⟩ := exists_row_of_headerLines h
  have he : e = ⟨row.line, e.header⟩ := by rw [hline]
  rw [he] at hbad ⊢
  rw [parse, hrows, run_of_first_bad seed
    (fun _ _ _ hsplit => line_of_numbered (hrows.trans hsplit)) hgood hh hbad]
  rfl

/-- A spec that is refused has a first bad header, whose fault is reported. -/
theorem exists_first_bad_of_parse {fault : Fault} (h : parse source seed = .error fault) :
    ∃ earlier e later, headerLines (numbered source) = earlier ++ e :: later ∧ AllGood earlier ∧
      Bad earlier e ∧ fault = faultOf earlier e := by
  rcases exists_first_bad (headerLines (numbered source)) with
    hgood | ⟨earlier, e, later, hsplit, hgood, hbad⟩
  · obtain ⟨t, ht⟩ := exists_parse_of_allGood seed hgood
    rw [ht] at h
    cases h
  · refine ⟨earlier, e, later, hsplit, hgood, hbad, ?_⟩
    rw [parse_of_first_bad seed hsplit hgood hbad] at h
    exact (Except.error.inj h).symm

/-- The first lines of a spec are numbered without regard to the others. -/
theorem take_numbered (source : Text) (n : Nat) :
    (numbered source).take n =
      ((Text.lines source).take n).zipIdx.map fun (text, i) => ⟨i + 1, text⟩ := by
  rw [numbered, ← List.map_take]
  congr 1
  refine List.ext_getElem? fun i => ?_
  rw [List.getElem?_take, List.getElem?_zipIdx, List.getElem?_zipIdx, List.getElem?_take]
  split <;> rfl

/-- A bad header behind good ones is still there when only later lines differ. -/
theorem headerLines_of_take_eq {source' : Text}
    (h : headerLines (numbered source) = earlier ++ e :: later)
    (htake : (Text.lines source').take e.line = (Text.lines source).take e.line) :
    ∃ later', headerLines (numbered source') = earlier ++ e :: later' := by
  obtain ⟨seen, row, rest, hrows, rfl, hh, hline⟩ := exists_row_of_headerLines h
  have hlength : e.line = seen.length + 1 := by rw [← hline, line_of_numbered hrows]
  have hfirst : (numbered source').take (seen.length + 1) = seen ++ [row] := by
    rw [take_numbered, ← hlength, htake, ← take_numbered, hlength, hrows,
      ← List.singleton_append, ← List.append_assoc]
    exact List.take_left' (by simp)
  refine ⟨headerLines ((numbered source').drop (seen.length + 1)), ?_⟩
  rw [← List.take_append_drop (seen.length + 1) (numbered source'), hfirst, headerLines_append,
    headerLines_append, headerLines_singleton, hh, hline]
  simp

end Parser

/-- A spec is refused exactly when one of its headers is bad, with the fault of the first bad one:
the nesting if it is misplaced, and else the label. Nothing behind that header's line, nor the seed,
has any part in it. -/
theorem parse_refuses_first_bad (source : Text) (seed : Digest) :
    ((∃ fault, parse source seed = .error fault) ↔ ∃ earlier e later,
      Parser.headerLines (Parser.numbered source) = earlier ++ e :: later ∧
        Parser.Bad earlier e) ∧
    (∀ fault, parse source seed = .error fault ↔ ∃ earlier e later,
      Parser.headerLines (Parser.numbered source) = earlier ++ e :: later ∧
        Parser.AllGood earlier ∧ Parser.Bad earlier e ∧ fault = Parser.faultOf earlier e) ∧
    ∀ fault, parse source seed = .error fault → ∃ line, fault.line? = some line ∧
      ∀ source' seed', (Text.lines source').take line = (Text.lines source).take line →
        parse source' seed' = .error fault := by
  refine ⟨⟨?_, ?_⟩, fun fault => ⟨Parser.exists_first_bad_of_parse, ?_⟩, ?_⟩
  · rintro ⟨fault, h⟩
    obtain ⟨earlier, e, later, hsplit, -, hbad, -⟩ := Parser.exists_first_bad_of_parse h
    exact ⟨earlier, e, later, hsplit, hbad⟩
  · rintro ⟨earlier, e, later, hsplit, hbad⟩
    rcases Parser.exists_first_bad (Parser.headerLines (Parser.numbered source)) with
      hgood | ⟨earlier', e', later', hsplit', hgood', hbad'⟩
    · exact absurd hbad (hgood earlier e later hsplit)
    · exact ⟨_, Parser.parse_of_first_bad seed hsplit' hgood' hbad'⟩
  · rintro ⟨earlier, e, later, hsplit, hgood, hbad, rfl⟩
    exact Parser.parse_of_first_bad seed hsplit hgood hbad
  · intro fault h
    obtain ⟨earlier, e, later, hsplit, hgood, hbad, rfl⟩ := Parser.exists_first_bad_of_parse h
    refine ⟨e.line, Parser.line?_faultOf earlier e, fun source' seed' htake => ?_⟩
    obtain ⟨later', hsplit'⟩ := Parser.headerLines_of_take_eq hsplit htake
    exact Parser.parse_of_first_bad seed' hsplit' hgood hbad

-- The second header is misplaced and misnamed, the third one misplaced.
example : (parse "describe \"A\":\nlet \"1\": x\nbefore \"b\": y\n".toList
    (Vector.replicate 32 7)).map Tree.size = .error (.nesting .group .binding 2 0) := by
  decide +kernel

end BlockSpec
