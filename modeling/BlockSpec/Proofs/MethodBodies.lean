import BlockSpec.Proofs.Grammar
import BlockSpec.Proofs.LegalNames
import BlockSpec.Proofs.Lines

/-! # Every method has a body

A row that opens a method must have an indented row behind it, or the module cannot be read. What
comes next depends on the method:

    def test_adds(self):        def test_later(self):       def setUp(self):
        total = 1 + 1               pass                        self.x = self._set_up_x()
        └ 8 └ first line of the body, less its indentation

Bodies hold no blank line, and the first line of a body loses exactly the blanks in front of it. So
the first line of copied code has the indent of its place and a character behind it that is no
blank, whatever blanks it was written with. The same holds for the code of a class and of the file,
which stand at other indents.

Rows that open methods are followed through the module from its parts: the rows of a part open the
methods of the part, each with a body behind, and this is kept when parts are put together. -/

namespace BlockSpec

/-! ### Indented texts -/

namespace Text

/-- A text starts with so many spaces and then a character that is no blank. -/
def IndentedBy (width : Nat) (t : Text) : Prop :=
  ∃ c rest, t = spaces width ++ c :: rest ∧ isBlank c = false

theorem IndentedBy.append {width : Nat} {s : Text} (h : IndentedBy width s) (t : Text) :
    IndentedBy width (s ++ t) := by
  obtain ⟨c, rest, rfl, hc⟩ := h
  exact ⟨c, rest ++ t, by rw [List.append_assoc, List.cons_append], hc⟩

/-- Without its indentation a line starts with no blank. -/
theorem exists_drop_indentWidth {l : Text} (h : allBlank l = false) :
    ∃ c rest, l.drop (indentWidth l) = c :: rest ∧ isBlank c = false := by
  induction l with
  | nil => cases h
  | cons c l ih =>
    rw [indentWidth_cons]
    by_cases hc : isBlank c = true
    · rw [if_pos hc, List.drop_succ_cons]
      rw [allBlank, List.all_cons, hc, Bool.true_and] at h
      exact ih h
    · rw [if_neg hc]
      exact ⟨c, l, rfl, Bool.eq_false_of_not_eq_true hc⟩

end Text

/-! ### Rows that open methods -/

/-- A row of the library's own that opens a method. -/
def Row.isDef : Row → Bool
  | .plain text => Text.startsWith "    def ".toList text
  | .copied .. => false

theorem Row.IsRemark.not_isDef {row : Row} (h : row.IsRemark) : ¬ row.isDef = true := by
  obtain ⟨rest, rfl | rfl⟩ := h <;> exact Bool.false_ne_true

theorem Row.IsCopied.not_isDef {row : Row} (h : row.IsCopied) : ¬ row.isDef = true := by
  obtain rfl | ⟨width, text, line, rfl⟩ := h <;> exact Bool.false_ne_true

namespace TestModule

/-- Rows as text. -/
def textOf (markers : Bool) (rows : List Row) : Text := Text.ofLines (rows.map (Row.render markers))

variable {markers : Bool} {rows rows' defs defs' : List Row} {row : Row} {t : Tree}
  {source : Text} {seed : Digest} {options : Options}

theorem textOf_append (rows rows' : List Row) :
    textOf markers (rows ++ rows') = textOf markers rows ++ textOf markers rows' := by
  rw [textOf, List.map_append, Text.ofLines, List.flatMap_append]
  rfl

/-- Rows open methods: each with one line, and with an indented line behind it. -/
structure Opens (markers : Bool) (rows defs : List Row) : Prop where
  /-- No other row looks as if it opened a method. -/
  defs : rows.filter Row.isDef = defs
  bodies : ∀ before row after, rows = before ++ row :: after → row.isDef = true →
    '\n' ∉ row.render markers ∧ (textOf markers after).IndentedBy methodWidth

namespace Opens

theorem of_none (h : rows.filter Row.isDef = []) : Opens markers rows [] where
  defs := h
  bodies := by
    rintro before row after rfl hdef
    exact absurd hdef (List.filter_eq_nil_iff.mp h row (by simp))

theorem append (h : Opens markers rows defs) (h' : Opens markers rows' defs') :
    Opens markers (rows ++ rows') (defs ++ defs') where
  defs := by rw [List.filter_append, h.defs, h'.defs]
  bodies := by
    intro before row after heq hdef
    rcases List.append_eq_append_iff.mp heq with ⟨middle, rfl, hback⟩ | ⟨middle, hfront, hback⟩
    · exact h'.bodies middle row after hback hdef
    · cases middle with
      | nil => exact h'.bodies [] row after hback.symm hdef
      | cons first middle =>
        -- the body stands among the rows in front
        obtain ⟨rfl, hafter⟩ : row = first ∧ after = middle ++ rows' := List.cons_eq_cons.mp hback
        obtain ⟨hline, hbody⟩ := h.bodies before row middle hfront hdef
        rw [hafter, textOf_append]
        exact ⟨hline, hbody.append _⟩

theorem flatMap {α : Type} {f g : α → List Row} {l : List α}
    (h : ∀ a ∈ l, Opens markers (f a) (g a)) : Opens markers (l.flatMap f) (l.flatMap g) := by
  induction l with
  | nil => exact of_none rfl
  | cons a l ih =>
    obtain ⟨ha, hl⟩ := List.forall_mem_cons.mp h
    rw [List.flatMap_cons, List.flatMap_cons]
    exact ha.append (ih hl)

/-- A method: the row that opens it, and a body that opens none. -/
theorem cons (hdef : row.isDef = true) (hline : '\n' ∉ row.render markers)
    (hbody : (textOf markers rows).IndentedBy methodWidth) (hrows : rows.filter Row.isDef = []) :
    Opens markers (row :: rows) [row] where
  defs := by rw [List.filter_cons_of_pos hdef, hrows]
  bodies := by
    intro before row' after heq hdef'
    cases before with
    | nil =>
      obtain ⟨rfl, rfl⟩ := List.cons_eq_cons.mp heq
      exact ⟨hline, hbody⟩
    | cons first before =>
      obtain ⟨-, rfl⟩ := List.cons_eq_cons.mp heq
      exact absurd hdef' (List.filter_eq_nil_iff.mp hrows row' (by simp))

end Opens

/-! ### The first line of a body -/

/-- Rows start as the first of them does. -/
theorem indentedBy_cons {width : Nat} (h : (row.render markers).IndentedBy width)
    (rows : List Row) : (textOf markers (row :: rows)).IndentedBy width := by
  rw [textOf, List.map_cons, Text.ofLines_cons]
  exact h.append _

/-- Copied code starts at the indent of its place. -/
theorem indentedBy_codeRows {b : Block} (hne : b.body ≠ [])
    (hbody : ∀ line ∈ b.body, Text.allBlank line.text = false) (width : Nat) :
    (textOf markers (codeRows width b)).IndentedBy width := by
  obtain ⟨first, rest, hb⟩ := List.exists_cons_of_ne_nil hne
  have hcut : b.cut = indentWidth first.text := by
    rw [Block.cut, hb]
    rfl
  obtain ⟨c, text, htext, hc⟩ := Text.exists_drop_indentWidth (hbody first (by simp [hb]))
  have hblank : ¬ Text.allBlank (first.text.drop b.cut) = true := by
    rw [hcut, htext, Text.allBlank, List.all_cons, hc, Bool.false_and]
    exact Bool.false_ne_true
  rw [codeRows_eq, hb, List.map_cons, if_neg hblank, hcut, htext]
  have hrow : (Text.spaces width ++ c :: text).IndentedBy width := ⟨c, text, rfl, hc⟩
  exact indentedBy_cons (hrow.append _) _

/-- Rows of the library's own start at their indent if their text starts with no blank. -/
theorem indentedBy_padded {width : Nat} {c : Char} (hc : isBlank c = false) (text : Text)
    (rows : List Row) : (textOf markers (.padded width (c :: text) :: rows)).IndentedBy width :=
  indentedBy_cons ⟨c, text, rfl, hc⟩ rows

/-! ### Methods -/

/-- The row that opens a dispatcher. -/
def dispatcherRow (name : String) : Row :=
  .padded classWidth ("def ".toList ++ name.toList ++ "(self):".toList)

/-- The rows that open the methods of a class, in order. -/
def defRows (t : Tree) (c : TestClass) : List Row :=
  c.setUps.map (defRow t) ++ c.tearDowns.map (defRow t) ++ [dispatcherRow "setUp"] ++
    (if c.tearDowns.isEmpty then [] else [dispatcherRow "tearDown"]) ++ c.tests.map (defRow t)

theorem filter_isDef_openingRows (options : Options) :
    (openingRows options).filter Row.isDef = [] :=
  List.filter_eq_nil_iff.mpr fun _ hrow => (isRemark_of_mem_openingRows hrow).not_isDef

theorem filter_isDef_codeRows (width : Nat) (b : Block) :
    (codeRows width b).filter Row.isDef = [] :=
  List.filter_eq_nil_iff.mpr fun _ hrow => (isCopied_of_mem_codeRows hrow).not_isDef

theorem filter_isDef_decoratorRows (width : Nat) (b : Block) :
    (decoratorRows width b).filter Row.isDef = [] :=
  List.filter_eq_nil_iff.mpr fun _ hrow => (isCopied_of_mem_decoratorRows hrow).not_isDef

/-- The arguments of a test were read from one line. -/
theorem newline_not_mem_args (h : parse source seed = .ok t) (i : Nat) :
    ∀ args ∈ (t.block i).args, '\n' ∉ args := by
  refine Parser.forall_block_of_lines (Q := fun b => ∀ args ∈ b.args, '\n' ∉ args)
    (fun _ _ _ _ => Iff.rfl) (fun args hargs => by cases hargs) ?_ h i
  intro s row hd hrow hread _ args hargs
  have hline : '\n' ∉ row.text := by
    obtain ⟨⟨text, n⟩, hmem, rfl⟩ := List.mem_map.mp hrow
    exact Text.newline_not_mem_of_mem_lines (List.fst_mem_of_mem_zipIdx hmem)
  simp only [Parser.State.blockOf] at hargs
  split at hargs
  · exact fun hmem => hline ((Header.args_infix hline hread hargs).subset hmem)
  · cases hargs

theorem newline_not_mem_defRow (h : parse source seed = .ok t) {m : Method}
    (hm : Nameable m.name) : '\n' ∉ (defRow t m).render markers := by
  have hname : '\n' ∉ m.name := hm.not_mem (by decide)
  have hargs := newline_not_mem_args h m.owner
  simp only [defRow, Row.padded, Row.render]
  cases ha : (t.block m.owner).args with
  | none => simp [hname]; decide
  | some args => simp [hname, hargs args ha]; decide

/-- What stands behind the row that opens a method: the code of its block, or `pass`. -/
def bodyRows (t : Tree) (i : Nat) : List Row :=
  (if (t.block i).body.isEmpty then [passRow] else codeRows methodWidth (t.block i)) ++ [.blank]

theorem filter_isDef_bodyRows (t : Tree) (i : Nat) : (bodyRows t i).filter Row.isDef = [] := by
  rw [bodyRows, List.filter_append]
  split
  · rfl
  · rw [filter_isDef_codeRows]
    rfl

theorem indentedBy_bodyRows (h : parse source seed = .ok t) (i : Nat) :
    (textOf markers (bodyRows t i)).IndentedBy methodWidth := by
  rw [bodyRows, textOf_append]
  refine Text.IndentedBy.append ?_ _
  split
  · exact indentedBy_padded (by decide) _ _
  · rename_i hne
    exact indentedBy_codeRows (by simpa using hne)
      (fun line hline => Parser.allBlank_of_mem_body h hline) _

theorem opens_methodRows (h : parse source seed = .ok t) {m : Method} (hm : Nameable m.name) :
    Opens markers (methodRows t m) [defRow t m] := by
  have hrows : methodRows t m = decoratorRows classWidth (t.block m.owner) ++
      defRow t m :: bodyRows t m.owner := by
    simp [methodRows, bodyRows]
  have hdecorators : Opens markers (decoratorRows classWidth (t.block m.owner)) [] :=
    .of_none (filter_isDef_decoratorRows _ _)
  have hmethod : Opens markers (defRow t m :: bodyRows t m.owner) [defRow t m] :=
    .cons rfl (newline_not_mem_defRow h hm) (indentedBy_bodyRows h m.owner)
      (filter_isDef_bodyRows t m.owner)
  rw [hrows]
  exact hdecorators.append hmethod

theorem opens_methods (h : parse source seed = .ok t) {ms : List Method}
    (hms : ∀ n ∈ ms.map (·.name), Nameable n) :
    Opens markers (ms.flatMap (methodRows t)) (ms.map (defRow t)) := by
  rw [List.map_eq_flatMap]
  exact .flatMap fun m hm => opens_methodRows h (hms _ (List.mem_map_of_mem hm))

/-- A dispatcher has its statements for a body, or `pass`. -/
theorem opens_dispatcherRows {name : String} (hname : '\n' ∉ name.toList) {calls : List Text}
    (hcalls : ∀ call ∈ calls, ∃ text, call = 's' :: text) :
    Opens markers (dispatcherRows name calls) [dispatcherRow name] := by
  have hline : '\n' ∉ (dispatcherRow name).render markers := by
    simp only [dispatcherRow, Row.padded, Row.render]
    simp [hname]
    decide
  have hnone : (calls.map (Row.padded methodWidth)).filter Row.isDef = [] := by
    rw [List.filter_map, List.map_eq_nil_iff]
    exact List.filter_eq_nil_iff.mpr fun call _ => Bool.false_ne_true
  rw [dispatcherRows, List.append_assoc, List.singleton_append]
  refine .cons rfl hline ?_ ?_
  · rw [textOf_append]
    refine Text.IndentedBy.append ?_ _
    cases calls with
    | nil => exact indentedBy_padded (by decide) _ _
    | cons call calls =>
      obtain ⟨text, rfl⟩ := hcalls call List.mem_cons_self
      exact indentedBy_padded (by decide) _ _
  · rw [List.filter_append]
    split
    · rfl
    · rw [hnone]
      rfl

theorem opens_dispatchers (t : Tree) (c : TestClass) :
    Opens markers (dispatchers t c) ([dispatcherRow "setUp"] ++
      if c.tearDowns.isEmpty then [] else [dispatcherRow "tearDown"]) := by
  refine .append (opens_dispatcherRows (by decide) fun call hcall => ?_) ?_
  · obtain ⟨m, -, rfl⟩ := List.mem_map.mp hcall
    unfold setUpText
    split <;> exact ⟨_, rfl⟩
  · split
    · exact .of_none rfl
    · refine opens_dispatcherRows (by decide) fun call hcall => ?_
      obtain ⟨m, -, rfl⟩ := List.mem_map.mp hcall
      exact ⟨_, rfl⟩

/-! ### Classes and modules -/

theorem filter_isDef_classHead (t : Tree) (baseClass : Text) (c : TestClass) :
    (classHead t baseClass c).filter Row.isDef = [] := by
  have hdecorators : (c.scopes.flatMap fun i => decoratorRows 0 (t.block i)).filter Row.isDef =
      [] := by
    rw [List.filter_flatMap, List.flatMap_eq_nil_iff]
    exact fun i _ => filter_isDef_decoratorRows 0 _
  have hscopes : (scopeRows t c.scopes).filter Row.isDef = [] := by
    rw [scopeRows, List.filter_flatMap, List.flatMap_eq_nil_iff]
    intro i _
    split
    · rfl
    · rw [List.filter_append, filter_isDef_codeRows]
      rfl
  rw [classHead, List.filter_append, List.filter_append, List.filter_append, hdecorators, hscopes]
  rfl

/-- A class opens its methods. -/
theorem opens_class (h : parse source seed = .ok t) (unit : TestUnit) (baseClass : Text) :
    Opens markers ((classPieces t baseClass (.ofUnit t unit)).flatMap (Piece.rows t))
      (defRows t (.ofUnit t unit)) := by
  obtain ⟨hsetUps, htearDowns, -, -, htests⟩ :=
    forall_mem_nameRows.mp (nameable_of_mem_nameRows h unit)
  have hhead : Opens markers (classHead t baseClass (.ofUnit t unit)) [] :=
    .of_none (filter_isDef_classHead t _ _)
  have hmethods (ms : List Method) :
      (ms.flatMap (methodPieces t)).flatMap (Piece.rows t) = ms.flatMap (methodRows t) := by
    rw [List.flatMap_assoc]
    exact List.flatMap_congr fun m _ => rows_methodPieces m
  have hcalled := (hhead.append (opens_methods h hsetUps)).append (opens_methods h htearDowns)
  have hclass := (hcalled.append (opens_dispatchers t (.ofUnit t unit))).append
    (opens_methods h htests)
  have hrows : (classPieces t baseClass (.ofUnit t unit)).flatMap (Piece.rows t) =
      classHead t baseClass (.ofUnit t unit) ++
        (TestClass.ofUnit t unit).setUps.flatMap (methodRows t) ++
        (TestClass.ofUnit t unit).tearDowns.flatMap (methodRows t) ++
        dispatchers t (.ofUnit t unit) ++
        (TestClass.ofUnit t unit).tests.flatMap (methodRows t) := by
    simp only [classPieces, List.flatMap_append, hmethods, rows_scopePieces]
    simp [Piece.rows, classHead]
  rw [hrows, defRows, List.append_assoc (_ ++ _) [_]]
  exact hclass

/-- A module opens the methods of its classes. -/
theorem opens_pieces (h : parse source seed = .ok t) (options : Options) :
    Opens markers ((pieces t options).flatMap (Piece.rows t))
      ((classes t).flatMap (defRows t)) := by
  have hclasses : Opens markers
      (((classes t).flatMap (classPieces t options.baseClass)).flatMap (Piece.rows t))
      ((classes t).flatMap (defRows t)) := by
    rw [List.flatMap_assoc]
    refine .flatMap fun c hc => ?_
    obtain ⟨unit, -, rfl⟩ := List.mem_map.mp hc
    exact opens_class h unit options.baseClass
  have hfront : Opens markers ([Piece.own (openingRows options), .code 0 0].flatMap
      (Piece.rows t)) [] := by
    refine .of_none ?_
    rw [List.flatMap_cons, List.flatMap_singleton, List.filter_append]
    exact List.append_eq_nil_iff.mpr ⟨filter_isDef_openingRows options, filter_isDef_codeRows 0 _⟩
  have hend : Opens markers ([Piece.own (epilogue ((classes t).map (·.name)))].flatMap
      (Piece.rows t)) [] := .of_none rfl
  have hmodule := (hfront.append hclasses).append hend
  rwa [← List.flatMap_append, ← List.flatMap_append, List.nil_append, List.append_nil] at hmodule

/-- Every method of a module has a body, and code that is copied starts at the indent of its
place. -/
structure HasBodies (t : Tree) (options : Options) (module : Text) : Prop where
  generated : generate t options = .ok module
  text : module = textOf options.lineMarkers ((pieces t options).flatMap (Piece.rows t))
  /-- The rows that open methods are those of the methods of the classes. -/
  defs : ((pieces t options).flatMap (Piece.rows t)).filter Row.isDef =
    (classes t).flatMap (defRows t)
  /-- Such a row is one line, and the line behind it is indented by eight spaces. -/
  bodies : ∀ before row after,
    (pieces t options).flatMap (Piece.rows t) = before ++ row :: after → row.isDef = true →
    '\n' ∉ row.render options.lineMarkers ∧ (textOf options.lineMarkers after).IndentedBy 8
  /-- Code of the file is at the margin, code of a scope is indented by four spaces. -/
  places : ∀ width i, Piece.code width i ∈ pieces t options → (width = 0 ∧ i = 0) ∨
    ∃ unit ∈ t.units, (width = 4 ∧ i ∈ t.scopeChain unit.scope) ∨
      (width = 8 ∧ (i ∈ t.setUps unit.scope ∨ i ∈ t.tearDowns unit.scope ∨ i ∈ unit.tests))
  /-- What is printed before code ends in a newline, and the code starts at its place. -/
  code : ∀ before width i after, pieces t options = before ++ .code width i :: after →
    (t.block i).body ≠ [] → ∃ front back, module = front ++ back ∧
      front = printed t options.lineMarkers before ∧ front.EndsLine ∧ back.IndentedBy width

end TestModule

open TestModule in
/-- Every method that is generated has a body, and every body starts where it should. -/
theorem methods_have_bodies {source : Text} {seed : Digest} {t : Tree}
    (h : parse source seed = .ok t) (options : Options) :
    ∃ module, HasBodies t options module := by
  have hopens : Opens options.lineMarkers _ _ := opens_pieces h options
  refine ⟨_, generate_eq t options, rfl, hopens.defs, hopens.bodies, fun width i hcode => ?_,
    fun before width i after hsplit hne => ?_⟩
  · rcases code_mem_pieces.mp hcode with hfile | ⟨unit, hu, hclass⟩
    · exact .inl hfile
    · exact .inr ⟨unit, hu, (code_mem_classPieces unit options.baseClass).mp hclass⟩
  · have hcode : (textOf options.lineMarkers (codeRows width (t.block i))).IndentedBy width :=
      indentedBy_codeRows hne (fun line hline => Parser.allBlank_of_mem_body h hline) width
    refine ⟨_, _, ?_, rfl, Text.endsLine_ofLines _, hcode.append
      (printed t options.lineMarkers after)⟩
    rw [hsplit, printed_append, printed_cons]
    rfl

/-- A spec with tests and a tear-down without code, and with code behind blanks of many kinds. -/
def idleSpec : Text :=
  ("\u00A0 import os\ndescribe \"A\":\n\t\u3000x = 1\n    let \"y\":   2\n" ++
    "    it \"a\" (fs):\n    it \"b\":    use(y)\n    after \"z\":\n").toList

open TestModule in
theorem methods_have_bodies_idle : ∃ t module,
    parse idleSpec (Vector.replicate 32 7) = .ok t ∧
    (List.range t.size).map (fun i => (t.block i).body.length) = [1, 1, 1, 0, 1, 0] ∧
    ((classes t).flatMap (defRows t)).map (Row.render false) =
      ["    def _set_up_y(self):".toList, "    def _tear_down_z_0_x1e1e1e(self):".toList,
        "    def setUp(self):".toList, "    def tearDown(self):".toList,
        "    def test_a(self, fs):".toList, "    def test_b(self):".toList] ∧
    HasBodies t {} module := by
  have hview : (parse idleSpec (Vector.replicate 32 7)).map (fun t =>
      ((List.range t.size).map (fun i => (t.block i).body.length),
        ((classes t).flatMap (defRows t)).map (Row.render false))) =
      .ok ([1, 1, 1, 0, 1, 0], ["    def _set_up_y(self):".toList,
        "    def _tear_down_z_0_x1e1e1e(self):".toList, "    def setUp(self):".toList,
        "    def tearDown(self):".toList, "    def test_a(self, fs):".toList,
        "    def test_b(self):".toList]) := by
    decide +kernel
  obtain ⟨t, h, hview⟩ := exists_of_map_eq_ok hview
  obtain ⟨hbodies, hdefs⟩ := Prod.mk.inj hview
  obtain ⟨module, hmodule⟩ := methods_have_bodies h {}
  exact ⟨t, module, h, hbodies, hdefs, hmodule⟩

end BlockSpec
