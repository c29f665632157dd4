import BlockSpec.TestModule.Render
import Mathlib.Data.List.Basic

/-! # A module in pieces

A test module is rows of the library's own with copies of code between them. `pieces` lists both in
order, and every copy names the block whose code it is and how far it is moved right.

    prologue │ code of the file │ class head │ code of its scopes │ methods … │ epilogue
                                               method: head │ code of its block │ tail

Set-up blocks are befores and bindings only, so the dispatcher can always be written: generating
never fails, and its text is the pieces printed one after the other (`generate_eq`). -/

namespace BlockSpec

namespace Tree

variable {t : Tree} {i j scope : Nat}

/-- Blocks of these kinds run before a test. -/
def IsSetUp (t : Tree) (i : Nat) : Prop := t.kind i = .before ∨ t.kind i = .binding

theorem isSetUp_of_mem_declare {earlier : List Nat} (h : ∀ k ∈ earlier, t.IsSetUp k)
    (hi : i ∈ t.declare earlier j) : t.IsSetUp i := by
  unfold declare at hi
  split at hi
  · rename_i hk
    rcases List.mem_append.mp hi with hi | hi
    · exact h i hi
    · rw [List.mem_singleton.mp hi]; exact Or.inl hk
  · rename_i hk
    rcases List.mem_append.mp hi with hi | hi
    · exact h i (List.mem_filter.mp hi).1
    · rw [List.mem_singleton.mp hi]; exact Or.inr hk
  · exact h i hi

/-- What runs before the tests of a scope are befores and bindings. -/
theorem isSetUp_of_mem_setUps (hi : i ∈ t.setUps scope) : t.IsSetUp i := by
  suffices hfold : ∀ (js earlier : List Nat), (∀ k ∈ earlier, t.IsSetUp k) →
      ∀ k ∈ js.foldl t.declare earlier, t.IsSetUp k by
    obtain ⟨s, -, hi⟩ := List.mem_flatMap.mp hi
    exact hfold _ [] (fun k hk => absurd hk List.not_mem_nil) i hi
  intro js
  induction js with
  | nil => intro earlier h; exact h
  | cons j js ih => intro earlier h; exact ih _ fun k hk => isSetUp_of_mem_declare h hk

end Tree

/-- A comment, or an import. -/
def Row.IsRemark (row : Row) : Prop :=
  ∃ rest, row = .plain ('#' :: rest) ∨ row = .plain ("import ".toList ++ rest)

namespace TestModule

/-- What stands before the code of the file opens nothing, assigns nothing and copies nothing. -/
theorem isRemark_of_mem_openingRows {options : Options} {row : Row}
    (hrow : row ∈ openingRows options) : row.IsRemark := by
  rcases List.mem_append.mp hrow with hrow | hrow
  · rcases List.mem_append.mp hrow with hrow | hrow
    · cases hstamp : options.stamp with
      | none => rw [hstamp] at hrow; cases hrow
      | some stamp =>
        rw [hstamp] at hrow
        rcases List.mem_append.mp hrow with hdigest | hnote
        · obtain ⟨hex, -, rfl⟩ := by simpa using hdigest
          exact ⟨_, .inl rfl⟩
        · simp only [List.mem_cons, List.not_mem_nil, or_false] at hnote
          rcases hnote with rfl | rfl | rfl | rfl <;> exact ⟨_, .inl rfl⟩
    · exact ⟨_, .inr (List.mem_singleton.mp hrow)⟩
  · unfold baseImport at hrow
    split at hrow
    · split at hrow
      · cases hrow
      · exact ⟨_, .inr (List.mem_singleton.mp hrow)⟩
    · cases hrow

/-- A part of a module. -/
inductive Piece where
  /-- Rows that are no block's code. -/
  | own (rows : List Row)
  /-- The code of the block at a position, moved to the right. -/
  | code (width owner : Nat)

/-- The rows of a piece. -/
def Piece.rows (t : Tree) : Piece → List Row
  | own rows => rows
  | code width owner => codeRows width (t.block owner)

/-- The parts of a method: everything up to its code, the code, and the rest. -/
def methodPieces (t : Tree) (m : Method) : List Piece :=
  let b := t.block m.owner
  [.own (decoratorRows classWidth b ++ [defRow t m] ++ if b.body.isEmpty then [passRow] else []),
    .code methodWidth m.owner, .own [.blank]]

/-- The code of a scope and the empty row behind it. -/
def scopePieces (t : Tree) (i : Nat) : List Piece :=
  [.code classWidth i, .own (if (t.block i).body.isEmpty then [] else [.blank])]

/-- The statement that runs a set-up method. -/
def setUpText (t : Tree) (m : Method) : Text :=
  (if t.kind m.owner = .binding then "self.".toList ++ t.nameOf m.owner ++ " = ".toList else []) ++
    "self.".toList ++ m.name ++ "()".toList

/-- The dispatchers of a class. -/
def dispatchers (t : Tree) (c : TestClass) : List Row :=
  dispatcherRows "setUp" (c.setUps.map (setUpText t)) ++
    if c.tearDowns.isEmpty then [] else dispatcherRows "tearDown" (c.tearDowns.map tearDownCall)

/-- The parts of a class. -/
def classPieces (t : Tree) (baseClass : Text) (c : TestClass) : List Piece :=
  [.own ([.blank, .blank] ++ c.scopes.flatMap (fun i => decoratorRows 0 (t.block i)) ++
      [classRow baseClass c])] ++ c.scopes.flatMap (scopePieces t) ++
    c.setUps.flatMap (methodPieces t) ++ c.tearDowns.flatMap (methodPieces t) ++
    [.own (dispatchers t c)] ++ c.tests.flatMap (methodPieces t)

/-- The parts of a module. -/
def pieces (t : Tree) (options : Options) : List Piece :=
  [.own (openingRows options), .code 0 0] ++
    (classes t).flatMap (classPieces t options.baseClass) ++
    [.own (epilogue ((classes t).map (·.name)))]

/-! ### The methods of a class have their owners -/

theorem length_setUps : ∀ (bs : List Block) (taken : List Text) (index : Nat),
    (MethodName.setUps taken index bs).length = bs.length
  | [], _, _ => rfl
  | _ :: bs, _, _ => congrArg (· + 1) (length_setUps bs _ _)

theorem length_tearDowns : ∀ (bs : List Block) (index : Nat),
    (MethodName.tearDowns index bs).length = bs.length
  | [], _ => rfl
  | _ :: bs, _ => congrArg (· + 1) (length_tearDowns bs _)

theorem length_tests : ∀ (bs : List Block) (taken : List Text),
    (MethodName.tests taken bs).length = bs.length
  | [], _ => rfl
  | _ :: bs, _ => congrArg (· + 1) (length_tests bs _)

/-- As many names as owners make a method for every owner. -/
theorem map_owner_zipWith : ∀ {names : List Text} {owners : List Nat},
    names.length = owners.length → (List.zipWith Method.mk names owners).map (·.owner) = owners
  | [], [], _ => rfl
  | _ :: names, o :: owners, h => by
    have hlen : names.length = owners.length := Nat.succ.inj h
    exact congrArg (o :: ·) (map_owner_zipWith hlen)
  | [], _ :: _, h => by simp at h
  | _ :: _, [], h => by simp at h

theorem owners_ofUnit (t : Tree) (unit : TestUnit) :
    (TestClass.ofUnit t unit).setUps.map (·.owner) = t.setUps unit.scope ∧
    (TestClass.ofUnit t unit).tearDowns.map (·.owner) = t.tearDowns unit.scope ∧
    (TestClass.ofUnit t unit).tests.map (·.owner) = unit.tests := by
  refine ⟨map_owner_zipWith ?_, map_owner_zipWith ?_, map_owner_zipWith ?_⟩
  · rw [length_setUps, List.length_map]
  · rw [length_tearDowns, List.length_map]
  · rw [length_tests, List.length_map]

/-! ### The pieces are the rows -/

variable {t : Tree} {options : Options}

theorem mapM_eq_ok {ε α β : Type} {f : α → Except ε β} {g : α → β} : ∀ {l : List α},
    (∀ a ∈ l, f a = .ok (g a)) → l.mapM f = .ok (l.map g)
  | [], _ => rfl
  | a :: l, h => by
    rw [List.mapM_cons, h a List.mem_cons_self,
      mapM_eq_ok fun b hb => h b (List.mem_cons_of_mem _ hb)]
    rfl

theorem rows_methodPieces (m : Method) :
    (methodPieces t m).flatMap (Piece.rows t) = methodRows t m := by
  have hempty : (t.block m.owner).body = [] → codeRows methodWidth (t.block m.owner) = [] := by
    intro h; rw [codeRows, h]; rfl
  cases hb : (t.block m.owner).body with
  | nil => simp [methodPieces, methodRows, Piece.rows, hb, hempty hb]
  | cons row rows => simp [methodPieces, methodRows, Piece.rows, hb]

theorem rows_scopePieces (scopes : List Nat) :
    (scopes.flatMap (scopePieces t)).flatMap (Piece.rows t) = scopeRows t scopes := by
  rw [List.flatMap_assoc, scopeRows]
  refine List.flatMap_congr fun i _ => ?_
  cases hb : (t.block i).body with
  | nil => simp [scopePieces, Piece.rows, codeRows, hb]
  | cons row rows => simp [scopePieces, Piece.rows, hb]

/-- A set-up method can be called. -/
theorem setUpCall_eq_ok {m : Method} (h : t.IsSetUp m.owner) :
    setUpCall t m = .ok (setUpText t m) := by
  rcases h with h | h <;> simp [setUpCall, setUpText, h]

/-- All statements of the set-up dispatcher of a class can be written. -/
theorem mapM_setUpCall {c : TestClass} (hc : c ∈ classes t) :
    c.setUps.mapM (setUpCall t) = .ok (c.setUps.map (setUpText t)) := by
  refine mapM_eq_ok fun m hm => setUpCall_eq_ok ?_
  obtain ⟨unit, -, rfl⟩ := List.mem_map.mp hc
  have howner := List.mem_map_of_mem (f := Method.owner) hm
  rw [(owners_ofUnit t unit).1] at howner
  exact Tree.isSetUp_of_mem_setUps howner

theorem classRows_eq {c : TestClass} (hc : c ∈ classes t) (baseClass : Text) :
    classRows t baseClass c = .ok ((classPieces t baseClass c).flatMap (Piece.rows t)) := by
  have hmethods (ms : List Method) :
      (ms.flatMap (methodPieces t)).flatMap (Piece.rows t) = ms.flatMap (methodRows t) := by
    rw [List.flatMap_assoc]
    exact List.flatMap_congr fun m _ => rows_methodPieces m
  rw [classRows, mapM_setUpCall hc]
  simp only [classPieces, List.flatMap_append, hmethods, rows_scopePieces]
  simp [Piece.rows, dispatchers, bind, Except.bind, pure, Except.pure]

theorem rows_eq (t : Tree) (options : Options) :
    rows t options = .ok ((pieces t options).flatMap (Piece.rows t)) := by
  have hclasses : ((classes t).flatMap (classPieces t options.baseClass)).flatMap (Piece.rows t) =
      ((classes t).map fun c =>
        (classPieces t options.baseClass c).flatMap (Piece.rows t)).flatten := by
    rw [List.flatMap_assoc, List.flatMap_def]
  rw [rows, mapM_eq_ok fun c hc => classRows_eq hc options.baseClass]
  simp only [pieces, List.flatMap_append, hclasses]
  simp [prologue, Piece.rows, bind, Except.bind, pure, Except.pure]

/-- Pieces as text. -/
def printed (t : Tree) (markers : Bool) (ps : List Piece) : Text :=
  Text.ofLines ((ps.flatMap (Piece.rows t)).map (Row.render markers))

@[simp] theorem printed_append (markers : Bool) (ps qs : List Piece) :
    printed t markers (ps ++ qs) = printed t markers ps ++ printed t markers qs := by
  simp [printed, Text.ofLines]

theorem printed_cons (markers : Bool) (p : Piece) (ps : List Piece) :
    printed t markers (p :: ps) =
      Text.ofLines ((p.rows t).map (Row.render markers)) ++ printed t markers ps := by
  simp [printed, Text.ofLines]

/-- Generating never fails: it prints the pieces. -/
theorem generate_eq (t : Tree) (options : Options) :
    generate t options = .ok (printed t options.lineMarkers (pieces t options)) := by
  rw [generate, rows_eq]; rfl

/-! ### The blocks that are copied -/

/-- The blocks whose code stands in the module: the file, and for every unit its scopes, what runs
before and after its tests, and the tests. -/
def Rendered (t : Tree) (i : Nat) : Prop :=
  i = 0 ∨ ∃ unit ∈ t.units, i ∈ t.scopeChain unit.scope ∨ i ∈ t.setUps unit.scope ∨
    i ∈ t.tearDowns unit.scope ∨ i ∈ unit.tests

variable {w i : Nat}

theorem code_mem_methodPieces (ms : List Method) :
    Piece.code w i ∈ ms.flatMap (methodPieces t) ↔ w = methodWidth ∧ i ∈ ms.map (·.owner) := by
  simp only [List.mem_flatMap, methodPieces, List.mem_cons, Piece.code.injEq, reduceCtorEq,
    List.not_mem_nil, or_false, false_or, List.mem_map]
  exact ⟨fun ⟨m, hm, hw, hi⟩ => ⟨hw, m, hm, hi.symm⟩, fun ⟨hw, m, hm, hi⟩ => ⟨m, hm, hw, hi.symm⟩⟩

theorem code_mem_scopePieces (scopes : List Nat) :
    Piece.code w i ∈ scopes.flatMap (scopePieces t) ↔ w = classWidth ∧ i ∈ scopes := by
  simp only [List.mem_flatMap, scopePieces, List.mem_cons, Piece.code.injEq, reduceCtorEq,
    List.not_mem_nil, or_false]
  exact ⟨fun ⟨j, hj, hw, hi⟩ => ⟨hw, hi ▸ hj⟩, fun ⟨hw, hi⟩ => ⟨i, hi, hw, rfl⟩⟩

theorem code_mem_classPieces (unit : TestUnit) (baseClass : Text) :
    Piece.code w i ∈ classPieces t baseClass (TestClass.ofUnit t unit) ↔
      (w = classWidth ∧ i ∈ t.scopeChain unit.scope) ∨
      (w = methodWidth ∧
        (i ∈ t.setUps unit.scope ∨ i ∈ t.tearDowns unit.scope ∨ i ∈ unit.tests)) := by
  obtain ⟨hsetUps, htearDowns, htests⟩ := owners_ofUnit t unit
  simp only [classPieces, List.mem_append, code_mem_methodPieces, code_mem_scopePieces, hsetUps,
    htearDowns, htests, List.mem_singleton, reduceCtorEq, or_false, false_or]
  simp only [TestClass.ofUnit]
  tauto

/-- The code of the file stands at the margin, all other code in a class. -/
theorem code_mem_pieces : Piece.code w i ∈ pieces t options ↔ (w = 0 ∧ i = 0) ∨
    ∃ unit ∈ t.units, Piece.code w i ∈
      classPieces t options.baseClass (TestClass.ofUnit t unit) := by
  simp [pieces, classes]

/-- The module holds copies of the code of exactly those blocks. -/
theorem exists_code_mem_pieces :
    (∃ w, Piece.code w i ∈ pieces t options) ↔ Rendered t i := by
  simp only [code_mem_pieces, code_mem_classPieces, Rendered]
  constructor
  · rintro ⟨w, ⟨-, rfl⟩ | ⟨unit, hu, ⟨-, h⟩ | ⟨-, h⟩⟩⟩
    · exact Or.inl rfl
    · exact Or.inr ⟨unit, hu, Or.inl h⟩
    · exact Or.inr ⟨unit, hu, Or.inr h⟩
  · rintro (rfl | ⟨unit, hu, h | h⟩)
    · exact ⟨0, Or.inl ⟨rfl, rfl⟩⟩
    · exact ⟨classWidth, Or.inr ⟨unit, hu, Or.inl ⟨rfl, h⟩⟩⟩
    · exact ⟨methodWidth, Or.inr ⟨unit, hu, Or.inr ⟨rfl, h⟩⟩⟩

end TestModule

end BlockSpec
