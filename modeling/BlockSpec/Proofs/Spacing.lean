import BlockSpec.Proofs.Lines
import BlockSpec.Proofs.Pieces
import BlockSpec.Proofs.Suffixes
import Mathlib.Data.Set.Function
import Mathlib.Logic.Relation
import Mathlib.Order.Monotone.Defs

/-! # Blank lines and line endings

Two specs whose lines agree once the blank ones are left out are read alike. Their lines match up in
order, and the one tree is the other with every line number replaced by the number of its match:

    1  describe "A":          1  describe "A":
    2      it "x": a          2
                              3      it "x": a      1 ↦ 1, 2 ↦ 3

A module shows line numbers in its markers only, so without markers both specs have one module. -/

namespace BlockSpec

/-! ### Trees under other line numbers -/

namespace Tree

/-- The tree with its lines under other numbers. -/
def renumber (f : Nat → Nat) (t : Tree) : Tree := ⟨t.blocks.map (Block.renumber f)⟩

@[simp] theorem size_renumber (f : Nat → Nat) (t : Tree) : (t.renumber f).size = t.size := by
  simp [renumber, size]

section Structure

variable {f : Nat → Nat} (hf : f 0 = 0) (t : Tree)
include hf

theorem block_renumber (i : Nat) : (t.renumber f).block i = (t.block i).renumber f := by
  simp only [renumber, block, Array.getElem?_map]
  cases t.blocks[i]? with
  | none => simp [Block.renumber, Block.root, hf]
  | some b => rfl

theorem alike_renumber : t.Alike f (t.renumber f) :=
  ⟨size_renumber f t, fun i => by rw [block_renumber hf]⟩

theorem kind_renumber (i : Nat) : (t.renumber f).kind i = t.kind i := by
  rw [kind, block_renumber hf]; rfl

theorem nameOf_renumber (i : Nat) : (t.renumber f).nameOf i = t.nameOf i := by
  rw [nameOf, block_renumber hf]; rfl

theorem children_renumber (i : Nat) : (t.renumber f).children i = t.children i := by
  rw [children, block_renumber hf]; rfl

theorem tests_renumber (i : Nat) : (t.renumber f).tests i = t.tests i := by
  simp only [tests, children_renumber hf, kind_renumber hf]

theorem units_renumber : (t.renumber f).units = t.units := by
  have hwithin : ∀ n i, (t.renumber f).unitsWithin n i = t.unitsWithin n i := by
    intro n
    induction n with
    | zero => intro i; rfl
    | succ n ih =>
      intro i
      simp only [unitsWithin, children_renumber hf, kind_renumber hf, tests_renumber hf, ih]
  rw [units, size_renumber, hwithin, units]

theorem scopeChain_renumber (i : Nat) : (t.renumber f).scopeChain i = t.scopeChain i := by
  rw [scopeChain, (alike_renumber hf t).lineage, scopeChain]

theorem setUps_renumber (i : Nat) : (t.renumber f).setUps i = t.setUps i := by
  have hdeclare : (t.renumber f).declare = t.declare := by
    funext earlier j
    simp only [declare, kind_renumber hf, nameOf_renumber hf]
  have hlocal i : (t.renumber f).localSetUps i = t.localSetUps i := by
    rw [localSetUps, children_renumber hf, hdeclare, localSetUps]
  rw [setUps, scopeChain_renumber hf, setUps]
  exact List.flatMap_congr fun i _ => hlocal i

theorem tearDowns_renumber (i : Nat) : (t.renumber f).tearDowns i = t.tearDowns i := by
  simp only [tearDowns, scopeChain_renumber hf, children_renumber hf, kind_renumber hf]

theorem className_renumber (i : Nat) : (t.renumber f).className i = t.className i := by
  simp only [className, scopeChain_renumber hf, block_renumber hf, Block.renumber]

end Structure

end Tree

/-! ### Names do not look at line numbers -/

namespace MethodName

variable (f : Nat → Nat)

theorem setUps_map_renumber (bs : List Block) (taken : List Text) (index : Nat) :
    setUps taken index (bs.map (Block.renumber f)) = setUps taken index bs := by
  induction bs generalizing taken index with
  | nil => rfl
  | cons b bs ih => exact congrArg (List.cons _) (ih _ _)

theorem tearDowns_map_renumber (bs : List Block) (index : Nat) :
    tearDowns index (bs.map (Block.renumber f)) = tearDowns index bs := by
  induction bs generalizing index with
  | nil => rfl
  | cons b bs ih => exact congrArg (List.cons _) (ih _)

theorem tests_map_renumber (bs : List Block) (taken : List Text) :
    tests taken (bs.map (Block.renumber f)) = tests taken bs := by
  induction bs generalizing taken with
  | nil => rfl
  | cons b bs ih => exact congrArg (List.cons _) (ih _)

end MethodName

/-! ### Modules without markers -/

/-- The row as a copy of a line of another number. -/
def Row.renumber (f : Nat → Nat) : Row → Row
  | .plain text => .plain text
  | .copied width text line => .copied width text (f line)

@[simp] theorem Row.renumber_plain (f : Nat → Nat) (text : Text) :
    (Row.plain text).renumber f = .plain text := rfl

@[simp] theorem Row.renumber_padded (f : Nat → Nat) (width : Nat) (text : Text) :
    (Row.padded width text).renumber f = .padded width text := rfl

@[simp] theorem Row.renumber_blank (f : Nat → Nat) : Row.blank.renumber f = .blank := rfl

theorem Row.IsRemark.renumber {row : Row} (h : row.IsRemark) (f : Nat → Nat) :
    row.renumber f = row := by
  obtain ⟨rest, rfl | rfl⟩ := h <;> rfl

/-- Without markers a row does not show where it comes from. -/
theorem Row.render_renumber (f : Nat → Nat) (row : Row) :
    (row.renumber f).render false = row.render false := by
  cases row <;> rfl

namespace TestModule

theorem codeRows_renumber (f : Nat → Nat) (width : Nat) (b : Block) :
    codeRows width (b.renumber f) = (codeRows width b).map (Row.renumber f) := by
  have htexts : (b.body.map (CodeLine.renumber f)).map (·.text) = b.body.map (·.text) := by
    rw [List.map_map]; rfl
  simp only [codeRows, Block.renumber, htexts, List.zipWith_map_left, List.map_zipWith]
  congr 1
  funext row text
  split <;> rfl

theorem decoratorRows_renumber (f : Nat → Nat) (width : Nat) (b : Block) :
    decoratorRows width (b.renumber f) = (decoratorRows width b).map (Row.renumber f) := by
  simp only [decoratorRows, Block.renumber, List.map_map]
  rfl

/-- The piece as a copy of lines of other numbers. -/
def Piece.renumber (f : Nat → Nat) : Piece → Piece
  | own rows => own (rows.map (Row.renumber f))
  | code width owner => code width owner

section Pieces

variable {f : Nat → Nat} (hf : f 0 = 0) (t : Tree)
include hf

theorem classes_renumber : classes (t.renumber f) = classes t := by
  have hblocks (is : List Nat) :
      is.map (t.renumber f).block = (is.map t.block).map (Block.renumber f) := by
    rw [List.map_map]
    exact List.map_congr_left fun i _ => Tree.block_renumber hf t i
  rw [classes, Tree.units_renumber hf, classes]
  refine List.map_congr_left fun unit _ => ?_
  simp only [TestClass.ofUnit, Tree.setUps_renumber hf, Tree.tearDowns_renumber hf, hblocks,
    MethodName.setUps_map_renumber, MethodName.tearDowns_map_renumber,
    MethodName.tests_map_renumber, Tree.className_renumber hf, Tree.scopeChain_renumber hf]

theorem methodPieces_renumber (m : Method) :
    methodPieces (t.renumber f) m = (methodPieces t m).map (Piece.renumber f) := by
  simp only [methodPieces, defRow, Tree.block_renumber hf, decoratorRows_renumber]
  cases h : (t.block m.owner).body <;> simp [Block.renumber, Piece.renumber, passRow, h]

theorem scopePieces_renumber (i : Nat) :
    scopePieces (t.renumber f) i = (scopePieces t i).map (Piece.renumber f) := by
  simp only [scopePieces, Tree.block_renumber hf]
  cases h : (t.block i).body <;> simp [Block.renumber, Piece.renumber, h]

theorem dispatchers_renumber (c : TestClass) :
    dispatchers (t.renumber f) c = (dispatchers t c).map (Row.renumber f) := by
  have htext (m : Method) : setUpText (t.renumber f) m = setUpText t m := by
    simp only [setUpText, Tree.kind_renumber hf, Tree.nameOf_renumber hf]
  have hrows (name : String) (calls : List Text) :
      (dispatcherRows name calls).map (Row.renumber f) = dispatcherRows name calls := by
    cases calls <;> simp [dispatcherRows, passRow]
  simp only [dispatchers, List.map_append, hrows, funext htext]
  split <;> simp [hrows]

theorem classPieces_renumber (baseClass : Text) (c : TestClass) :
    classPieces (t.renumber f) baseClass c =
      (classPieces t baseClass c).map (Piece.renumber f) := by
  simp only [classPieces, List.map_append, List.map_flatMap, funext (methodPieces_renumber hf t),
    funext (scopePieces_renumber hf t), dispatchers_renumber hf, Tree.block_renumber hf,
    decoratorRows_renumber]
  simp [Piece.renumber, classRow, List.map_flatMap]

theorem pieces_renumber (options : Options) :
    pieces (t.renumber f) options = (pieces t options).map (Piece.renumber f) := by
  have hopening : (openingRows options).map (Row.renumber f) = openingRows options := by
    conv_rhs => rw [← List.map_id (openingRows options)]
    exact List.map_congr_left fun _ hrow => (isRemark_of_mem_openingRows hrow).renumber f
  simp only [pieces, classes_renumber hf, List.map_append, List.map_flatMap,
    funext (classPieces_renumber hf t options.baseClass)]
  simp [Piece.renumber, hopening, epilogue]

/-- Line numbers show in the markers only. -/
theorem generate_renumber {options : Options} (h : options.lineMarkers = false) :
    generate (t.renumber f) options = generate t options := by
  have hrows (p : Piece) : ((p.renumber f).rows (t.renumber f)).map (Row.render false) =
      (p.rows t).map (Row.render false) := by
    cases p with
    | own rows => simp [Piece.renumber, Piece.rows, Row.render_renumber]
    | code width owner =>
      simp [Piece.renumber, Piece.rows, Tree.block_renumber hf, codeRows_renumber,
        Row.render_renumber]
  simp only [generate_eq, pieces_renumber hf, printed, h, List.flatMap_map, List.map_flatMap, hrows]

end Pieces

end TestModule

/-! ### Lines that are not blank -/

namespace Parser

/-- The numbers of the lines that are not blank. -/
def solidLines (source : Text) : Set Nat :=
  {n | ∃ row ∈ numbered source, isSolid row ∧ row.line = n}

/-- Rows of the same texts are one row under two numberings. -/
theorem exists_renumbering : ∀ {rows rows' : List CodeLine},
    (rows.Pairwise fun r r' => r.line < r'.line) → (∀ r ∈ rows, 0 < r.line) →
      rows'.map (·.text) = rows.map (·.text) →
        ∃ f : Nat → Nat, f 0 = 0 ∧ rows' = rows.map (CodeLine.renumber f)
  | [], rows', _, _, htexts => ⟨id, rfl, by simpa using htexts⟩
  | row :: rows, [], _, _, htexts => by simp at htexts
  | row :: rows, row' :: rows', hsorted, hpos, htexts => by
    obtain ⟨hlt, hsorted⟩ := List.pairwise_cons.mp hsorted
    obtain ⟨hrow, hpos⟩ := List.forall_mem_cons.mp hpos
    obtain ⟨htext, htexts⟩ := List.cons.inj htexts
    obtain ⟨f, hf, rfl⟩ := exists_renumbering hsorted hpos htexts
    -- the number of the first row is that of no other row
    refine ⟨Function.update f row.line row'.line, ?_, ?_⟩
    · rw [Function.update_of_ne (Nat.ne_of_lt hrow), hf]
    · have hrest : ∀ r ∈ rows,
          r.renumber (Function.update f row.line row'.line) = r.renumber f := by
        intro r hr
        rw [CodeLine.renumber, Function.update_of_ne (Nat.ne_of_gt (hlt r hr))]
        rfl
      have hfirst : row.renumber (Function.update f row.line row'.line) = row' := by
        rw [CodeLine.renumber, Function.update_self]
        exact congrArg (CodeLine.mk row'.line) htext.symm
      rw [List.map_cons, List.map_congr_left hrest, hfirst]

/-- Two specs with the same lines, blank ones left out, match up in order. -/
theorem exists_matching {source source' : Text} (h : solidTexts source' = solidTexts source) :
    ∃ f : Nat → Nat, f 0 = 0 ∧ (numbered source').filter isSolid =
        ((numbered source).filter isSolid).map (CodeLine.renumber f) ∧
      StrictMonoOn f (solidLines source) ∧
      Set.BijOn f (solidLines source) (solidLines source') := by
  have hsorted := (numbered_sorted source).filter isSolid
  have htexts : ((numbered source').filter isSolid).map (·.text) =
      ((numbered source).filter isSolid).map (·.text) := by
    rw [map_text_filter_isSolid, map_text_filter_isSolid, h]
  obtain ⟨f, hf, hrows⟩ := exists_renumbering hsorted
    (fun r hr => line_pos_of_mem_numbered (List.mem_filter.mp hr).1) htexts
  have hmem : ∀ {source : Text} {n : Nat}, n ∈ solidLines source ↔
      ∃ r ∈ (numbered source).filter isSolid, r.line = n := by
    intro source n
    simp [solidLines, List.mem_filter, and_assoc]
  have hmono : StrictMonoOn f (solidLines source) := by
    have hsorted' := (numbered_sorted source').filter isSolid
    rw [hrows, List.pairwise_map] at hsorted'
    intro n hn m hm hnm
    obtain ⟨r, hr, rfl⟩ := hmem.mp hn
    obtain ⟨r', hr', rfl⟩ := hmem.mp hm
    obtain ⟨i, hi, rfl⟩ := List.getElem_of_mem hr
    obtain ⟨j, hj, rfl⟩ := List.getElem_of_mem hr'
    have hij : i < j := by
      rcases Nat.lt_trichotomy i j with hlt | rfl | hgt
      · exact hlt
      · exact absurd hnm (lt_irrefl _)
      · exact absurd (List.pairwise_iff_getElem.mp hsorted j i hj hi hgt) hnm.not_gt
    exact List.pairwise_iff_getElem.mp hsorted' i j hi hj hij
  refine ⟨f, hf, hrows, hmono, fun n hn => ?_, hmono.injOn, fun m hm => ?_⟩
  · obtain ⟨r, hr, rfl⟩ := hmem.mp hn
    exact hmem.mpr ⟨_, hrows ▸ List.mem_map_of_mem hr, rfl⟩
  · obtain ⟨r', hr', rfl⟩ := hmem.mp hm
    rw [hrows] at hr'
    obtain ⟨r, hr, rfl⟩ := List.mem_map.mp hr'
    exact ⟨r.line, hmem.mpr ⟨r, hr, rfl⟩, rfl⟩

variable {source source' : Text} {seed : Digest} {t t' : Tree} {f : Nat → Nat}

/-- Trees that were read from one seed have the same suffixes if they are alike. -/
theorem eq_renumber_of_alike (hf : f 0 = 0) (h : parse source seed = .ok t)
    (h' : parse source' seed = .ok t') (halike : t.Alike f t') : t' = t.renumber f := by
  have hmarked : t'.marked = t.marked := Tree.marked_congr halike.size halike.kind
  refine Tree.ext_block (by simpa using halike.size) fun i => ?_
  have hsuffix : (t'.block i).suffix = (t.block i).suffix := by
    by_cases hi : i ∈ t.marked
    · obtain ⟨k, hk⟩ := List.getElem?_of_mem hi
      rw [suffix_of_marked h hk, suffix_of_marked h' (hmarked ▸ hk)]
    · rw [(draws_of_parse h).2 i hi, (draws_of_parse h').2 i (hmarked ▸ hi)]
  rw [Tree.block_renumber hf]
  calc t'.block i = { (t'.block i).unmarked with suffix := (t'.block i).suffix } := rfl
    _ = { ((t.block i).renumber f).unmarked with suffix := (t.block i).suffix } := by
      rw [halike.block, hsuffix]
    _ = (t.block i).renumber f := rfl

end Parser

/-! ### Spacing -/

/-- One change of spacing: blank text put where a line starts, filling whole lines unless it stands
at the end; one line ending written the other way; or the last line ended. -/
inductive Respaced : Text → Text → Prop
  | blank {a w b : Text} : a.EndsLine → w.allBlank → (w.EndsLine ∨ b = []) →
      Respaced (a ++ b) (a ++ w ++ b)
  | ending {a b : Text} : a.getLast? ≠ some '\r' →
      Respaced (a ++ '\n' :: b) (a ++ '\r' :: '\n' :: b)
  | ended {a : Text} {c : Char} : a.getLast? = some c → c ≠ '\n' → c ≠ '\r' →
      Respaced a (a ++ ['\n'])

namespace Parser

theorem solidTexts_append {a : Text} (ha : a.EndsLine) (b : Text) :
    solidTexts (a ++ b) = solidTexts a ++ solidTexts b := by
  rw [solidTexts, Text.lines_append ha, List.filter_append, solidTexts, solidTexts]

theorem solidTexts_of_allBlank {w : Text} (hw : w.allBlank = true) : solidTexts w = [] := by
  refine List.filter_eq_nil_iff.mpr fun l hl => ?_
  simp [Text.allBlank_of_mem_lines hw hl]

theorem solidTexts_of_respaced {source source' : Text} (h : Respaced source source') :
    solidTexts source' = solidTexts source := by
  cases h with
  | @blank a w b ha hw hend =>
    rw [List.append_assoc, solidTexts_append ha, solidTexts_append ha]
    rcases hend with hend | rfl
    · rw [solidTexts_append hend, solidTexts_of_allBlank hw, List.nil_append]
    · rw [List.append_nil, solidTexts_of_allBlank hw]; rfl
  | ending ha => rw [solidTexts, Text.lines_append_return ha, solidTexts]
  | ended ha hn hr => rw [solidTexts, Text.lines_append_newline_end ha hn hr, solidTexts]

end Parser

/-- Spacing decides nothing but line numbers: specs with the same lines, blank ones left out, are
refused with the same fault or read into the same tree, up to the one numbering of these lines that
keeps their order, and without markers they have the same module. Blank lines and line endings can
be changed at will. -/
theorem spacing_decides_line_numbers {source source' : Text}
    (h : Parser.solidTexts source' = Parser.solidTexts source ∨
      Relation.EqvGen Respaced source source') :
    ∃ f : Nat → Nat, StrictMonoOn f (Parser.solidLines source) ∧
      Set.BijOn f (Parser.solidLines source) (Parser.solidLines source') ∧
      ∀ seed, Parser.Agree f (fun t t' => t' = t.renumber f ∧
          ∀ options, options.lineMarkers = false → generate t' options = generate t options)
        (parse source seed) (parse source' seed) := by
  have htexts : Parser.solidTexts source' = Parser.solidTexts source := by
    rcases h with h | h
    · exact h
    · induction h with
      | rel _ _ hstep => exact Parser.solidTexts_of_respaced hstep
      | refl _ => rfl
      | symm _ _ _ ih => exact ih.symm
      | trans _ _ _ _ _ ih ih' => exact ih'.trans ih
  obtain ⟨f, hf, hrows, hmono, hbij⟩ := Parser.exists_matching htexts
  refine ⟨f, hmono, hbij, fun seed => ?_⟩
  refine (Parser.parse_alike hf hrows seed seed).imp_of_eq fun t t' ht ht' halike => ?_
  obtain rfl := Parser.eq_renumber_of_alike hf ht ht' halike
  exact ⟨rfl, fun options => TestModule.generate_renumber hf t⟩

/-- A decorated test, with what ends the first line and what stands between decorator and header. -/
def spacedSpec (ending gap : String) : Text :=
  "describe \"A\":".toList ++ ending.toList ++ "    @skip\n".toList ++ gap.toList ++
    "    it \"x\": f()".toList

theorem spacing_decides_line_numbers_decorated : ∃ f t t',
    parse (spacedSpec "\n" "") (Vector.replicate 32 7) = .ok t ∧
    parse (spacedSpec "\r\n" " \t\n") (Vector.replicate 32 7) = .ok t' ∧
    (t.block 2).line = 3 ∧ (t'.block 2).line = 4 ∧ t' = t.renumber f ∧
    generate t' {} = generate t {} := by
  have hspaced : Relation.EqvGen Respaced (spacedSpec "\n" "") (spacedSpec "\r\n" " \t\n") :=
    .trans _ (spacedSpec "\n" " \t\n") _
      (.rel _ _ (.blank (a := "describe \"A\":\n    @skip\n".toList) (w := " \t\n".toList)
        (.inr (by decide)) (by decide) (.inl (.inr (by decide)))))
      (.rel _ _ (.ending (a := "describe \"A\":".toList) (by decide)))
  have hview : (parse (spacedSpec "\n" "") (Vector.replicate 32 7)).map
      (fun t => (t.block 2).line) = .ok 3 := by decide +kernel
  have hview' : (parse (spacedSpec "\r\n" " \t\n") (Vector.replicate 32 7)).map
      (fun t => (t.block 2).line) = .ok 4 := by decide +kernel
  obtain ⟨t, ht, hline⟩ := exists_of_map_eq_ok hview
  obtain ⟨t', ht', hline'⟩ := exists_of_map_eq_ok hview'
  obtain ⟨f, -, -, hagree⟩ := spacing_decides_line_numbers (.inr hspaced)
  have hread := hagree (Vector.replicate 32 7)
  rw [ht, ht'] at hread
  obtain ⟨htree, hmodule⟩ := hread.of_ok
  exact ⟨f, t, t', ht, ht', hline, hline', htree, hmodule {} rfl⟩

end BlockSpec
