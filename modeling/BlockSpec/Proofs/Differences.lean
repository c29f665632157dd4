import BlockSpec.CommandLine.Report
import BlockSpec.Proofs.Lines
import Mathlib.Data.List.Induction

/-! # What a difference shows

Two texts are told apart by the lines that the walk through the table finds in both. Whatever way the
walk takes, what it finds is a common subsequence; so the runs of a difference, those that stay and
those that go, are the one text, and those that stay and those that come, the other.

    existing    a │ b     │ c │   │         same a, removed b, same c, added (empty)
    expected    a │       │ c │ (empty)

Every run of changed lines is shown line by line behind marks, with one exception: a run that is a
single empty line passes through an empty text, which has no lines. So texts that differ show a
marked line unless each of their changed runs is a single empty line. -/

namespace BlockSpec

namespace Diff

/-! ### The common lines -/

theorem reverse_take_succ {rows : Array Text} {i : Nat} (hi : i < rows.size) :
    (rows.toList.take (i + 1)).reverse = rows.getD i [] :: (rows.toList.take i).reverse := by
  have hget : rows.toList[i]? = some (rows.getD i []) := by
    simp [Array.getD, hi]
  rw [List.take_add_one, hget, List.reverse_append]
  rfl

/-- The walk collects lines that both texts have, in the order of both, the last ones first. -/
theorem walk_sublist (as bs : Array Text) (cell : Nat → Nat → Nat) {i j : Nat}
    (hi : i ≤ as.size) (hj : j ≤ bs.size) :
    (walk as bs cell i j).Sublist (as.toList.take i).reverse ∧
      (walk as bs cell i j).Sublist (bs.toList.take j).reverse := by
  fun_induction walk as bs cell i j with
  | case1 j => simp
  | case2 i => simp
  | case3 i j a heq ih =>
    -- a common line is the next line of both
    obtain ⟨ha, hb⟩ := ih (by omega) (by omega)
    rw [reverse_take_succ hi, reverse_take_succ hj]
    exact ⟨ha.cons_cons _, heq ▸ hb.cons_cons _⟩
  | case4 => simp
  | case5 j a heq hj0 ih =>
    obtain ⟨ha, hb⟩ := ih hi (by omega)
    rw [reverse_take_succ hj]
    exact ⟨ha, hb.cons _⟩
  | case6 i j a heq hi0 left hleft ih =>
    obtain ⟨ha, hb⟩ := ih hi (by omega)
    rw [reverse_take_succ hj]
    exact ⟨ha, hb.cons _⟩
  | case7 i j a heq hi0 left hleft ih =>
    obtain ⟨ha, hb⟩ := ih (by omega) hj
    rw [reverse_take_succ hi]
    exact ⟨ha.cons _, hb⟩

variable {as bs cs : List Text}

theorem common_sublist (as bs : List Text) :
    (common as bs).Sublist as ∧ (common as bs).Sublist bs := by
  have hwalk := fun cell => walk_sublist as.toArray bs.toArray cell
    (Nat.le_refl as.length) (Nat.le_refl bs.length)
  simp only [List.take_length] at hwalk
  unfold common
  constructor
  · simpa using (hwalk _).1.reverse
  · simpa using (hwalk _).2.reverse

/-! ### Telling the lines apart -/

/-- The lines of a run. -/
def Chunk.rows : Chunk → List Text
  | same rows => rows
  | removed rows => rows
  | added rows => rows

/-- Whether only one of the texts has the run. -/
def Chunk.IsChange : Chunk → Prop
  | same _ => False
  | removed _ => True
  | added _ => True

/-- The lines of the existing text in a run. -/
def Chunk.old : Chunk → List Text
  | same rows => rows
  | removed rows => rows
  | added _ => []

/-- The lines of the expected text in a run. -/
def Chunk.new : Chunk → List Text
  | same rows => rows
  | removed _ => []
  | added rows => rows

theorem Chunk.old_eq_new {c : Chunk} (hc : ¬ c.IsChange) : c.old = c.new := by
  cases c with
  | same rows => rfl
  | removed rows => exact absurd trivial hc
  | added rows => exact absurd trivial hc

/-- Runs without lines are left out. -/
def run (kind : List Text → Chunk) (rows : List Text) : List Chunk :=
  if rows.isEmpty then [] else [kind rows]

theorem flatMap_run (kind : List Text → Chunk) (f : Chunk → List Text) (hf : f (kind []) = [])
    (rows : List Text) : (run kind rows).flatMap f = f (kind rows) := by
  unfold run
  split
  · rename_i hrows
    rw [List.isEmpty_iff.mp hrows, hf]
    rfl
  · simp

theorem mem_run {kind : List Text → Chunk} {rows : List Text} {chunk : Chunk} :
    chunk ∈ run kind rows ↔ rows ≠ [] ∧ chunk = kind rows := by
  unfold run
  split <;> simp_all

/-- The lines that three lists start with in common, as far as they go. -/
theorem sharedLength_spec (as bs cs : List Text) : ∃ shared as' bs' cs',
    as = shared ++ as' ∧ bs = shared ++ bs' ∧ cs = shared ++ cs' ∧
      shared.length = sharedLength as bs cs ∧
      ∀ r, as'.head? = some r → bs'.head? = some r → cs'.head? ≠ some r := by
  fun_induction sharedLength as bs cs with
  | case1 a as b bs c cs heq ih =>
    simp only [Bool.and_eq_true, decide_eq_true_eq] at heq
    obtain ⟨rfl, rfl⟩ := heq
    obtain ⟨shared, as', bs', cs', rfl, rfl, rfl, hlength, hend⟩ := ih
    exact ⟨a :: shared, as', bs', cs', rfl, rfl, rfl, by rw [← hlength]; rfl, hend⟩
  | case2 a as b bs c cs hne =>
    refine ⟨[], _, _, _, rfl, rfl, rfl, rfl, ?_⟩
    rintro r ha hb hc
    obtain rfl := Option.some.inj ha
    obtain rfl := Option.some.inj hb
    obtain rfl := Option.some.inj hc
    simp at hne
  | case3 as bs cs hnil =>
    refine ⟨[], _, _, _, rfl, rfl, rfl, rfl, ?_⟩
    rintro r ha hb hc
    obtain ⟨as', rfl⟩ := List.head?_eq_some_iff.mp ha
    obtain ⟨bs', rfl⟩ := List.head?_eq_some_iff.mp hb
    obtain ⟨cs', rfl⟩ := List.head?_eq_some_iff.mp hc
    exact hnil _ _ _ _ _ _ rfl rfl rfl

/-- The lines up to the next common one hold it nowhere, and it comes next if anything does. -/
theorem upTo_spec (next : Option Text) (rows : List Text) : ∃ front rest,
    upTo next rows = (front, rest) ∧ rows = front ++ rest ∧ (∀ r ∈ front, next ≠ some r) ∧
      (rest = [] ∨ rest.head? = next) := by
  refine ⟨_, _, List.span_eq_takeWhile_dropWhile _ _, List.takeWhile_append_dropWhile.symm, ?_, ?_⟩
  · intro r hr heq
    have hne := List.all_eq_true.mp List.all_takeWhile r hr
    simp [heq] at hne
  · cases hrest : rows.dropWhile (fun r => some r != next) with
    | nil => exact .inl rfl
    | cons r rest =>
      have hstop := List.head?_dropWhile_not (fun r => some r != next) rows
      rw [hrest] at hstop
      exact .inr (by simpa using hstop)

/-- A common subsequence lies behind the lines that its first line is not among. -/
theorem sublist_of_append {front rest : List Text} (h : cs.Sublist (front ++ rest))
    (hfront : ∀ r ∈ front, cs.head? ≠ some r) : cs.Sublist rest := by
  induction front with
  | nil => exact h
  | cons r front ih =>
    obtain ⟨hr, hfront⟩ := List.forall_mem_cons.mp hfront
    cases cs with
    | nil => exact List.nil_sublist rest
    | cons c cs =>
      have hne : c ≠ r := fun heq => hr (by rw [heq]; rfl)
      exact ih (h.of_cons_of_ne hne) hfront

/-- One round: a run of lines that stay, a run that goes, a run that comes, and the rest. Some line
is used up as long as there is one. -/
theorem merge_succ (fuel : Nat) (hlines : as ≠ [] ∨ bs ≠ []) (ha : cs.Sublist as)
    (hb : cs.Sublist bs) : ∃ shared gone new as' bs' cs',
      as = shared ++ gone ++ as' ∧ bs = shared ++ new ++ bs' ∧
      cs'.Sublist as' ∧ cs'.Sublist bs' ∧ shared ++ gone ++ new ≠ [] ∧
      merge (fuel + 1) as bs cs =
        run .same shared ++ run .removed gone ++ run .added new ++ merge fuel as' bs' cs' := by
  obtain ⟨shared, as₁, bs₁, cs', rfl, rfl, rfl, hlength, hend⟩ := sharedLength_spec as bs cs
  obtain ⟨gone, as', hgone, rfl, hgoneNe, hgoneEnd⟩ := upTo_spec cs'.head? as₁
  obtain ⟨new, bs', hnew, rfl, hnewNe, hnewEnd⟩ := upTo_spec cs'.head? bs₁
  have ha' : cs'.Sublist (gone ++ as') := (List.append_sublist_append_left shared).mp ha
  have hb' : cs'.Sublist (new ++ bs') := (List.append_sublist_append_left shared).mp hb
  refine ⟨shared, gone, new, as', bs', cs', (List.append_assoc ..).symm,
    (List.append_assoc ..).symm, sublist_of_append ha' hgoneNe, sublist_of_append hb' hnewNe,
    ?_, ?_⟩
  · -- with all runs empty, the next common line would come next in both texts
    intro hnil
    simp only [List.append_eq_nil_iff] at hnil
    obtain ⟨⟨rfl, rfl⟩, rfl⟩ := hnil
    simp only [List.nil_append] at ha' hb' hend hlines
    cases cs' with
    | nil => simp_all
    | cons c cs =>
      have has : as'.head? = some c := hgoneEnd.resolve_left (by rintro rfl; simp at ha')
      have hbs : bs'.head? = some c := hnewEnd.resolve_left (by rintro rfl; simp at hb')
      exact hend c has hbs rfl
  · have hsome : ((shared ++ (gone ++ as')).isEmpty && (shared ++ (new ++ bs')).isEmpty) = false := by
      rw [Bool.and_eq_false_iff, List.isEmpty_eq_false_iff, List.isEmpty_eq_false_iff]
      exact hlines
    rw [merge, hsome]
    simp only [Bool.false_eq_true, if_false, ← hlength, List.drop_left, List.take_left, hgone, hnew,
      run, List.isEmpty_iff, List.length_eq_zero_iff]

/-- The runs of a difference are the one text without those that come and the other without those
that go. -/
theorem merge_spec {fuel : Nat} (hfuel : as.length + bs.length ≤ fuel) (ha : cs.Sublist as)
    (hb : cs.Sublist bs) : (merge fuel as bs cs).flatMap Chunk.old = as ∧
      (merge fuel as bs cs).flatMap Chunk.new = bs ∧
      ∀ chunk ∈ merge fuel as bs cs, chunk.rows ≠ [] := by
  induction fuel generalizing as bs cs with
  | zero =>
    obtain rfl : as = [] := List.eq_nil_of_length_eq_zero (by omega)
    obtain rfl : bs = [] := List.eq_nil_of_length_eq_zero (by omega)
    simp [merge]
  | succ fuel ih =>
    by_cases hlines : as ≠ [] ∨ bs ≠ []
    · obtain ⟨shared, gone, new, as', bs', cs', rfl, rfl, ha', hb', hprogress, hmerge⟩ :=
        merge_succ fuel hlines ha hb
      have hpos := List.length_pos_iff.mpr hprogress
      simp only [List.length_append] at hfuel hpos
      obtain ⟨hold, hnew, hrows⟩ := ih (by omega) ha' hb'
      rw [hmerge]
      refine ⟨?_, ?_, ?_⟩
      · simp [flatMap_run .same Chunk.old rfl, flatMap_run .removed Chunk.old rfl,
          flatMap_run .added Chunk.old rfl, Chunk.old, hold]
      · simp [flatMap_run .same Chunk.new rfl, flatMap_run .removed Chunk.new rfl,
          flatMap_run .added Chunk.new rfl, Chunk.new, hnew]
      · intro chunk hchunk
        simp only [List.mem_append, mem_run] at hchunk
        rcases hchunk with ((⟨hne, rfl⟩ | ⟨hne, rfl⟩) | ⟨hne, rfl⟩) | hchunk
        · exact hne
        · exact hne
        · exact hne
        · exact hrows chunk hchunk
    · rw [not_or, not_not, not_not] at hlines
      obtain ⟨rfl, rfl⟩ := hlines
      simp [merge]

/-! ### The runs of a difference -/

theorem joinWith_rowsOf (t : Text) : Text.joinWith ['\n'] (rowsOf t) = t := by
  unfold rowsOf
  split
  · rename_i ht
    rw [List.isEmpty_iff.mp ht]
    rfl
  · exact Text.joinWith_pieces '\n' t

theorem newline_not_mem_of_mem_rowsOf {row t : Text} (h : row ∈ rowsOf t) : '\n' ∉ row := by
  unfold rowsOf at h
  split at h
  · exact absurd h List.not_mem_nil
  · exact Text.not_mem_of_mem_pieces h

/-- Lines of a text that pass through another text are lines of the text still, or none. -/
theorem rowsOf_joinWith_sublist {t : Text} (h : cs.Sublist (Text.pieces '\n' t)) :
    (rowsOf (Text.joinWith ['\n'] cs)).Sublist (rowsOf t) := by
  by_cases hjoin : Text.joinWith ['\n'] cs = []
  · rw [hjoin]
    exact List.nil_sublist _
  · have hcs : ∀ p ∈ cs, '\n' ∉ p := fun p hp => Text.not_mem_of_mem_pieces (h.subset hp)
    have hne : cs ≠ [] := by
      rintro rfl
      exact hjoin rfl
    have ht : t ≠ [] := by
      -- an empty text has one piece, which is empty
      rintro rfl
      obtain rfl : cs = [[]] := (List.sublist_singleton.mp h).resolve_left hne
      exact hjoin rfl
    rw [rowsOf, if_neg (by simpa using hjoin), Text.pieces_joinWith hcs hne, rowsOf,
      if_neg (by simpa using ht)]
    exact h

theorem diff_spec (existing expected : Text) :
    (diff existing expected).flatMap Chunk.old = rowsOf existing ∧
      (diff existing expected).flatMap Chunk.new = rowsOf expected ∧
      ∀ chunk ∈ diff existing expected, chunk.rows ≠ [] := by
  obtain ⟨ha, hb⟩ := common_sublist (Text.pieces '\n' existing) (Text.pieces '\n' expected)
  exact merge_spec (Nat.le_refl _) (rowsOf_joinWith_sublist ha) (rowsOf_joinWith_sublist hb)

/-- Texts that differ have a run that only one of them has. -/
theorem exists_isChange {existing expected : Text} (h : existing ≠ expected) :
    ∃ chunk ∈ diff existing expected, chunk.IsChange := by
  by_contra hnone
  obtain ⟨hold, hnew, -⟩ := diff_spec existing expected
  have hsame : ∀ chunk ∈ diff existing expected, chunk.old = chunk.new := by
    intro chunk hchunk
    exact Chunk.old_eq_new fun hchange => hnone ⟨chunk, hchunk, hchange⟩
  have hrows : rowsOf existing = rowsOf expected := by
    rw [← hold, ← hnew, List.flatMap_congr hsame]
  exact h (by rw [← joinWith_rowsOf existing, hrows, joinWith_rowsOf])

/-- Runs that change hold lines of one of the texts. -/
theorem newline_not_mem_of_isChange {existing expected : Text} {chunk : Chunk}
    (hchunk : chunk ∈ diff existing expected) (hchange : chunk.IsChange) :
    ∀ row ∈ chunk.rows, '\n' ∉ row := by
  obtain ⟨hold, hnew, -⟩ := diff_spec existing expected
  intro row hrow
  cases chunk with
  | same rows => exact hchange.elim
  | removed rows =>
    refine newline_not_mem_of_mem_rowsOf (t := existing) ?_
    rw [← hold]
    exact List.mem_flatMap.mpr ⟨_, hchunk, hrow⟩
  | added rows =>
    refine newline_not_mem_of_mem_rowsOf (t := expected) ?_
    rw [← hnew]
    exact List.mem_flatMap.mpr ⟨_, hchunk, hrow⟩

end Diff

/-! ### What is shown -/

namespace Text

theorem EndsLine.append_left {b : Text} (hb : EndsLine b) (hne : b ≠ []) (a : Text) :
    EndsLine (a ++ b) := by
  refine .inr ?_
  rw [List.getLast?_append, hb.resolve_left hne]
  rfl

/-- A text that starts with characters that end no line has them at the start of its first line. -/
theorem exists_line_of_front {front : Text} (hne : front ≠ [])
    (hfront : ∀ c ∈ front, c ≠ '\n' ∧ c ≠ '\r') (rest : Text) :
    ∃ line, (lines (front ++ rest)).head? = some line ∧ front <+: line := by
  induction front with
  | nil => exact absurd rfl hne
  | cons c front ih =>
    obtain ⟨⟨hn, hr⟩, hfront⟩ := List.forall_mem_cons.mp hfront
    rw [List.cons_append, lines_cons hn (absurd · hr)]
    cases front with
    | nil =>
      cases lines ([] ++ rest) with
      | nil => exact ⟨[c], rfl, List.prefix_rfl⟩
      | cons l ls => exact ⟨c :: l, rfl, List.cons_prefix_cons.mpr ⟨rfl, List.nil_prefix⟩⟩
    | cons d front =>
      obtain ⟨line, hline, hstarts⟩ := ih (List.cons_ne_nil d front) hfront
      obtain ⟨ls, hls⟩ := List.head?_eq_some_iff.mp hline
      rw [hls]
      exact ⟨c :: line, rfl, List.cons_prefix_cons.mpr ⟨rfl, hstarts⟩⟩

end Text

namespace Report

variable {colors : Bool} {existing expected : Text}

/-- A report shows a change if one of its lines starts with a plus or a minus, behind the sequences
that set a colour, if there are any. -/
def ShowsChange (colors : Bool) (report : Text) : Prop :=
  ∃ line ∈ Text.lines report, ∃ (set : List Color) (mark : Char),
    (mark = '+' ∨ mark = '-') ∧ set.flatMap (start colors false) ++ [mark] <+: line

theorem mem_start {color : Color} {c : Char} (hc : c ∈ start colors false color) :
    c ≠ '\n' ∧ c ≠ '\r' ∧ c ≠ '+' ∧ c ≠ '-' := by
  have hall : (start colors false color).all
      (fun c => c != '\n' && c != '\r' && c != '+' && c != '-') = true := by
    cases colors <;> cases color <;> decide
  simpa [and_assoc] using List.all_eq_true.mp hall c hc

/-- Lines behind marks are nothing only if they are a single empty one. -/
theorem marked_eq_nil_iff {mark : Char} {rows : List Text} (hne : rows ≠ [])
    (hrows : ∀ row ∈ rows, '\n' ∉ row) : marked mark rows = [] ↔ rows = [[]] := by
  constructor
  · intro h
    have hlines : Text.lines (Text.joinWith ['\n'] rows) = [] := by
      cases hl : Text.lines (Text.joinWith ['\n'] rows) with
      | nil => rfl
      | cons l ls => simp [marked, hl, Text.ofLines] at h
    rw [← Text.pieces_joinWith hrows hne, Text.lines_eq_nil_iff.mp hlines]
    rfl
  · rintro rfl
    rfl

/-- What is not nothing starts with the mark. -/
theorem head?_marked {mark : Char} {rows : List Text} (h : marked mark rows ≠ []) :
    ∃ rest, marked mark rows = mark :: rest := by
  unfold marked at h ⊢
  cases hl : Text.lines (Text.joinWith ['\n'] rows) with
  | nil => simp [hl, Text.ofLines] at h
  | cons l ls => exact ⟨_, rfl⟩

theorem chunk_of_isChange (colors : Bool) {c : Diff.Chunk} (hc : c.IsChange) :
    ∃ (color : Color) (mark : Char), (mark = '+' ∨ mark = '-') ∧
      chunk colors c = start colors false color ++ marked mark c.rows := by
  cases c with
  | same rows => exact hc.elim
  | removed rows => exact ⟨.red, '-', .inr rfl, rfl⟩
  | added rows => exact ⟨.green, '+', .inl rfl, rfl⟩

theorem chunk_of_not_isChange (colors : Bool) {c : Diff.Chunk} (hc : ¬ c.IsChange) :
    chunk colors c = [] := by
  cases c with
  | same rows => rfl
  | removed rows => exact absurd trivial hc
  | added rows => exact absurd trivial hc

/-- Behind some runs a line starts, perhaps with sequences that set a colour. -/
theorem exists_endsLine (colors : Bool) (chunks : List Diff.Chunk) :
    ∃ (before : Text) (set : List Color), before.EndsLine ∧
      chunks.flatMap (chunk colors) = before ++ set.flatMap (start colors false) := by
  induction chunks using List.reverseRecOn with
  | nil => exact ⟨[], [], .inl rfl, rfl⟩
  | append_singleton chunks c ih =>
    obtain ⟨before, set, hbefore, heq⟩ := ih
    rw [List.flatMap_append, List.flatMap_singleton, heq]
    by_cases hc : c.IsChange
    · obtain ⟨color, mark, -, hchunk⟩ := chunk_of_isChange colors hc
      rw [hchunk]
      by_cases hnil : marked mark c.rows = []
      · exact ⟨before, set ++ [color], hbefore, by simp [hnil]⟩
      · have hends : (marked mark c.rows).EndsLine := Text.endsLine_ofLines _
        exact ⟨_, [], hends.append_left hnil
          (before ++ set.flatMap (start colors false) ++ start colors false color), by simp⟩
    · exact ⟨before, set, hbefore, by simp [chunk_of_not_isChange colors hc]⟩

/-- Setting colours shows nothing. -/
theorem not_mem_of_blank {chunks : List Diff.Chunk}
    (hblank : ∀ c ∈ chunks, c.IsChange → c.rows = [[]]) {mark : Char}
    (hmark : mark = '+' ∨ mark = '-') : mark ∉ chunks.flatMap (chunk colors) ++ reset colors := by
  have hstart : ∀ color, mark ∉ start colors false color := by
    intro color hmem
    obtain ⟨-, -, hplus, hminus⟩ := mem_start hmem
    exact hmark.elim hplus hminus
  have hreset : mark ∉ reset colors := by
    rcases hmark with rfl | rfl <;> cases colors <;> decide
  simp only [List.mem_append, List.mem_flatMap, not_or, not_exists, not_and]
  refine ⟨fun c hc hmem => ?_, hreset⟩
  by_cases hchange : c.IsChange
  · obtain ⟨color, mark', -, hchunk⟩ := chunk_of_isChange colors hchange
    have hnil : marked mark' c.rows = [] := by
      rw [hblank c hc hchange]
      rfl
    rw [hchunk, hnil, List.append_nil] at hmem
    exact hstart color hmem
  · rw [chunk_of_not_isChange colors hchange] at hmem
    exact absurd hmem List.not_mem_nil

/-- A run of changed lines is shown unless it is a single empty line. -/
theorem showsChange_iff (colors : Bool) (existing expected : Text) :
    ShowsChange colors (difference colors existing expected) ↔
      ∃ c ∈ diff existing expected, c.IsChange ∧ c.rows ≠ [[]] := by
  constructor
  · rintro ⟨line, hline, set, mark, hmark, hstarts⟩
    by_contra hnone
    have hblank : ∀ c ∈ diff existing expected, c.IsChange → c.rows = [[]] := by
      intro c hc hchange
      by_contra hrows
      exact hnone ⟨c, hc, hchange, hrows⟩
    exact not_mem_of_blank hblank hmark
      (Text.mem_of_mem_lines hline (hstarts.subset (List.mem_append_right _ List.mem_cons_self)))
  · rintro ⟨c, hc, hchange, hrows⟩
    obtain ⟨-, -, hne⟩ := Diff.diff_spec existing expected
    obtain ⟨front, back, hsplit⟩ := List.append_of_mem hc
    obtain ⟨color, mark, hmark, hchunk⟩ := chunk_of_isChange colors hchange
    have hmarked : marked mark c.rows ≠ [] := by
      intro hnil
      exact hrows ((marked_eq_nil_iff (hne c hc)
        (Diff.newline_not_mem_of_isChange hc hchange)).mp hnil)
    obtain ⟨rest, hrest⟩ := head?_marked hmarked
    obtain ⟨before, set, hbefore, hfront⟩ := exists_endsLine colors front
    -- behind what ends a line stand sequences that set a colour, then the mark
    have hreport : difference colors existing expected = before ++
        ((set ++ [color]).flatMap (start colors false) ++ [mark] ++
          (rest ++ back.flatMap (chunk colors) ++ reset colors)) := by
      rw [difference, hsplit, List.flatMap_append, List.flatMap_cons, hfront, hchunk, hrest]
      simp
    have hends : ∀ d ∈ (set ++ [color]).flatMap (start colors false) ++ [mark],
        d ≠ '\n' ∧ d ≠ '\r' := by
      intro d hd
      rcases List.mem_append.mp hd with hd | hd
      · obtain ⟨color, -, hd⟩ := List.mem_flatMap.mp hd
        exact ⟨(mem_start hd).1, (mem_start hd).2.1⟩
      · obtain rfl := List.mem_singleton.mp hd
        rcases hmark with rfl | rfl <;> decide
    obtain ⟨line, hline, hstarts⟩ := Text.exists_line_of_front (by simp) hends
      (rest ++ back.flatMap (chunk colors) ++ reset colors)
    refine ⟨line, ?_, _, mark, hmark, hstarts⟩
    rw [hreport, Text.lines_append hbefore]
    exact List.mem_append_right _ (List.mem_of_head? hline)

/-- The lines of a text that are not empty. -/
def filledLines (t : Text) : List Text := (Text.pieces '\n' t).filter (!·.isEmpty)

theorem filledLines_eq (t : Text) : filledLines t = (Diff.rowsOf t).filter (!·.isEmpty) := by
  unfold Diff.rowsOf
  split
  · rename_i ht
    rw [List.isEmpty_iff.mp ht]
    rfl
  · rfl

/-- Texts that differ in more than empty lines have a changed run that is more than one. -/
theorem exists_change_of_filledLines (h : filledLines existing ≠ filledLines expected) :
    ∃ c ∈ diff existing expected, c.IsChange ∧ c.rows ≠ [[]] := by
  by_contra hnone
  obtain ⟨hold, hnew, -⟩ := Diff.diff_spec existing expected
  have hsame : ∀ c ∈ diff existing expected,
      c.old.filter (!·.isEmpty) = c.new.filter (!·.isEmpty) := by
    intro c hc
    have hrows : c.IsChange → c.rows = [[]] := by
      intro hchange
      by_contra hne
      exact hnone ⟨c, hc, hchange, hne⟩
    cases c with
    | same rows => rfl
    | removed rows =>
      obtain rfl : rows = [[]] := hrows trivial
      rfl
    | added rows =>
      obtain rfl : rows = [[]] := hrows trivial
      rfl
  refine h ?_
  rw [filledLines_eq, filledLines_eq, ← hold, ← hnew, List.filter_flatMap, List.filter_flatMap,
    List.flatMap_congr hsame]

/-- The difference of two texts is the one text in its runs that stay or go, and the other in those
that stay or come. So there is a changed run if the texts differ; a line of it is shown unless it is
a single empty line, and certainly if the texts differ in more than empty lines. -/
theorem difference_shows_iff (colors : Bool) (h : existing ≠ expected) :
    (diff existing expected).flatMap Diff.Chunk.old = Diff.rowsOf existing ∧
    (diff existing expected).flatMap Diff.Chunk.new = Diff.rowsOf expected ∧
    (∃ c ∈ diff existing expected, c.IsChange) ∧
    (ShowsChange colors (difference colors existing expected) ↔
      ∃ c ∈ diff existing expected, c.IsChange ∧ c.rows ≠ [[]]) ∧
    (filledLines existing ≠ filledLines expected →
      ShowsChange colors (difference colors existing expected)) := by
  obtain ⟨hold, hnew, -⟩ := Diff.diff_spec existing expected
  refine ⟨hold, hnew, Diff.exists_isChange h, showsChange_iff colors existing expected, ?_⟩
  intro hfilled
  exact (showsChange_iff colors existing expected).mpr (exists_change_of_filledLines hfilled)

theorem difference_shows_iff_filled :
    "a\n\nb\n".toList ≠ "a\nc\n".toList ∧
      filledLines "a\n\nb\n".toList ≠ filledLines "a\nc\n".toList ∧
      ShowsChange true (difference true "a\n\nb\n".toList "a\nc\n".toList) := by
  have hne : "a\n\nb\n".toList ≠ "a\nc\n".toList := by decide
  have hfilled : filledLines "a\n\nb\n".toList ≠ filledLines "a\nc\n".toList := by decide
  obtain ⟨-, -, -, -, hshows⟩ := difference_shows_iff true hne
  exact ⟨hne, hfilled, hshows hfilled⟩

/-- An empty line more at the end of a text is a change that is not shown. -/
theorem single_empty_line_is_hidden :
    "a\n\n".toList ≠ "a\n".toList ∧
      ¬ ShowsChange false (difference false "a\n\n".toList "a\n".toList) := by
  have hnothing : difference false "a\n\n".toList "a\n".toList = [] := by decide +kernel
  refine ⟨by decide, ?_⟩
  rintro ⟨line, hline, -⟩
  rw [hnothing] at hline
  exact absurd hline List.not_mem_nil

end Report

end BlockSpec
