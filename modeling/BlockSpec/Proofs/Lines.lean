import BlockSpec.Text.Basic
import Mathlib.Data.List.Basic
import Mathlib.Data.List.TakeDrop

/-! # Cutting a text into pieces and lines

Between the copies of a separator a text has pieces, and joined by it again they are the text. A
text can be cut where one of its lines ends: the lines of the whole are those of the front followed
by those of the back. Whether a line ends in a newline alone or in a carriage return and a newline
makes no difference, and neither does a newline behind the last line.

    a \n b \n  ++  c \n    ↦    [a, b] ++ [c]

Lines are the pieces between newlines, less the carriage returns that belong to their ends and less
the empty piece behind a newline that comes last. -/

namespace BlockSpec

namespace Text

/-! ### Pieces -/

theorem piecesBy_eq_splitOnP (isSep : Char → Bool) (t : Text) :
    piecesBy isSep t = t.splitOnP isSep := by
  induction t with
  | nil => rfl
  | cons c t ih =>
    have hne := List.splitOnP_ne_nil isSep t
    rw [piecesBy, List.splitOnP_cons_eq_if_modifyHead, ih]
    split
    · rfl
    · cases hs : t.splitOnP isSep with
      | nil => exact absurd hs hne
      | cons p ps => rfl

theorem piecesBy_cons (isSep : Char → Bool) (c : Char) (t : Text) : piecesBy isSep (c :: t) =
    if isSep c then [] :: piecesBy isSep t else (piecesBy isSep t).modifyHead (c :: ·) := by
  simp only [piecesBy_eq_splitOnP, List.splitOnP_cons_eq_if_modifyHead]

theorem piecesBy_append_cons {isSep : Char → Bool} {sep : Char} (hsep : isSep sep = true)
    (s t : Text) : piecesBy isSep (s ++ sep :: t) = piecesBy isSep s ++ piecesBy isSep t := by
  simp only [piecesBy_eq_splitOnP, List.splitOnP_append_cons s t hsep]

theorem piecesBy_append {isSep : Char → Bool} {s : Text} (hs : ∀ c ∈ s, isSep c = false)
    (t : Text) : piecesBy isSep (s ++ t) = (piecesBy isSep t).modifyHead (s ++ ·) := by
  induction s with
  | nil =>
    rw [List.nil_append]
    cases piecesBy isSep t <;> rfl
  | cons c s ih =>
    rw [List.cons_append, piecesBy_cons, if_neg (by simp [hs c]),
      ih fun d hd => hs d (List.mem_cons_of_mem c hd), List.modifyHead_modifyHead]
    rfl

theorem pieces_eq_splitOn (sep : Char) (t : Text) : pieces sep t = t.splitOn sep :=
  piecesBy_eq_splitOnP (· == sep) t

theorem pieces_ne_nil (sep : Char) (t : Text) : pieces sep t ≠ [] := by
  rw [pieces_eq_splitOn]
  exact List.splitOn_ne_nil sep t

theorem pieces_append_cons (sep : Char) (s t : Text) :
    pieces sep (s ++ sep :: t) = pieces sep s ++ pieces sep t := by
  simp only [pieces_eq_splitOn, List.splitOn_append_cons_self]

theorem pieces_of_not_mem {sep : Char} {t : Text} (h : sep ∉ t) : pieces sep t = [t] := by
  rw [pieces_eq_splitOn, List.splitOn_eq_singleton h]

theorem joinWith_pieces (sep : Char) (t : Text) : joinWith [sep] (pieces sep t) = t := by
  rw [pieces_eq_splitOn, joinWith, List.intercalate_splitOn]

theorem pieces_joinWith {sep : Char} {parts : List Text} (hparts : ∀ p ∈ parts, sep ∉ p)
    (hne : parts ≠ []) : pieces sep (joinWith [sep] parts) = parts := by
  rw [pieces_eq_splitOn, joinWith, List.splitOn_intercalate sep hparts hne]

theorem joinWith_cons (sep : Char) (part : Text) (parts : List Text) :
    joinWith [sep] (part :: parts) = part ++ parts.flatMap (sep :: ·) := by
  induction parts generalizing part with
  | nil => simp [joinWith]
  | cons next parts ih =>
    unfold joinWith at ih ⊢
    rw [List.intercalate_cons_cons, ih next, List.flatMap_cons]
    simp

theorem joinWith_concat (sep : Char) (parts : List Text) (last : Text) :
    joinWith [sep] (parts ++ [last]) = parts.flatMap (· ++ [sep]) ++ last := by
  induction parts with
  | nil => simp [joinWith]
  | cons p parts ih =>
    have hne : parts ++ [last] ≠ [] := by simp
    rw [joinWith] at ih ⊢
    rw [List.cons_append, List.intercalate_cons_of_ne_nil hne, ih]
    simp

/-- What holds of every character of a separator and of the parts holds of all. -/
theorem forall_mem_joinWith {P : Char → Prop} {sep : Text} (hsep : ∀ c ∈ sep, P c) :
    ∀ {parts : List Text}, (∀ p ∈ parts, ∀ c ∈ p, P c) → ∀ c ∈ joinWith sep parts, P c
  | [], _, c, hc => absurd hc List.not_mem_nil
  | [p], h, c, hc => by
    rw [joinWith, List.intercalate_singleton] at hc
    exact h p List.mem_cons_self c hc
  | p :: q :: parts, h, c, hc => by
    rw [joinWith, List.intercalate_cons_cons, List.append_assoc, List.mem_append,
      List.mem_append] at hc
    rcases hc with hc | hc | hc
    · exact h p List.mem_cons_self c hc
    · exact hsep c hc
    · exact forall_mem_joinWith hsep (fun r hr => h r (List.mem_cons_of_mem p hr)) c hc

theorem not_mem_of_mem_pieces {sep : Char} {t p : Text} (h : p ∈ pieces sep t) : sep ∉ p := by
  unfold pieces at h
  induction t generalizing p with
  | nil => rw [piecesBy, List.mem_singleton] at h; rw [h]; exact List.not_mem_nil
  | cons c t ih =>
    rw [piecesBy] at h
    split at h
    · rcases List.mem_cons.mp h with rfl | h
      · exact List.not_mem_nil
      · exact ih h
    · rename_i hc
      have hne : sep ≠ c := fun heq => hc (by simp [heq])
      cases hp : piecesBy (· == sep) t with
      | nil =>
        rw [hp, List.mem_singleton] at h
        rw [h, List.mem_singleton]
        exact hne
      | cons q qs =>
        rw [hp] at h ih
        rcases List.mem_cons.mp h with rfl | h
        · rw [List.mem_cons, not_or]
          exact ⟨hne, ih List.mem_cons_self⟩
        · exact ih (List.mem_cons_of_mem _ h)

/-- The last occurrence of a character has none behind it. -/
theorem splitAtLast?_eq_some_iff {sep : Char} {t a b : Text} :
    splitAtLast? sep t = some (a, b) ↔ t = a ++ sep :: b ∧ sep ∉ b := by
  rw [splitAtLast?, List.span_eq_takeWhile_dropWhile]
  constructor
  · intro h
    have hsplit := List.takeWhile_append_dropWhile (p := (· != sep)) (l := t.reverse)
    cases hd : t.reverse.dropWhile (· != sep) with
    | nil => simp [hd] at h
    | cons x before =>
      simp only [hd, Option.some.injEq, Prod.mk.injEq] at h
      obtain ⟨rfl, rfl⟩ := h
      have hx : x = sep := by
        have := List.head?_dropWhile_not (· != sep) t.reverse
        simpa [hd] using this
      rw [hd, hx] at hsplit
      refine ⟨?_, fun hmem => ?_⟩
      · have hback := congrArg List.reverse hsplit
        simpa using hback.symm
      · have hall := List.all_eq_true.mp List.all_takeWhile sep (List.mem_reverse.mp hmem)
        simp at hall
  · rintro ⟨rfl, hb⟩
    have hall : ∀ c ∈ b.reverse, (c != sep) = true := by
      intro c hc
      simp only [bne_iff_ne]
      rintro rfl
      exact hb (List.mem_reverse.mp hc)
    rw [List.reverse_append, List.reverse_cons, List.append_assoc,
      List.takeWhile_append_of_pos hall, List.dropWhile_append_of_pos hall]
    simp

/-! ### Lines -/

/-- What follows such a text starts on a new line. -/
def EndsLine (t : Text) : Prop := t = [] ∨ t.getLast? = some '\n'

variable {a t : Text} {c : Char}

theorem EndsLine.of_cons (h : EndsLine (c :: t)) : EndsLine t := by
  cases t with
  | nil => exact Or.inl rfl
  | cons d t => simpa [EndsLine] using h

theorem lines_cons (hn : c ≠ '\n') (hr : c = '\r' → t.head? ≠ some '\n') :
    lines (c :: t) = match lines t with
      | [] => [[c]]
      | l :: ls => (c :: l) :: ls := by
  have hreturn : ∀ t', c = '\r' → t = '\n' :: t' → False := by
    rintro t' rfl rfl
    exact hr rfl rfl
  exact lines.eq_4 c t hn hreturn

theorem lines_eq_nil_iff : lines t = [] ↔ t = [] := by
  fun_cases lines t <;> simp_all

theorem head?_append_ne_newline (hr : ∀ t', c = '\r' → t = '\n' :: t' → False) (hc : c = '\r')
    (ht : t ≠ []) {b : Text} : (t ++ b).head? ≠ some '\n' := by
  intro hhead
  rw [List.head?_append_of_ne_nil t ht] at hhead
  obtain ⟨t', rfl⟩ := List.head?_eq_some_iff.mp hhead
  exact hr t' hc rfl

/-- The lines of a text that is cut behind a line. -/
theorem lines_append (ha : EndsLine a) (b : Text) : lines (a ++ b) = lines a ++ lines b := by
  fun_induction lines a with
  | case1 => rfl
  | case2 t ih => rw [List.cons_append, lines, ih ha.of_cons, List.cons_append]
  | case3 t ih =>
    rw [List.cons_append, List.cons_append, lines, ih ha.of_cons.of_cons, List.cons_append]
  | case4 c t hn hr hl ih =>
    -- the last line is ended, so this one has more characters
    rw [lines_eq_nil_iff.mp hl] at ha
    exact absurd (by simpa [EndsLine] using ha) hn
  | case5 c t hn hr l ls hl ih =>
    rw [List.cons_append, lines_cons hn, ih ha.of_cons, hl]
    · rfl
    · exact fun hc => head?_append_ne_newline hr hc (by simp [← lines_eq_nil_iff, hl])

/-- Both ways to end a line are the same. -/
theorem lines_append_return (ha : a.getLast? ≠ some '\r') (b : Text) :
    lines (a ++ '\r' :: '\n' :: b) = lines (a ++ '\n' :: b) := by
  have hcons : ∀ {c : Char} {t : Text}, (c :: t).getLast? ≠ some '\r' → t.getLast? ≠ some '\r' := by
    intro c t h
    cases t with
    | nil => simp
    | cons d t => simpa using h
  fun_induction lines a with
  | case1 => rfl
  | case2 t ih => rw [List.cons_append, List.cons_append, lines, lines, ih (hcons ha)]
  | case3 t ih =>
    simp only [List.cons_append, lines]
    rw [ih (hcons (hcons ha))]
  | case4 c t hn hr hl ih =>
    obtain rfl := lines_eq_nil_iff.mp hl
    have hc : c ≠ '\r' := by simpa using ha
    rw [List.singleton_append, List.singleton_append, lines_cons hn (absurd · hc),
      lines_cons hn (absurd · hc)]
    rfl
  | case5 c t hn hr l ls hl ih =>
    have ht : t ≠ [] := by simp [← lines_eq_nil_iff, hl]
    rw [List.cons_append, List.cons_append,
      lines_cons hn fun hc => head?_append_ne_newline hr hc ht,
      lines_cons hn fun hc => head?_append_ne_newline hr hc ht, ih (hcons ha)]

/-- The last line need not be ended. -/
theorem lines_append_newline_end (ha : a.getLast? = some c) (hn : c ≠ '\n') (hr : c ≠ '\r') :
    lines (a ++ ['\n']) = lines a := by
  have hcons : ∀ {d : Char} {t : Text}, t ≠ [] → (d :: t).getLast? = some c →
      t.getLast? = some c := by
    intro d t ht h
    rwa [List.getLast?_cons_of_ne_nil ht] at h
  fun_induction lines a with
  | case1 => simp at ha
  | case2 t ih =>
    have ht : t ≠ [] := by rintro rfl; exact hn (by simpa using ha.symm)
    rw [List.cons_append, lines, ih (hcons ht ha)]
  | case3 t ih =>
    have ht : t ≠ [] := by rintro rfl; exact hn (by simpa using ha.symm)
    simp only [List.cons_append, lines]
    rw [ih (hcons ht (hcons (List.cons_ne_nil _ _) ha))]
  | case4 d t hn' hr' hl ih =>
    obtain rfl := lines_eq_nil_iff.mp hl
    obtain rfl : d = c := by simpa using ha
    rw [List.singleton_append, lines_cons hn (absurd · hr)]
    rfl
  | case5 d t hn' hr' l ls hl ih =>
    have ht : t ≠ [] := by simp [← lines_eq_nil_iff, hl]
    rw [List.cons_append, lines_cons hn' fun hc => head?_append_ne_newline hr' hc ht,
      ih (hcons ht ha), hl]

theorem mem_of_mem_lines {l : Text} (hl : l ∈ lines t) (hc : c ∈ l) : c ∈ t := by
  fun_induction lines t generalizing l with
  | case1 => simp at hl
  | case2 t ih =>
    rcases List.mem_cons.mp hl with rfl | hl
    · simp at hc
    · exact List.mem_cons_of_mem _ (ih hl hc)
  | case3 t ih =>
    rcases List.mem_cons.mp hl with rfl | hl
    · simp at hc
    · exact List.mem_cons_of_mem _ (List.mem_cons_of_mem _ (ih hl hc))
  | case4 d t hn hr hl' ih =>
    rw [List.mem_singleton.mp hl, List.mem_singleton] at hc
    exact hc ▸ List.mem_cons_self
  | case5 d t hn hr l' ls hl' ih =>
    rcases List.mem_cons.mp hl with rfl | hl
    · rcases List.mem_cons.mp hc with rfl | hc
      · exact List.mem_cons_self
      · exact List.mem_cons_of_mem _ (ih (by simp [hl']) hc)
    · exact List.mem_cons_of_mem _ (ih (by simp [hl', hl]) hc)

/-- No line holds a newline. -/
theorem newline_not_mem_of_mem_lines {l : Text} (hl : l ∈ lines t) : '\n' ∉ l := by
  fun_induction lines t generalizing l with
  | case1 => simp at hl
  | case2 t ih =>
    rcases List.mem_cons.mp hl with rfl | hl
    · exact List.not_mem_nil
    · exact ih hl
  | case3 t ih =>
    rcases List.mem_cons.mp hl with rfl | hl
    · exact List.not_mem_nil
    · exact ih hl
  | case4 d t hn hr hl' ih =>
    rw [List.mem_singleton.mp hl, List.mem_singleton]
    exact fun heq => hn heq.symm
  | case5 d t hn hr l' ls hl' ih =>
    rcases List.mem_cons.mp hl with rfl | hl
    · rw [List.mem_cons, not_or]
      exact ⟨fun heq => hn heq.symm, ih (by simp [hl'])⟩
    · exact ih (by simp [hl', hl])

/-- The lines of a blank text are blank. -/
theorem allBlank_of_mem_lines {l : Text} (ht : allBlank t = true) (hl : l ∈ lines t) :
    allBlank l = true := by
  rw [allBlank, List.all_eq_true] at ht ⊢
  exact fun c hc => ht c (mem_of_mem_lines hl hc)

/-! ### Rows -/

variable {rows : List Text} {row : Text}

/-- What follows rows that are all ended starts on a new line. -/
theorem endsLine_ofLines (rows : List Text) : EndsLine (ofLines rows) := by
  rcases List.eq_nil_or_concat rows with rfl | ⟨rows, row, rfl⟩
  · exact .inl rfl
  · refine .inr ?_
    rw [List.concat_eq_append, ofLines, List.flatMap_append, List.flatMap_singleton,
      ← List.append_assoc, List.getLast?_concat]

theorem ofLines_cons (row : Text) (rows : List Text) :
    ofLines (row :: rows) = row ++ '\n' :: ofLines rows := by
  rw [ofLines, List.flatMap_cons, List.append_assoc]
  rfl

/-- Between newlines there are the rows, each cut where it holds a newline itself. -/
theorem pieces_ofLines (rows : List Text) :
    pieces '\n' (ofLines rows) = rows.flatMap (pieces '\n') ++ [[]] := by
  induction rows with
  | nil => rfl
  | cons row rows ih =>
    rw [ofLines_cons, pieces_append_cons, ih, List.flatMap_cons, List.append_assoc]

end Text

end BlockSpec
