import BlockSpec.Proofs.LegalNames
import BlockSpec.Units
import Mathlib

/-! # The snake name of a text

A snake name is made word by word: what is left of a word when it is in lower case and only name
characters are kept. Words of which nothing is left vanish, the others are joined by underscores:

    label          Two␣␣ΣΑΣ⇥n° 3      words between blanks
    lower case     two  σας  n°  3     the last sigma depends on its neighbours
    name parts     two  –    n   3     foreign characters are dropped
    snake name     two_n_3

Lower case depends on what stands around a character in one case only: a capital sigma at the end of
a word has another small letter than one elsewhere. Both are dropped, and neither is a blank, so what
a word leaves does not depend on the text around it. Three laws follow: a snake name is its own snake
name, texts with a blank between them have the snake names of both with an underscore between them,
and only the words of a label matter for its name. -/

namespace BlockSpec

/-! ### Lower case in full -/

/-- The small letters of Unicode, as far as names depend on them: which they are for the characters
that have ASCII ones, and that all others stay beyond ASCII and neither become nor cease to be
blank. -/
structure CaseTable where
  /-- The small letters of a character on its own. -/
  lower : Char → Text
  /-- Whether a character is a letter with case. -/
  cased : Char → Bool
  /-- Whether a character is passed over in the search for a letter with case. -/
  ignored : Char → Bool
  lower_ascii : ∀ c : Char, c.toNat < 128 → lower c = [c.toLower]
  lower_dotted : lower '\u0130' = ['i', '\u0307']
  lower_kelvin : lower '\u212A' = ['k']
  lower_blank : ∀ c, isBlank c = true → lower c = [c]
  lower_beyond : ∀ c : Char, 128 ≤ c.toNat → c ≠ '\u0130' → c ≠ '\u212A' → isBlank c = false →
    ∀ x ∈ lower c, 128 ≤ x.toNat ∧ isBlank x = false

namespace CaseTable

/-- Whether the first character that is not passed over has case. -/
def meetsCased (table : CaseTable) (t : Text) : Bool :=
  (t.find? (!table.ignored ·)).any table.cased

/-- A text in lower case, behind the characters of `before`, the nearest first. A capital sigma that
ends a word has a small letter of its own. -/
def lowercase (table : CaseTable) (before : Text) : Text → Text
  | [] => []
  | c :: t =>
    (if c = 'Σ' then
      [if table.meetsCased before && !table.meetsCased t then 'ς' else 'σ']
    else table.lower c) ++ table.lowercase (c :: before) t

end CaseTable

/-- The snake name of a text that is in lower case already. -/
def snakeOfLower (lowered : Text) : Text :=
  Text.joinWith ['_'] (((Text.words lowered).map nameChars).filter (!·.isEmpty))

/-- The snake name by a table of small letters. -/
def CaseTable.snakeName (table : CaseTable) (label : Text) : Text :=
  snakeOfLower (table.lowercase [] label)

theorem snake_eq_snakeOfLower (label : Text) : snake label = snakeOfLower (label.flatMap lower) :=
  rfl

/-! ### One character -/

theorem isNameChar_iff_toNat {c : Char} : isNameChar c = true ↔
    (65 ≤ c.toNat ∧ c.toNat ≤ 90) ∨ (97 ≤ c.toNat ∧ c.toNat ≤ 122) ∨
      (48 ≤ c.toNat ∧ c.toNat ≤ 57) ∨ c.toNat = 95 := by
  rw [isNameChar_iff, ← Char.toNat_inj]
  simp only [Char.isAlpha, Char.isUpper, Char.isLower, Char.isDigit, Bool.or_eq_true,
    Bool.and_eq_true, decide_eq_true_eq, ge_iff_le, UInt32.le_iff_toNat_le, or_assoc]
  exact Iff.rfl

theorem isBlank_of_isNameChar {c : Char} (h : isNameChar c = true) : isBlank c = false := by
  rw [isNameChar_iff_toNat] at h
  simp only [isBlank, Bool.or_eq_false_iff, Bool.and_eq_false_iff, decide_eq_false_iff_not,
    beq_eq_false_iff_ne]
  omega

theorem isNameChar_of_beyond {c : Char} (h : 128 ≤ c.toNat) : isNameChar c = false := by
  rw [Bool.eq_false_iff, ne_eq, isNameChar_iff_toNat]
  omega

theorem isNameChar_of_isUpper {c : Char} (h : c.isUpper = true) : isNameChar c = true :=
  isNameChar_iff.mpr (.inl (by rw [Char.isAlpha, h, Bool.true_or]))

theorem isNameChar_toLower {c : Char} (h : c.isUpper = true) : isNameChar c.toLower = true :=
  isNameChar_iff.mpr (.inl (by rw [Char.isAlpha_toLower_eq_isAlpha, Char.isAlpha, h, Bool.true_or]))

theorem lower_eq_toLower {c : Char} (hdotted : c ≠ '\u0130') (hkelvin : c ≠ '\u212A') :
    lower c = [c.toLower] := by
  rw [lower, if_neg hdotted, if_neg hkelvin]

theorem lower_eq_self {c : Char} (hupper : ¬ c.isUpper = true) (hdotted : c ≠ '\u0130')
    (hkelvin : c ≠ '\u212A') : lower c = [c] := by
  rw [lower_eq_toLower hdotted hkelvin, Char.toLower_eq_of_not_isUpper hupper]

theorem lower_eq_self_of_beyond {c : Char} (hbeyond : 128 ≤ c.toNat) (hdotted : c ≠ '\u0130')
    (hkelvin : c ≠ '\u212A') : lower c = [c] := by
  refine lower_eq_self (fun hupper => ?_) hdotted hkelvin
  have hname := isNameChar_of_isUpper hupper
  rw [isNameChar_of_beyond hbeyond] at hname
  cases hname

/-- What may take the place of a character in lower case, as far as names depend on it. -/
structure Stands (c : Char) (w : Text) : Prop where
  blank : isBlank c = true → w = [c]
  solid : isBlank c = false → ∀ x ∈ w, isBlank x = false
  names : nameChars w = nameChars (lower c)

theorem stands_lower (c : Char) : Stands c (lower c) := by
  by_cases hdotted : c = '\u0130'
  · subst hdotted
    exact ⟨by decide, fun _ => by simp [lower, isBlank], rfl⟩
  by_cases hkelvin : c = '\u212A'
  · subst hkelvin
    exact ⟨by decide, fun _ => by simp [lower, isBlank], rfl⟩
  refine ⟨fun hblank => ?_, fun hsolid x hx => ?_, rfl⟩
  · refine lower_eq_self (fun hupper => ?_) hdotted hkelvin
    rw [isBlank_of_isNameChar (isNameChar_of_isUpper hupper)] at hblank
    cases hblank
  · by_cases hupper : c.isUpper = true
    · rw [lower_eq_toLower hdotted hkelvin, List.mem_singleton] at hx
      rw [hx]
      exact isBlank_of_isNameChar (isNameChar_toLower hupper)
    · rw [lower_eq_self hupper hdotted hkelvin, List.mem_singleton] at hx
      rwa [hx]

/-- A table has the small letters that are known already, or for a character beyond ASCII others
beyond ASCII. -/
theorem CaseTable.lower_cases (table : CaseTable) (c : Char) : table.lower c = BlockSpec.lower c ∨
    isBlank c = false ∧ nameChars (BlockSpec.lower c) = [] ∧
      ∀ x ∈ table.lower c, 128 ≤ x.toNat ∧ isBlank x = false := by
  by_cases hdotted : c = '\u0130'
  · subst hdotted
    exact .inl table.lower_dotted
  by_cases hkelvin : c = '\u212A'
  · subst hkelvin
    exact .inl table.lower_kelvin
  by_cases hascii : c.toNat < 128
  · exact .inl ((table.lower_ascii c hascii).trans (lower_eq_toLower hdotted hkelvin).symm)
  have hbeyond : 128 ≤ c.toNat := not_lt.mp hascii
  cases hblank : isBlank c with
  | true => exact .inl ((table.lower_blank c hblank).trans ((stands_lower c).blank hblank).symm)
  | false =>
    refine .inr ⟨rfl, ?_, table.lower_beyond c hbeyond hdotted hkelvin hblank⟩
    rw [lower_eq_self_of_beyond hbeyond hdotted hkelvin, nameChars, List.filter_singleton,
      isNameChar_of_beyond hbeyond]
    rfl

theorem CaseTable.stands (table : CaseTable) (c : Char) : Stands c (table.lower c) := by
  rcases table.lower_cases c with heq | ⟨hsolid, hnone, hbeyond⟩
  · rw [heq]
    exact stands_lower c
  · refine ⟨fun hblank => ?_, fun _ x hx => (hbeyond x hx).2, ?_⟩
    · rw [hsolid] at hblank
      cases hblank
    · rw [hnone, nameChars, List.filter_eq_nil_iff]
      intro x hx
      rw [isNameChar_of_beyond (hbeyond x hx).1]
      decide

/-! ### A text and its words -/

/-- A text and one in lower case: each character has made way for something that stands for it,
whatever decided what that was. -/
inductive Lowering : Text → Text → Prop where
  | nil : Lowering [] []
  | cons {c : Char} {w t u : Text} (first : Stands c w) (rest : Lowering t u) :
      Lowering (c :: t) (w ++ u)

theorem lowering_flatMap_lower : ∀ t : Text, Lowering t (t.flatMap lower)
  | [] => .nil
  | c :: t => .cons (stands_lower c) (lowering_flatMap_lower t)

theorem CaseTable.lowering_lowercase (table : CaseTable) :
    ∀ before t : Text, Lowering t (table.lowercase before t)
  | _, [] => .nil
  | before, c :: t => by
    refine .cons ?_ (table.lowering_lowercase (c :: before) t)
    by_cases hsigma : c = 'Σ'
    · subst hsigma
      rw [if_pos rfl]
      -- either small sigma stands for the capital one
      split
      · exact ⟨by decide, fun _ => by simp [isBlank], by decide⟩
      · exact ⟨by decide, fun _ => by simp [isBlank], by decide⟩
    · rw [if_neg hsigma]
      exact table.stands c

/-- What is left of a word in a name. -/
def wordName (word : Text) : Text := nameChars (word.flatMap lower)

theorem wordName_cons (c : Char) (word : Text) :
    wordName (c :: word) = nameChars (lower c) ++ wordName word := by
  rw [wordName, List.flatMap_cons, nameChars, List.filter_append]
  rfl

/-- Piece by piece, a text in lower case leaves what the text leaves. -/
theorem Lowering.map_nameChars_pieces {t u : Text} (h : Lowering t u) :
    (Text.piecesBy isBlank u).map nameChars = (Text.piecesBy isBlank t).map wordName := by
  induction h with
  | nil => rfl
  | @cons c w t u first rest ih =>
    rw [Text.piecesBy_cons]
    cases hc : isBlank c with
    | true =>
      rw [first.blank hc, List.singleton_append, Text.piecesBy_cons, if_pos hc, List.map_cons, ih]
      rfl
    | false =>
      rw [Text.piecesBy_append (first.solid hc), if_neg (by simp)]
      cases hu : Text.piecesBy isBlank u with
      | nil =>
        rw [hu, List.map_nil, eq_comm, List.map_eq_nil_iff] at ih
        rw [ih]
        rfl
      | cons p ps =>
        obtain ⟨q, qs, hq⟩ := List.exists_cons_of_ne_nil (l := Text.piecesBy isBlank t) (by
          rintro hnil
          simp [hu, hnil] at ih)
        rw [hu, hq, List.map_cons, List.map_cons, List.cons.injEq] at ih
        obtain ⟨hfirst, hrest⟩ := ih
        rw [hq, List.modifyHead_cons, List.modifyHead_cons, List.map_cons, List.map_cons, hrest,
          wordName_cons, ← first.names, ← hfirst, nameChars, List.filter_append]
        rfl

/-- What is left of the words of a text, where something is. -/
def nameParts (t : Text) : List Text := ((Text.words t).map wordName).filter (!·.isEmpty)

/-- Words are the pieces that are not empty, and of an empty piece nothing is left. -/
theorem filter_map_words {f : Text → Text} (hf : f [] = []) (t : Text) :
    ((Text.words t).map f).filter (!·.isEmpty) =
      ((Text.piecesBy isBlank t).map f).filter (!·.isEmpty) := by
  rw [Text.words]
  induction Text.piecesBy isBlank t with
  | nil => rfl
  | cons p ps ih =>
    cases p with
    | nil => simpa [hf] using ih
    | cons c p =>
      rw [List.filter_cons_of_pos rfl, List.map_cons, List.map_cons, List.filter_cons,
        List.filter_cons, ih]

theorem Lowering.snakeOfLower_eq {t u : Text} (h : Lowering t u) :
    snakeOfLower u = Text.joinWith ['_'] (nameParts t) := by
  rw [snakeOfLower, nameParts, filter_map_words rfl, filter_map_words rfl, h.map_nameChars_pieces]

theorem snake_eq (t : Text) : snake t = Text.joinWith ['_'] (nameParts t) :=
  (snake_eq_snakeOfLower t).trans (lowering_flatMap_lower t).snakeOfLower_eq

theorem CaseTable.snakeName_eq_snake (table : CaseTable) (t : Text) : table.snakeName t = snake t :=
  (table.lowering_lowercase [] t).snakeOfLower_eq.trans (snake_eq t).symm

/-! ### Laws -/

/-- Two names put together: an underscore between them, unless one of them is empty. -/
def joinNames (a b : Text) : Text :=
  if a = [] then b else if b = [] then a else a ++ '_' :: b

theorem ne_nil_of_mem_nameParts {t p : Text} (h : p ∈ nameParts t) : p ≠ [] := by
  simpa using (List.mem_filter.mp h).2

theorem joinWith_append {ps qs : List Text} (hps : ∀ p ∈ ps, p ≠ []) (hqs : ∀ q ∈ qs, q ≠ []) :
    Text.joinWith ['_'] (ps ++ qs) =
      joinNames (Text.joinWith ['_'] ps) (Text.joinWith ['_'] qs) := by
  have hne : ∀ {p : Text} (ps : List Text), p ≠ [] → Text.joinWith ['_'] (p :: ps) ≠ [] := by
    intro p ps hp
    rw [Text.joinWith_cons]
    exact List.append_ne_nil_of_left_ne_nil hp _
  cases ps with
  | nil => rfl
  | cons p ps =>
    have hp := hne ps (hps p List.mem_cons_self)
    rw [joinNames, if_neg hp]
    cases qs with
    | nil =>
      rw [List.append_nil]
      rfl
    | cons q qs =>
      rw [if_neg (hne qs (hqs q List.mem_cons_self)), List.cons_append]
      simp only [Text.joinWith_cons, List.flatMap_append, List.flatMap_cons, List.append_assoc,
        List.cons_append]

theorem nameParts_append_cons {s : Char} (hs : isBlank s = true) (a b : Text) :
    nameParts (a ++ s :: b) = nameParts a ++ nameParts b := by
  simp only [nameParts, Text.words, Text.piecesBy_append_cons hs, List.filter_append,
    List.map_append]

/-- A blank between two texts becomes an underscore between their names. -/
theorem snake_append_cons {s : Char} (hs : isBlank s = true) (a b : Text) :
    snake (a ++ s :: b) = joinNames (snake a) (snake b) := by
  rw [snake_eq, nameParts_append_cons hs, snake_eq, snake_eq]
  exact joinWith_append (fun _ => ne_nil_of_mem_nameParts) fun _ => ne_nil_of_mem_nameParts

/-- What lower case leaves of a character for a name is in lower case. -/
theorem lower_of_mem_lower {c d : Char} (hc : c ∈ lower d) (hname : isNameChar c = true) :
    lower c = [c] := by
  by_cases hdotted : d = '\u0130'
  · subst hdotted
    rcases List.mem_cons.mp hc with rfl | hc
    · rfl
    · rw [List.mem_singleton.mp hc] at hname
      exact absurd hname (by decide)
  by_cases hkelvin : d = '\u212A'
  · subst hkelvin
    rw [List.mem_singleton.mp hc]
    rfl
  rw [lower_eq_toLower hdotted hkelvin, List.mem_singleton] at hc
  refine lower_eq_self ?_ ?_ ?_
  · rw [hc, Char.isUpper_toLower_eq_false]
    exact Bool.false_ne_true
  · rintro rfl
    exact absurd hname (by decide)
  · rintro rfl
    exact absurd hname (by decide)

/-- A snake name holds name characters in lower case. -/
theorem forall_mem_snake (t : Text) : ∀ c ∈ snake t, isNameChar c = true ∧ lower c = [c] := by
  rw [snake_eq]
  refine Text.forall_mem_joinWith (List.forall_mem_singleton.mpr ⟨rfl, rfl⟩) fun p hp c hc => ?_
  obtain ⟨word, -, rfl⟩ := List.mem_map.mp (List.mem_filter.mp hp).1
  obtain ⟨hc, hname⟩ := List.mem_filter.mp hc
  obtain ⟨d, -, hd⟩ := List.mem_flatMap.mp hc
  exact ⟨hname, lower_of_mem_lower hd hname⟩

/-- Without blanks, capitals and foreign characters a text is one word, and nothing is lost. -/
theorem snake_eq_self {t : Text} (h : ∀ c ∈ t, isNameChar c = true ∧ lower c = [c]) :
    snake t = t := by
  have hpieces : Text.piecesBy isBlank t = [t] := by
    rw [Text.piecesBy_eq_splitOnP]
    exact List.splitOnP_eq_singleton fun c hc => isBlank_of_isNameChar (h c hc).1
  have hlower : t.flatMap lower = t := by
    rw [List.flatMap_congr fun c hc => (h c hc).2, List.flatMap_singleton']
  have hword : wordName t = t := by
    rw [wordName, hlower, nameChars, List.filter_eq_self]
    exact fun c hc => (h c hc).1
  rw [snake_eq, nameParts, filter_map_words rfl, hpieces, List.map_singleton, hword]
  cases t with
  | nil => rfl
  | cons c t => exact List.intercalate_singleton

/-- Only the words of a text matter for its name. -/
theorem snake_congr {a b : Text} (h : Text.words a = Text.words b) : snake a = snake b := by
  rw [snake_eq, snake_eq, nameParts, nameParts, h]

/-! ### Bindings of one name -/

namespace Tree

variable {t t' : Tree} {earlier : List Nat} {i j : Nat}

/-- A binding takes the place of those whose labels have the same words. -/
theorem not_mem_declare (hi : t.kind i = .binding) (hj : t.kind j = .binding) (hne : i ≠ j)
    (hwords : Text.words (t.block i).label = Text.words (t.block j).label) :
    i ∉ t.declare earlier j := by
  have hname : t.nameOf i = t.nameOf j := snake_congr hwords
  simp [declare, hi, hj, hname, hne]

/-- Which set-up blocks are replaced is a matter of kinds and words. -/
theorem declare_congr (h : ∀ i ∈ j :: earlier, t.kind i = t'.kind i ∧
    Text.words (t.block i).label = Text.words (t'.block i).label) :
    t.declare earlier j = t'.declare earlier j := by
  have hkind : ∀ i ∈ j :: earlier, t.kind i = t'.kind i := fun i hi => (h i hi).1
  have hname : ∀ i ∈ j :: earlier, t.nameOf i = t'.nameOf i := fun i hi => snake_congr (h i hi).2
  have hfilter : earlier.filter (fun i => !(t.kind i = .binding && t.nameOf i == t.nameOf j)) =
      earlier.filter (fun i => !(t'.kind i = .binding && t'.nameOf i == t'.nameOf j)) := by
    refine List.filter_congr fun i hi => ?_
    have hmem := List.mem_cons_of_mem j hi
    rw [hkind i hmem, hname i hmem, hname j List.mem_cons_self]
  rw [declare, declare, hkind j List.mem_cons_self, hfilter]

end Tree

/-- Whatever table lower case follows, snake names are those of the library. A snake name is its own
snake name, a blank between two texts becomes an underscore between their names, and only the words
of labels decide which binding replaces which. -/
theorem snake_joins_words (table : CaseTable) :
    (∀ t, table.snakeName t = snake t) ∧
    (∀ t, snake (snake t) = snake t) ∧
    (∀ a s b, isBlank s = true → snake (a ++ s :: b) = joinNames (snake a) (snake b)) ∧
    (∀ a b, Text.words a = Text.words b → snake a = snake b) ∧
    (∀ (t t' : Tree) earlier j, (∀ i ∈ j :: earlier, t.kind i = t'.kind i ∧
      Text.words (t.block i).label = Text.words (t'.block i).label) →
      t.declare earlier j = t'.declare earlier j) ∧
    ∀ (t : Tree) earlier i j, t.kind i = .binding → t.kind j = .binding → i ≠ j →
      Text.words (t.block i).label = Text.words (t.block j).label → i ∉ t.declare earlier j :=
  ⟨table.snakeName_eq_snake, fun t => snake_eq_self (forall_mem_snake t),
    fun a _ b hs => snake_append_cons hs a b, fun _ _ => snake_congr,
    fun _ _ _ _ => Tree.declare_congr, fun _ _ _ _ => Tree.not_mem_declare⟩

/-- The small letters of Latin capitals without accents and of Greek ones. -/
def greekLower (c : Char) : Text :=
  if 0x391 ≤ c.toNat ∧ c.toNat ≤ 0x3A9 ∧ c.toNat ≠ 0x3A2 then [Char.ofNat (c.toNat + 0x20)]
  else lower c

theorem greekLower_eq_lower {c : Char} (h : c.toNat < 0x391 ∨ isBlank c = true) :
    greekLower c = lower c := by
  simp only [isBlank, Bool.or_eq_true, Bool.and_eq_true, decide_eq_true_eq, beq_iff_eq] at h
  exact if_neg (by omega)

theorem greekLower_beyond {c : Char} (hbeyond : 128 ≤ c.toNat) (hdotted : c ≠ '\u0130')
    (hkelvin : c ≠ '\u212A') (hblank : isBlank c = false) :
    ∀ x ∈ greekLower c, 128 ≤ x.toNat ∧ isBlank x = false := by
  intro x hx
  by_cases hgreek : 0x391 ≤ c.toNat ∧ c.toNat ≤ 0x3A9 ∧ c.toNat ≠ 0x3A2
  · rw [greekLower, if_pos hgreek, List.mem_singleton] at hx
    have hn : x.toNat = c.toNat + 0x20 := by
      rw [hx, Char.toNat_ofNat, if_pos (.inl (by omega))]
    simp only [isBlank, Bool.or_eq_false_iff, Bool.and_eq_false_iff, decide_eq_false_iff_not,
      beq_eq_false_iff_ne]
    omega
  · rw [greekLower, if_neg hgreek, lower_eq_self_of_beyond hbeyond hdotted hkelvin,
      List.mem_singleton] at hx
    rw [hx]
    exact ⟨hbeyond, hblank⟩

/-- Lower case for texts in Latin letters without accents and Greek ones. -/
def CaseTable.greek : CaseTable where
  lower := greekLower
  cased c := c.isAlpha || (0x391 ≤ c.toNat && c.toNat ≤ 0x3C9)
  ignored c := "'.:^`".toList.contains c
  lower_ascii c h := by
    rw [greekLower_eq_lower (.inl (by omega)), lower_eq_toLower]
    · rintro rfl
      exact absurd h (by decide)
    · rintro rfl
      exact absurd h (by decide)
  lower_dotted := rfl
  lower_kelvin := rfl
  lower_blank c h := (greekLower_eq_lower (.inr h)).trans ((stands_lower c).blank h)
  lower_beyond _ hbeyond hdotted hkelvin hblank :=
    greekLower_beyond hbeyond hdotted hkelvin hblank

/-- A file with three bindings, two of which are named alike. -/
def threeBindings (first second third : String) : Tree :=
  let binding (label : String) : Block :=
    { kind := .binding, indent := 4, label := label.toList, line := 2 }
  ⟨#[.root, binding first, binding second, binding third]⟩

theorem snake_joins_words_sigma :
    CaseTable.greek.lowercase [] "ΣΑΣ's ΝΑΣ".toList = "σασ's νας".toList ∧
    CaseTable.greek.snakeName "Two ΣΑΣ's".toList = "two_s".toList ∧
    snake (snake "Two ΣΑΣ's".toList) = "two_s".toList ∧
    snake ("Two ΣΑΣ's".toList ++ '\u00A0' :: "ΝΑΣ n° 3".toList) = "two_s_n_3".toList ∧
    snake "Two\t words".toList = snake " Two words".toList ∧
    (threeBindings "a b" "c" " a  b").declare [1, 2] 3 =
      (threeBindings "a\tb" " c" "a b").declare [1, 2] 3 ∧
    1 ∉ (threeBindings "a b" "c" " a  b").declare [1, 2] 3 := by
  obtain ⟨hname, htwice, happend, hwords, hdeclare, hreplace⟩ :=
    snake_joins_words CaseTable.greek
  have hfirst : snake "Two ΣΑΣ's".toList = "two_s".toList := by decide +kernel
  have hsecond : snake "ΝΑΣ n° 3".toList = "n_3".toList := by decide +kernel
  refine ⟨by decide +kernel, (hname _).trans hfirst, (htwice _).trans hfirst, ?_,
    hwords _ _ (by decide +kernel), hdeclare _ _ _ _ (by decide +kernel),
    hreplace _ _ _ _ (by decide) (by decide) (by decide) (by decide +kernel)⟩
  rw [happend _ _ _ (by decide), hfirst, hsecond]
  rfl

end BlockSpec
