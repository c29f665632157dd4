import BlockSpec.Proofs.Lines
import BlockSpec.Proofs.Reading
import BlockSpec.Suite.SpecFile
import Mathlib.Data.List.Basic
import Mathlib.Data.List.Induction
import Mathlib.Data.List.TakeDrop

/-! # Where modules go

The path of a module is the output root, the names between the searched directory and the spec, and
the name of the spec with its extension replaced. Paths are cut and put together as texts, so this
takes some care; what makes it work is that a path that is open at its end, empty or with a slash
last, can be continued by a name in one way only:

    path = open part ++ name        cut path = (start, pieces of the open part ++ [name])

One name spoils this: two dots and an extension. Without its extension it is the step up, which takes
no other, and such a module has no file of its own. -/

namespace BlockSpec

/-! ### Names and open paths -/

namespace Path

/-- A name that leads into a directory or to a file. -/
structure Proper (n : Text) : Prop where
  ne_nil : n ≠ []
  ne_here : n ≠ ['.']
  ne_up : n ≠ ['.', '.']
  no_slash : '/' ∉ n

instance (n : Text) : Decidable (Proper n) :=
  decidable_of_iff (n ≠ [] ∧ n ≠ ['.'] ∧ n ≠ ['.', '.'] ∧ '/' ∉ n)
    ⟨fun ⟨h₁, h₂, h₃, h₄⟩ => ⟨h₁, h₂, h₃, h₄⟩, fun h => ⟨h.ne_nil, h.ne_here, h.ne_up, h.no_slash⟩⟩

/-- The pieces of a path that are not empty. -/
def steps (p : Path) : List Text := (Text.pieces '/' p).filter (!·.isEmpty)

/-- A path that a name can be put behind: nothing, or a slash at the end. -/
def Open (a : Path) : Prop := a = [] ∨ ∃ b, a = b ++ ['/']

/-- The pieces of an open path, without the empty one behind its last slash. -/
def lead (a : Path) : List Text := (Text.pieces '/' a).dropLast

variable {a : Path} {n m ext : Text}

theorem Proper.isIdle (h : Proper n) : isIdle n = false := by
  simp [Path.isIdle, h.ne_nil, h.ne_here]

theorem Proper.meaning (h : Proper n) : meaning n = .name n := if_neg h.ne_up

theorem pieces_open (ha : Open a) (rest : Path) :
    Text.pieces '/' (a ++ rest) = lead a ++ Text.pieces '/' rest := by
  rcases ha with rfl | ⟨b, rfl⟩
  · rfl
  · rw [lead, Text.pieces_append_cons, List.append_assoc, List.singleton_append,
      Text.pieces_append_cons]
    simp [Text.pieces, Text.piecesBy]

/-- Pieces of a class without the empty one, of an open path and what follows it. -/
theorem filter_pieces_open {f : Text → Bool} (hf : f [] = false) (ha : Open a) (rest : Path) :
    (Text.pieces '/' (a ++ rest)).filter f =
      (Text.pieces '/' a).filter f ++ (Text.pieces '/' rest).filter f := by
  have hnil : (Text.pieces '/' a).filter f = (lead a).filter f := by
    have := pieces_open ha []
    rw [List.append_nil] at this
    rw [this]
    simp [Text.pieces, Text.piecesBy, hf]
  rw [pieces_open ha, List.filter_append, hnil]

theorem steps_open (ha : Open a) (rest : Path) : steps (a ++ rest) = steps a ++ steps rest :=
  filter_pieces_open rfl ha rest

theorem steps_name (hne : n ≠ []) (hn : '/' ∉ n) : steps n = [n] := by
  rw [steps, Text.pieces_of_not_mem hn]
  simp [hne]

theorem cut_of_pieces {p : Path} {x : Text} {rest : List Text} (hp : Text.pieces '/' p = x :: rest)
    (hne : x = [] → rest ≠ []) : cut p =
      if x = [] then (some .top, rest) else if x = ['.'] then (some .here, rest)
      else (none, x :: rest) := by
  rw [cut, hp]
  split
  · rename_i heq
    obtain ⟨rfl, rfl⟩ := List.cons.inj heq
    rfl
  · rename_i heq
    obtain ⟨rfl, rfl⟩ := List.cons.inj heq
    rfl
  · rename_i hnotop hnothere
    split
    · rename_i hx
      obtain ⟨next, rest, rfl⟩ := List.exists_cons_of_ne_nil (hne hx)
      exact absurd (hx ▸ rfl) (hnotop next rest)
    · split
      · rename_i hdot
        exact absurd (hdot ▸ rfl) (hnothere rest)
      · rfl

/-- Where an open path is cut does not depend on the name that follows. -/
theorem cut_open (ha : Open a) : ∃ start pieces, ∀ n, n ≠ [] → n ≠ ['.'] → '/' ∉ n →
    cut (a ++ n) = (start, pieces ++ [n]) := by
  have hpieces : ∀ n, '/' ∉ n → Text.pieces '/' (a ++ n) = lead a ++ [n] := by
    intro n hn
    rw [pieces_open ha, Text.pieces_of_not_mem hn]
  cases hl : lead a with
  | nil =>
    refine ⟨none, [], fun n hne hdot hn => ?_⟩
    rw [cut_of_pieces (by rw [hpieces n hn, hl]; rfl) (fun h => absurd h hne), if_neg hne,
      if_neg hdot]
    rfl
  | cons x rest =>
    have hcut : ∀ n, '/' ∉ n → cut (a ++ n) = if x = [] then (some .top, rest ++ [n])
        else if x = ['.'] then (some .here, rest ++ [n]) else (none, x :: (rest ++ [n])) :=
      fun n hn => cut_of_pieces (by rw [hpieces n hn, hl]; rfl) (by simp)
    by_cases hx : x = []
    · exact ⟨some .top, rest, fun n _ _ hn => by rw [hcut n hn, if_pos hx]⟩
    · by_cases hdot : x = ['.']
      · exact ⟨some .here, rest, fun n _ _ hn => by rw [hcut n hn, if_neg hx, if_pos hdot]⟩
      · refine ⟨none, x :: rest, fun n _ _ hn => ?_⟩
        rw [hcut n hn, if_neg hx, if_neg hdot, List.cons_append]

/-- Cutting loses nothing. -/
theorem uncut_cut (p : Path) : uncut (cut p).1 (cut p).2 = p := by
  have hjoin := Text.joinWith_pieces '/' p
  rw [cut]
  split
  · rename_i next rest heq
    rw [heq, Text.joinWith, List.intercalate_cons_cons] at hjoin
    exact hjoin
  · rename_i rest heq
    rw [heq] at hjoin
    cases rest with
    | nil => exact hjoin
    | cons next rest =>
      rw [Text.joinWith, List.intercalate_cons_cons] at hjoin
      exact hjoin
  · exact hjoin

theorem components_open (ha : Open a) : ∃ front, ∀ n, n ≠ [] → n ≠ ['.'] → '/' ∉ n →
    components (a ++ n) = front ++ [meaning n] := by
  obtain ⟨start, pieces, hcut⟩ := cut_open ha
  refine ⟨start.toList ++ (pieces.filter (!isIdle ·)).map meaning, fun n hne hdot hn => ?_⟩
  have hidle : isIdle n = false := by simp [isIdle, hne, hdot]
  simp [components, hcut n hne hdot hn, List.filter_append, hidle]

theorem fileName?_open (ha : Open a) (hn : Proper n) : fileName? (a ++ n) = some n := by
  obtain ⟨front, hfront⟩ := components_open ha
  rw [fileName?, hfront n hn.ne_nil hn.ne_here hn.no_slash, hn.meaning, List.getLast?_concat]

theorem fileName?_open_up (ha : Open a) : fileName? (a ++ ['.', '.']) = none := by
  obtain ⟨front, hfront⟩ := components_open ha
  rw [fileName?, hfront ['.', '.'] (by decide) (by decide) (by decide), List.getLast?_concat]
  rfl

/-- A name behind an open path is replaced alone. -/
theorem putExtension_open (ha : Open a) (hn : Proper n) (hstem : (splitName n).1 ≠ [])
    (hslash : '/' ∉ (splitName n).1) (hext : '/' ∉ ext) :
    putExtension ext (a ++ n) = a ++ ((splitName n).1 ++ '.' :: ext) := by
  obtain ⟨start, pieces, hcut⟩ := cut_open ha
  have hidle : isIdle n = false := hn.isIdle
  have htrim : trimIdle (pieces ++ [n]) = pieces ++ [n] := by
    simp [trimIdle, hidle]
  have hdot : (splitName n).1 ++ '.' :: ext ≠ ['.'] := by
    intro h
    have hlen := congrArg List.length h
    have hpos := List.length_pos_iff.mpr hstem
    simp only [List.length_append, List.length_cons, List.length_nil] at hlen
    omega
  have hnoslash : '/' ∉ (splitName n).1 ++ '.' :: ext := by
    simp only [List.mem_append, List.mem_cons, not_or]
    exact ⟨hslash, by decide, hext⟩
  have hnew := hcut ((splitName n).1 ++ '.' :: ext) (by simp) hdot hnoslash
  have hback := uncut_cut (a ++ ((splitName n).1 ++ '.' :: ext))
  rw [hnew] at hback
  rw [putExtension, fileName?_open ha hn]
  simp only [hcut n hn.ne_nil hn.ne_here hn.no_slash, htrim, List.dropLast_concat]
  exact hback

/-! ### Extensions -/

theorem splitName_eq_some {stem : Text} (h : splitName n = (stem, some ext)) :
    n = stem ++ '.' :: ext ∧ '.' ∉ ext ∧ stem ≠ [] := by
  unfold splitName at h
  split at h
  · cases h
  · rename_i stem' ext' hne hsplit
    obtain ⟨rfl, hext⟩ := Prod.mk.inj h
    rw [Option.some.inj hext] at hsplit
    obtain ⟨hn, hdot⟩ := Text.splitAtLast?_eq_some_iff.mp hsplit
    exact ⟨hn, hdot, hne⟩
  · cases h

theorem splitName_of_dot {stem : Text} (hstem : stem ≠ []) (hext : '.' ∉ ext) :
    splitName (stem ++ '.' :: ext) = (stem, some ext) := by
  have hsplit : Text.splitAtLast? '.' (stem ++ '.' :: ext) = some (stem, ext) :=
    Text.splitAtLast?_eq_some_iff.mpr ⟨rfl, hext⟩
  unfold splitName
  rw [hsplit]
  cases stem with
  | nil => exact absurd rfl hstem
  | cons c stem => rfl

/-- A name with an extension gets another one, unless it is two dots and the extension: those become
the step up. -/
theorem withExtension_open (ha : Open a) {stem : Text} {old : Text} (hn : Proper n)
    (hsplit : splitName n = (stem, some old)) (hext : '/' ∉ ext) :
    withExtension ext (a ++ n) =
      a ++ if stem = ['.'] then ['.', '.'] else stem ++ '.' :: ext := by
  obtain ⟨rfl, hold, hstem⟩ := splitName_eq_some hsplit
  have hdrop : dropExtension (a ++ (stem ++ '.' :: old)) = a ++ (stem ++ ['.']) := by
    have hext? : extension? (a ++ (stem ++ '.' :: old)) = some old := by
      rw [extension?, fileName?_open ha hn, Option.bind_some, hsplit]
    have hshape : a ++ (stem ++ '.' :: old) = a ++ (stem ++ ['.']) ++ old := by simp
    simp only [dropExtension, hext?]
    rw [hshape, List.length_append, Nat.add_sub_cancel, List.take_left]
  rw [withExtension, hdrop]
  split
  · rename_i hdot
    rw [hdot]
    have hup : a ++ (['.'] ++ ['.']) = a ++ ['.', '.'] := rfl
    rw [hup, putExtension, fileName?_open_up ha]
  · rename_i hdot
    have hslash : '/' ∉ stem := fun h => hn.no_slash (List.mem_append_left _ h)
    have hproper : Proper (stem ++ ['.']) := by
      refine ⟨by simp, ?_, ?_, ?_⟩
      · intro h
        exact hstem (List.append_left_eq_self.mp h)
      · intro h
        exact hdot (List.append_cancel_right (show stem ++ ['.'] = ['.'] ++ ['.'] from h))
      · simp only [List.mem_append, List.mem_singleton, not_or]
        exact ⟨hslash, by decide⟩
    have hname : splitName (stem ++ ['.']) = (stem, some []) := splitName_of_dot hstem (by simp)
    rw [putExtension_open ha hproper (by rw [hname]; exact hstem) (by rw [hname]; exact hslash)
      hext, hname]

/-! ### Joining -/

/-- A path as it stands before what is joined to it. -/
def opened (p : Path) : Path :=
  if p.isEmpty || p.getLast? == some '/' then p else p ++ ['/']

theorem open_opened (p : Path) : Open (opened p) := by
  unfold opened
  split
  · rename_i h
    simp only [Bool.or_eq_true, List.isEmpty_iff, beq_iff_eq, List.getLast?_eq_some_iff] at h
    exact h
  · exact Or.inr ⟨p, rfl⟩

theorem steps_opened (p : Path) : steps (opened p) = steps p := by
  unfold opened
  split
  · rfl
  · rw [steps, Text.pieces_append_cons, List.filter_append, ← steps]
    exact List.append_nil _

theorem join_eq (p : Path) {rest : Path} (h : isAbsolute rest = false) :
    join p rest = opened p ++ rest := by
  rw [join, h, opened, if_neg (by decide)]
  split <;> simp

theorem isAbsolute_opened (p : Path) : isAbsolute (opened p) = isAbsolute p := by
  unfold opened
  split
  · rfl
  · cases p with
    | nil => rename_i h; exact absurd rfl h
    | cons c p => rfl

theorem Proper.isAbsolute_append (hn : Proper n) (rest : Text) :
    isAbsolute (n ++ rest) = false := by
  obtain ⟨c, n, rfl⟩ := List.exists_cons_of_ne_nil hn.ne_nil
  have hc : '/' ≠ c := fun h => hn.no_slash (h ▸ List.mem_cons_self)
  simp [isAbsolute, hc.symm]

/-- Names joined one after the other. -/
theorem isAbsolute_joinWith {names : List Text} (hnames : ∀ n ∈ names, Proper n) :
    isAbsolute (Text.joinWith ['/'] names) = false := by
  cases names with
  | nil => rfl
  | cons n names =>
    rw [Text.joinWith]
    cases names with
    | nil =>
      rw [List.intercalate_singleton, ← List.append_nil n]
      exact (hnames n List.mem_cons_self).isAbsolute_append []
    | cons m names =>
      rw [List.intercalate_cons_cons, List.append_assoc]
      exact (hnames n List.mem_cons_self).isAbsolute_append _

theorem opened_append (a : Path) (hn : Proper n) : opened (a ++ n) = a ++ n ++ ['/'] := by
  have hlast : (a ++ n).getLast? ≠ some '/' := by
    rw [List.getLast?_append_of_ne_nil a hn.ne_nil]
    intro h
    exact hn.no_slash (List.mem_of_getLast? h)
  refine if_neg ?_
  rw [Bool.or_eq_true, List.isEmpty_iff, beq_iff_eq, not_or]
  exact ⟨by simp [hn.ne_nil], hlast⟩

theorem opened_foldl_join {names : List Text} (hnames : ∀ n ∈ names, Proper n) (dir : Path) :
    opened (names.foldl join dir) = opened dir ++ names.flatMap (· ++ ['/']) := by
  induction names generalizing dir with
  | nil => simp
  | cons n names ih =>
    obtain ⟨hn, hnames⟩ := List.forall_mem_cons.mp hnames
    have habs : isAbsolute n = false := by simpa using hn.isAbsolute_append []
    rw [List.foldl_cons, ih hnames, join_eq dir habs, opened_append _ hn, List.flatMap_cons]
    simp

/-- The path of a file below a directory is the directory and the names down to the file. -/
theorem foldl_join_concat {names : List Text} (hnames : ∀ m ∈ names, Proper m) (hn : Proper n)
    (dir : Path) :
    (names ++ [n]).foldl join dir = opened dir ++ Text.joinWith ['/'] (names ++ [n]) := by
  have habs : isAbsolute n = false := by simpa using hn.isAbsolute_append []
  rw [List.foldl_append, List.foldl_cons, List.foldl_nil, join_eq _ habs,
    opened_foldl_join hnames, Text.joinWith_concat, List.append_assoc]

theorem foldl_join_opened {names : List Text} (hne : names ≠ []) (hnames : ∀ m ∈ names, Proper m)
    (dir : Path) : names.foldl join dir = opened dir ++ Text.joinWith ['/'] names := by
  obtain ⟨front, n, rfl⟩ := (List.eq_nil_or_concat names).resolve_left hne
  rw [List.concat_eq_append] at hnames ⊢
  obtain ⟨hfront, hn⟩ := List.forall_mem_append.mp hnames
  exact foldl_join_concat hfront (List.forall_mem_singleton.mp hn) dir

/-! ### Below a directory -/

/-- Walking the components of some pieces passes these pieces. -/
theorem walk_append (pieces rest : List Text) : ∃ left,
    walk ((pieces.filter (!isIdle ·)).map meaning) (pieces ++ rest) = some left ∧
      left.dropWhile isIdle = rest.dropWhile isIdle := by
  induction pieces with
  | nil => exact ⟨rest, by cases rest <;> rfl, rfl⟩
  | cons p pieces ih =>
    obtain ⟨left, hwalk, hleft⟩ := ih
    cases hp : isIdle p with
    | true =>
      rw [List.filter_cons_of_neg (by simp [hp])]
      cases hs : (pieces.filter (!isIdle ·)).map meaning with
      | nil =>
        rw [hs, walk] at hwalk
        refine ⟨p :: (pieces ++ rest), rfl, ?_⟩
        rw [List.dropWhile_cons, if_pos hp, Option.some.inj hwalk, hleft]
      | cons c cs =>
        refine ⟨left, ?_, hleft⟩
        rw [← hwalk, hs, List.cons_append, walk, walk, List.dropWhile_cons, if_pos hp]
    | false =>
      rw [List.filter_cons_of_pos (by simp [hp]), List.map_cons]
      refine ⟨left, ?_, hleft⟩
      rw [List.cons_append, walk, List.dropWhile_cons, if_neg (by simp [hp])]
      exact (if_pos rfl).trans hwalk

/-- Two paths that start alike: what follows in the second. -/
theorem relativeTo?_of_cut {base p : Path} {start : Option Component}
    {pieces tail rest : List Text} (hbase : cut base = (start, pieces ++ tail))
    (htail : ∀ x ∈ tail, isIdle x = true) (hp : cut p = (start, pieces ++ rest))
    (hword : start = none → ∃ x ∈ pieces, isIdle x = false) :
    relativeTo? base p =
      some (Text.joinWith ['/'] (trimIdle (rest.dropWhile isIdle))) := by
  have hfilter : (pieces ++ tail).filter (!isIdle ·) = pieces.filter (!isIdle ·) := by
    rw [List.filter_append, List.append_right_eq_self.mpr]
    rw [List.filter_eq_nil_iff]
    intro x hx
    simp [htail x hx]
  obtain ⟨left, hwalk, hleft⟩ := walk_append pieces rest
  have hcond : (decide (start = none) &&
      ((pieces.filter (!isIdle ·)).map meaning).isEmpty) = false := by
    rw [Bool.and_eq_false_iff, decide_eq_false_iff_not, List.isEmpty_map]
    by_cases hs : start = none
    · obtain ⟨x, hx, hidle⟩ := hword hs
      refine Or.inr (List.isEmpty_eq_false_iff.mpr (List.ne_nil_of_mem (a := x) ?_))
      exact List.mem_filter.mpr ⟨hx, by simp [hidle]⟩
    · exact Or.inl hs
  simp only [relativeTo?, hbase, hp, hfilter, hcond, hwalk, hleft, Option.map_some, if_true,
    Bool.false_eq_true, if_false]

/-- The pieces of a path are those in front of what is joined to it and, behind a slash, nothing. -/
theorem pieces_eq_lead_opened {p : Path} (hne : p ≠ []) : ∃ x rest tail,
    lead (opened p) = x :: rest ∧ Text.pieces '/' p = x :: (rest ++ tail) ∧
      (∀ y ∈ tail, y = []) ∧ (x = [] → rest ++ tail ≠ []) := by
  rcases open_opened p with hnil | ⟨b, hb⟩
  · unfold opened at hnil
    split at hnil
    · exact absurd hnil hne
    · simp at hnil
  · have hlead : lead (opened p) = Text.pieces '/' b := by
      rw [hb, lead, Text.pieces_append_cons]
      exact List.dropLast_concat
    obtain ⟨x, rest, hxr⟩ := List.exists_cons_of_ne_nil (Text.pieces_ne_nil '/' b)
    unfold opened at hb
    split at hb
    · refine ⟨x, rest, [[]], hlead.trans hxr, ?_, by simp, by simp⟩
      rw [hb, Text.pieces_append_cons, hxr]
      rfl
    · obtain rfl : p = b := List.append_cancel_right hb
      refine ⟨x, rest, [], hlead.trans hxr, by rw [hxr, List.append_nil], by simp, ?_⟩
      rintro rfl hrest
      rw [List.append_nil] at hrest
      have := Text.joinWith_pieces '/' p
      rw [hxr, hrest] at this
      exact hne this.symm

/-- The names down to a file can be read off its path. -/
theorem relativeTo?_below {dir : Path} (hdir : dir ≠ []) {names : List Text}
    (hnames : ∀ m ∈ names, Proper m) (hn : Proper n) :
    relativeTo? dir (opened dir ++ Text.joinWith ['/'] (names ++ [n])) =
      some (Text.joinWith ['/'] (names ++ [n])) := by
  have hall : ∀ m ∈ names ++ [n], Proper m :=
    List.forall_mem_append.mpr ⟨hnames, List.forall_mem_singleton.mpr hn⟩
  obtain ⟨x, rest, tail, hlead, hpieces, htail, hne⟩ := pieces_eq_lead_opened hdir
  have hpath : Text.pieces '/' (opened dir ++ Text.joinWith ['/'] (names ++ [n])) =
      x :: (rest ++ (names ++ [n])) := by
    rw [pieces_open (open_opened dir), hlead,
      Text.pieces_joinWith (fun m hm => (hall m hm).no_slash) (by simp)]
    rfl
  have hidle : ∀ y ∈ tail, isIdle y = true := fun y hy => by rw [htail y hy]; rfl
  have hcut := cut_of_pieces hpieces hne
  have hcut' := cut_of_pieces hpath (by simp)
  have htrim : trimIdle ((names ++ [n]).dropWhile isIdle) = names ++ [n] := by
    have hdrop : (names ++ [n]).dropWhile isIdle = names ++ [n] := by
      cases names with
      | nil => simp [hn.isIdle]
      | cons m names => simp [(hnames m List.mem_cons_self).isIdle]
    rw [hdrop]
    simp [trimIdle, hn.isIdle]
  by_cases hx : x = []
  · rw [if_pos hx] at hcut hcut'
    rw [relativeTo?_of_cut hcut hidle hcut' (by simp), htrim]
  · by_cases hdot : x = ['.']
    · rw [if_neg hx, if_pos hdot] at hcut hcut'
      rw [relativeTo?_of_cut hcut hidle hcut' (by simp), htrim]
    · rw [if_neg hx, if_neg hdot, ← List.cons_append] at hcut hcut'
      rw [relativeTo?_of_cut hcut hidle hcut'
        fun _ => ⟨x, List.mem_cons_self, by simp [isIdle, hx, hdot]⟩, htrim]

theorem cut_fst_ne_name (p : Path) (n : Text) : (cut p).1 ≠ some (.name n) := by
  unfold cut
  split <;> simp

theorem mem_pieces_of_mem_cut {p : Path} {x : Text} (h : x ∈ (cut p).2) :
    x ∈ Text.pieces '/' p := by
  unfold cut at h
  split at h
  · rename_i heq; rw [heq]; exact List.mem_cons_of_mem _ h
  · rename_i heq; rw [heq]; exact List.mem_cons_of_mem _ h
  · exact h

/-- A file name is one of the pieces of its path. -/
theorem mem_cut_of_fileName? {p : Path} (h : fileName? p = some n) :
    n ∈ (cut p).2 ∧ isIdle n = false ∧ n ≠ ['.', '.'] := by
  have hlast : Component.name n ∈ components p := by
    unfold fileName? at h
    split at h
    · rename_i hlast
      rw [← Option.some.inj h]
      exact List.mem_of_getLast? hlast
    · cases h
  rcases List.mem_append.mp hlast with hstart | hpiece
  · exact absurd (Option.mem_toList.mp hstart) (cut_fst_ne_name p n)
  · obtain ⟨x, hx, hmeaning⟩ := List.mem_map.mp hpiece
    obtain ⟨hx, hidle⟩ := List.mem_filter.mp hx
    unfold meaning at hmeaning
    split at hmeaning
    · cases hmeaning
    · rename_i hup
      obtain rfl : x = n := Component.name.inj hmeaning
      exact ⟨hx, by simpa using hidle, hup⟩

theorem proper_of_fileName? {p : Path} (h : fileName? p = some n) : Proper n := by
  obtain ⟨hmem, hidle, hup⟩ := mem_cut_of_fileName? h
  simp only [isIdle, Bool.or_eq_false_iff, List.isEmpty_eq_false_iff, beq_eq_false_iff_ne] at hidle
  exact ⟨hidle.1, hidle.2, hup, Text.not_mem_of_mem_pieces (mem_pieces_of_mem_cut hmem)⟩

/-- Below a file itself there are no names. -/
theorem relativeTo?_self {p : Path} (h : fileName? p = some n) : relativeTo? p p = some [] := by
  obtain ⟨hmem, hidle, -⟩ := mem_cut_of_fileName? h
  have hcut : cut p = ((cut p).1, (cut p).2 ++ []) := by rw [List.append_nil]
  rw [relativeTo?_of_cut hcut (by simp) hcut fun _ => ⟨n, hmem, hidle⟩]
  rfl

/-! ### Modules below the output root -/

/-- The extension of modules. -/
def moduleExtension : Text := "py".toList

/-- A name that a module can have. -/
def IsModuleName (n : Text) : Prop := Proper n ∧ (splitName n).2 = some moduleExtension

/-- The path of a module below an output root, or one that ends in the step up. -/
def IsOutput (root out : Path) : Prop := ∃ (names : List Text) (last : Text),
  (∀ m ∈ names, Proper m) ∧ (IsModuleName last ∨ last = ['.', '.']) ∧
    out = opened root ++ names.flatMap (· ++ ['/']) ++ last

theorem open_append_flatMap (ha : Open a) (names : List Text) :
    Open (a ++ names.flatMap (· ++ ['/'])) := by
  rcases List.eq_nil_or_concat' names with rfl | ⟨front, last, rfl⟩
  · simpa using ha
  · exact Or.inr ⟨a ++ front.flatMap (· ++ ['/']) ++ last, by simp⟩

/-- The file name of a path that goes on with names is the last of them. -/
theorem fileName?_foldl_join {names : List Text} {n : Text} (hnames : ∀ m ∈ names, Proper m)
    (hn : Proper n) (dir : Path) : fileName? ((names ++ [n]).foldl join dir) = some n := by
  rw [foldl_join_concat hnames hn, Text.joinWith_concat, ← List.append_assoc]
  exact fileName?_open (open_append_flatMap (open_opened dir) names) hn

theorem isModuleName_of_stem {stem : Text} (hstem : stem ≠ []) (hslash : '/' ∉ stem) :
    IsModuleName (stem ++ '.' :: moduleExtension) := by
  have hlen : 4 ≤ (stem ++ '.' :: moduleExtension).length := by
    have hpos := List.length_pos_iff.mpr hstem
    have hext : moduleExtension.length = 2 := rfl
    rw [List.length_append, List.length_cons, hext]
    omega
  refine ⟨⟨?_, ?_, ?_, ?_⟩, ?_⟩
  · intro h; rw [h] at hlen; exact absurd hlen (by decide)
  · intro h; rw [h] at hlen; exact absurd hlen (by decide)
  · intro h; rw [h] at hlen; exact absurd hlen (by decide)
  · simp only [List.mem_append, List.mem_cons, not_or]
    exact ⟨hslash, by decide, by decide⟩
  · rw [splitName_of_dot hstem (by decide)]

/-- The name of the module of a spec with the given stem. Two dots and an extension leave the step
up. -/
def moduleName (stem : Text) : Text :=
  if stem = ['.'] then ['.', '.'] else stem ++ '.' :: moduleExtension

/-- Files keep their names below the output root, with the extension of modules. -/
theorem withExtension_below {names : List Text} (hnames : ∀ m ∈ names, Proper m) {stem : Text}
    (hn : Proper n) (hsplit : splitName n = (stem, some ext)) (root : Path) :
    withExtension moduleExtension (join root (Text.joinWith ['/'] (names ++ [n]))) =
      opened root ++ Text.joinWith ['/'] (names ++ [moduleName stem]) := by
  have hall : ∀ m ∈ names ++ [n], Proper m :=
    List.forall_mem_append.mpr ⟨hnames, List.forall_mem_singleton.mpr hn⟩
  rw [join_eq root (isAbsolute_joinWith hall), Text.joinWith_concat, ← List.append_assoc,
    withExtension_open (open_append_flatMap (open_opened root) names) hn hsplit (by decide),
    Text.joinWith_concat, ← List.append_assoc]
  rfl

end Path

/-! ### Spec files -/

namespace FileSystem

/-- All names in a file system lead into a directory or to a file. -/
def ProperNames (fs : FileSystem) : Prop := ∀ l e, (l, e) ∈ fs.entries → ∀ n ∈ l, Path.Proper n

theorem append_of_below? : ∀ {l m : Location} {rest : List Text}, below? l m = some rest →
    m = l ++ rest ∧ rest ≠ []
  | [], m, rest, h => by
    unfold below? at h
    split at h
    · cases h
    · rename_i hm
      obtain rfl := Option.some.inj h
      exact ⟨rfl, by simpa using hm⟩
  | _ :: _, [], rest, h => by cases h
  | a :: l, b :: m, rest, h => by
    unfold below? at h
    split at h
    · rename_i hab
      obtain ⟨rfl, hne⟩ := append_of_below? h
      exact ⟨by rw [hab]; rfl, hne⟩
    · cases h

/-- What is found below a location has proper names from there on. -/
theorem ProperNames.of_mem_under {fs : FileSystem} (hfs : fs.ProperNames) {l : Location}
    {names : List Text} {e : Entry} (h : (names, e) ∈ fs.under l) :
    names ≠ [] ∧ ∀ n ∈ names, Path.Proper n := by
  obtain ⟨⟨m, e'⟩, hmem, hbelow⟩ := List.mem_filterMap.mp h
  obtain ⟨rest, hrest, heq⟩ := Option.map_eq_some_iff.mp hbelow
  obtain ⟨rfl, rfl⟩ := Prod.mk.inj heq
  obtain ⟨rfl, hne⟩ := append_of_below? hrest
  exact ⟨hne, fun n hn => hfs _ _ hmem n (List.mem_append_right _ hn)⟩

end FileSystem

theorem exists_of_mem_mapM {ε α β : Type} {f : α → Except ε β} : ∀ {l : List α} {bs : List β},
    l.mapM f = .ok bs → ∀ b ∈ bs, ∃ a ∈ l, f a = .ok b
  | [], bs, h, b, hb => by
    obtain rfl : [] = bs := Except.ok.inj h
    cases hb
  | a :: l, bs, h, b, hb => by
    rw [List.mapM_cons] at h
    cases ha : f a with
    | error e => rw [ha] at h; cases h
    | ok x =>
      cases hl : l.mapM f with
      | error e => rw [ha, hl] at h; cases h
      | ok xs =>
        rw [ha, hl] at h
        obtain rfl : x :: xs = bs := Except.ok.inj h
        rcases List.mem_cons.mp hb with rfl | hb
        · exact ⟨a, List.mem_cons_self, ha⟩
        · obtain ⟨a', ha', hf⟩ := exists_of_mem_mapM hl b hb
          exact ⟨a', List.mem_cons_of_mem _ ha', hf⟩

namespace SpecFile

variable {fs : FileSystem} {dir p : Path}

/-- What is collected from below a directory is reached from it by names. -/
theorem of_mem_collected (hfs : fs.ProperNames) {l : Location}
    {f : List Text × Entry → Option Path}
    (hf : ∀ names e q, f (names, e) = some q → q = names.foldl Path.join dir)
    (hp : p ∈ (fs.under l).filterMap f) : ∃ names n, (∀ m ∈ names, Path.Proper m) ∧
      Path.Proper n ∧ p = Path.opened dir ++ Text.joinWith ['/'] (names ++ [n]) := by
  obtain ⟨⟨names, e⟩, hmem, heq⟩ := List.mem_filterMap.mp hp
  obtain ⟨hne, hproper⟩ := hfs.of_mem_under hmem
  obtain ⟨names, n, rfl⟩ := (List.eq_nil_or_concat names).resolve_left hne
  rw [List.concat_eq_append] at hproper heq
  obtain ⟨hnames, hn⟩ := List.forall_mem_append.mp hproper
  have hn : Path.Proper n := List.forall_mem_singleton.mp hn
  exact ⟨names, n, hnames, hn, (hf _ _ _ heq).trans (Path.foldl_join_concat hnames hn dir)⟩

/-- Under a directory there is a file that was given in its place, alone, or what is reached from it
by names. -/
theorem filesUnder_cases (hfs : fs.ProperNames) {paths : List Path}
    (h : filesUnder fs dir = .ok paths) : paths = [dir] ∨
    dir ≠ [] ∧ ∀ p ∈ paths, ∃ names n, (∀ m ∈ names, Path.Proper m) ∧ Path.Proper n ∧
      p = Path.opened dir ++ Text.joinWith ['/'] (names ++ [n]) := by
  have hdir : dir ≠ [] := by
    rintro rfl
    cases h
  unfold filesUnder at h
  cases hfind : fs.find false dir with
  | error e => rw [hfind] at h; cases h
  | ok found =>
    rw [hfind] at h
    rcases found with ⟨l, _ | content | target⟩ | l
    · obtain rfl := Except.ok.inj h
      refine Or.inr ⟨hdir, fun p hp => of_mem_collected hfs (fun names e q hq => ?_) hp⟩
      cases e <;> cases hq
      rfl
    · obtain rfl := Except.ok.inj h
      exact Or.inl rfl
    · obtain ⟨⟨l', e⟩, -, rfl⟩ := exists_of_map_eq_ok h
      refine Or.inr ⟨hdir, fun p hp => ?_⟩
      simp only at hp
      split at hp
      · refine of_mem_collected hfs (fun names e q hq => ?_) hp
        cases e <;> cases hq
        rfl
      · cases hp
    · cases h

/-- A spec that is found is a file under its directory that has the extension of specs. -/
theorem of_mem_discover {dirs : List Path} {ext : Text} {specs : List SpecFile}
    (h : discover fs dirs ext = .ok specs) {spec : SpecFile} (hspec : spec ∈ specs) :
    spec.root ∈ dirs ∧ Path.extension? spec.path = some ext ∧
      ∃ paths, filesUnder fs spec.root = .ok paths ∧ spec.path ∈ paths := by
  obtain ⟨found, hfound, rfl⟩ := exists_of_map_eq_ok h
  obtain ⟨group, hgroup, hspec⟩ := List.mem_flatten.mp (List.mem_mergeSort.mp hspec)
  obtain ⟨dir, hdir, hunder⟩ := exists_of_mem_mapM hfound group hgroup
  unfold under at hunder
  cases hfiles : filesUnder fs dir with
  | error e => rw [hfiles] at hunder; cases hunder
  | ok paths =>
    rw [hfiles] at hunder
    obtain rfl := Except.ok.inj hunder
    obtain ⟨p, hp, rfl⟩ := List.mem_map.mp hspec
    obtain ⟨hp, hext⟩ := List.mem_filter.mp hp
    exact ⟨hdir, beq_iff_eq.mp hext, paths, hfiles, hp⟩

/-- The path of a spec from its directory on. A spec that was given itself keeps only its name. -/
def relative (s : SpecFile) : Path :=
  match Path.relativeTo? s.root s.path with
  | some (c :: rest) => c :: rest
  | _ => (Path.fileName? s.path).getD []

theorem output_eq (s : SpecFile) (root : Path) : s.output root =
    Path.withExtension Path.moduleExtension (Path.join root s.relative) := rfl

theorem relative_below {spec : SpecFile} {names : List Text} {n : Text} (hroot : spec.root ≠ [])
    (hnames : ∀ m ∈ names, Path.Proper m) (hn : Path.Proper n)
    (hpath : spec.path = Path.opened spec.root ++ Text.joinWith ['/'] (names ++ [n])) :
    spec.relative = Text.joinWith ['/'] (names ++ [n]) := by
  have hne : Text.joinWith ['/'] (names ++ [n]) ≠ [] := by
    rw [Text.joinWith_concat]
    simp [hn.ne_nil]
  have hrelative := Path.relativeTo?_below hroot hnames hn
  rw [← hpath] at hrelative
  obtain ⟨c, rest, hcons⟩ := List.exists_cons_of_ne_nil hne
  rw [relative, hrelative, hcons]

/-- The way from the directory of a spec to its file: directories, and a name that has the extension
of specs. -/
structure Route (s : SpecFile) (ext : Text) (names : List Text) (stem : Text) : Prop where
  proper_names : ∀ m ∈ names, Path.Proper m
  proper_name : Path.Proper (stem ++ '.' :: ext)
  split : Path.splitName (stem ++ '.' :: ext) = (stem, some ext)
  relative : s.relative = Text.joinWith ['/'] (names ++ [stem ++ '.' :: ext])
  extension : Path.extension? s.path = some ext

/-- Every spec that is found has its route. -/
theorem exists_route (hfs : fs.ProperNames) {dirs : List Path} {ext : Text}
    {specs : List SpecFile} (h : discover fs dirs ext = .ok specs) {spec : SpecFile}
    (hspec : spec ∈ specs) : ∃ names stem, spec.Route ext names stem := by
  obtain ⟨-, hext, paths, hfiles, hp⟩ := of_mem_discover h hspec
  have hfileName := hext
  rw [Path.extension?, Option.bind_eq_some_iff] at hfileName
  obtain ⟨n, hname, hsplit⟩ := hfileName
  obtain ⟨stem, hsplit⟩ : ∃ stem, Path.splitName n = (stem, some ext) := ⟨_, Prod.ext rfl hsplit⟩
  obtain ⟨rfl, -, -⟩ := Path.splitName_eq_some hsplit
  rcases filesUnder_cases hfs hfiles with rfl | ⟨hdir, hbelow⟩
  · have hroot : spec.path = spec.root := List.mem_singleton.mp hp
    refine ⟨[], stem, ⟨by simp, Path.proper_of_fileName? hname, hsplit, ?_, hext⟩⟩
    rw [relative, ← hroot, Path.relativeTo?_self hname, hname]
    simp [Text.joinWith]
  · obtain ⟨names, n', hnames, hn', hpath⟩ := hbelow spec.path hp
    have hlead := Path.open_append_flatMap (Path.open_opened spec.root) names
    have hshape := hpath
    rw [Text.joinWith_concat, ← List.append_assoc] at hshape
    rw [hshape, Path.fileName?_open hlead hn'] at hname
    obtain rfl := Option.some.inj hname
    exact ⟨names, stem, ⟨hnames, hn', hsplit, relative_below hdir hnames hn' hpath, hext⟩⟩

/-- The module of a spec has its route below the output root. -/
theorem Route.output_eq {spec : SpecFile} {ext : Text} {names : List Text} {stem : Text}
    (h : spec.Route ext names stem) (root : Path) : spec.output root =
      Path.opened root ++ Text.joinWith ['/'] (names ++ [Path.moduleName stem]) := by
  rw [SpecFile.output_eq, h.relative, Path.withExtension_below h.proper_names h.proper_name h.split]

theorem Route.isOutput {spec : SpecFile} {ext : Text} {names : List Text} {stem : Text}
    (h : spec.Route ext names stem) (root : Path) : Path.IsOutput root (spec.output root) := by
  refine ⟨names, Path.moduleName stem, h.proper_names, ?_, ?_⟩
  · obtain ⟨-, -, hstem⟩ := Path.splitName_eq_some h.split
    have hslash : '/' ∉ stem := fun hmem => h.proper_name.no_slash (List.mem_append_left _ hmem)
    unfold Path.moduleName
    split
    · exact Or.inr rfl
    · exact Or.inl (Path.isModuleName_of_stem hstem hslash)
  · rw [h.output_eq, Text.joinWith_concat, List.append_assoc]

/-- Every spec that is found has its module below the output root, or nowhere. -/
theorem isOutput_of_mem_discover (hfs : fs.ProperNames) {dirs : List Path} {ext : Text}
    {specs : List SpecFile} (h : discover fs dirs ext = .ok specs) {spec : SpecFile}
    (hspec : spec ∈ specs) (root : Path) : Path.IsOutput root (spec.output root) := by
  obtain ⟨names, stem, hroute⟩ := exists_route hfs h hspec
  exact hroute.isOutput root

end SpecFile

end BlockSpec
