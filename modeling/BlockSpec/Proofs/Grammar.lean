import BlockSpec.Header
import BlockSpec.Layout
import Mathlib.Data.List.DropRight
import Mathlib.Data.List.TakeDrop
import Mathlib.Data.List.TakeWhile
import Mathlib.Order.WellFounded

/-! # The grammar of headers

A line is a header when it can be written in these parts:

    indent  keyword  separator  ["]  label  ["]  [args]  [)]  :  rest

The label holds no quote, arguments hold no closing parenthesis, and the rest of the line is code.
Many lines can be written so in more than one way, since quotes, parentheses and colons may stand
in the label, in the arguments and in the code. One of these ways is chosen: an opening quote is
taken whenever one follows the separator, and then the label is as short as it can be. All else is
determined by that, so the choice is unique, and it is what reading the line gives. -/

namespace BlockSpec

theorem Text.trim_infix (t : Text) : trim t <:+: t := by
  have hend : trim t <+: trimStart t := List.rdropWhile_prefix _ _
  have hstart : trimStart t <:+ t := List.dropWhile_suffix _
  exact hend.isInfix.trans hstart.isInfix

namespace Header

/-- A character that is there or not. -/
def optional (c : Char) (there : Bool) : Text := if there then [c] else []

/-- A list of arguments as it is written: an optional blank, and text between parentheses. -/
@[ext] structure Arguments where
  gap : Option Char
  inside : Text
  gap_blank : ∀ c ∈ gap, isBlank c = true
  inside_open : ')' ∉ inside

namespace Arguments

def text (a : Arguments) : Text := a.gap.toList ++ '(' :: (a.inside ++ [')'])

/-- The parameters that arguments give: no parentheses in front, no blanks around. -/
def params (a : Arguments) : Option Text :=
  let core := Text.trim (a.inside.dropWhile (· == '('))
  if core.isEmpty then none else some core

end Arguments

/-- What follows the label of a header. -/
@[ext] structure Ending where
  /-- Whether a closing quote comes first. -/
  closing : Bool
  args : Option Arguments
  /-- Whether a closing parenthesis stands before the colon. -/
  paren : Bool
  /-- Everything behind the colon. -/
  rest : Text

namespace Ending

/-- A header's end without arguments. -/
def bare (paren : Bool) (rest : Text) : Text := optional ')' paren ++ ':' :: rest

/-- What follows the closing quote. -/
def unquoted (e : Ending) : Text := (e.args.map Arguments.text).getD [] ++ bare e.paren e.rest

def text (e : Ending) : Text := optional '"' e.closing ++ e.unquoted

/-- The code behind the colon, less one blank in front. -/
def code (e : Ending) : Option Text :=
  if Text.allBlank (skipBlank e.rest) then none else some (skipBlank e.rest)

end Ending

/-- A header line in its parts. -/
@[ext] structure Parts where
  indent : Text
  kind : Kind
  separator : Char
  /-- Whether an opening quote is taken. -/
  opening : Bool
  label : Text
  ending : Ending
  indent_blank : ∀ c ∈ indent, isBlank c = true
  kind_openable : kind ∈ Kind.openable
  separator_fits : isBlank separator = true ∨ separator = '('
  label_plain : '"' ∉ label

namespace Parts

/-- What follows the separator. -/
def tail (x : Parts) : Text := optional '"' x.opening ++ (x.label ++ x.ending.text)

def text (x : Parts) : Text := x.indent ++ (x.kind.keyword.toList ++ x.separator :: x.tail)

/-- The header that the parts make. -/
def header (x : Parts) : Header where
  indent := x.indent.length
  kind := x.kind
  label := x.label
  args := x.ending.args.bind Arguments.params
  code := x.ending.code

/-- The way that is chosen among all ways of writing a line. -/
structure Chosen (x : Parts) : Prop where
  takes_quote : x.tail.head? = some '"' → x.opening = true
  shortest : ∀ y : Parts, y.text = x.text → y.opening = x.opening →
    x.label.length ≤ y.label.length

end Parts

variable {t inside after code : Text} {c : Char} {e e' : Ending}

/-! ### Optional characters -/

theorem skipChar_optional {there : Bool} (h : there = false → t.head? ≠ some c) :
    skipChar c (optional c there ++ t) = t := by
  cases there with
  | true => simp [optional, skipChar]
  | false =>
    cases t with
    | nil => rfl
    | cons d t =>
      have hd : d ≠ c := by simpa using h rfl
      simp [optional, skipChar, hd]

theorem exists_optional (c : Char) (t : Text) : ∃ there, t = optional c there ++ skipChar c t := by
  cases t with
  | nil => exact ⟨false, rfl⟩
  | cons d t =>
    by_cases hd : d = c
    · exact ⟨true, by simp [optional, skipChar, hd]⟩
    · exact ⟨false, by simp [optional, skipChar, hd]⟩

/-! ### Arguments -/

theorem skipBlank_arguments (a : Arguments) (t : Text) :
    skipBlank (a.text ++ t) = '(' :: (a.inside ++ ')' :: t) := by
  have hopen : isBlank '(' = false := by decide
  cases hgap : a.gap with
  | none => simp [Arguments.text, hgap, skipBlank, hopen]
  | some c => simp [Arguments.text, hgap, skipBlank, a.gap_blank c hgap]

/-- A text is cut at its first closing parenthesis. -/
theorem span_paren (h : ')' ∉ inside) (t : Text) :
    (inside ++ ')' :: t).span (· != ')') = (inside, ')' :: t) := by
  have hall : ∀ c ∈ inside, (c != ')') = true := by
    intro c hc
    rw [bne_iff_ne]
    rintro rfl
    exact h hc
  rw [List.span_eq_takeWhile_dropWhile, List.takeWhile_append_of_pos hall,
    List.dropWhile_append_of_pos hall]
  simp

theorem arguments?_text (a : Arguments) (t : Text) :
    arguments? (a.text ++ t) = some (a.inside, t) := by
  rw [arguments?, skipBlank_arguments]
  simp only [span_paren a.inside_open]

theorem exists_of_arguments? (h : arguments? t = some (inside, after)) :
    ∃ a : Arguments, t = a.text ++ after ∧ a.inside = inside := by
  have hgap : ∃ gap : Option Char,
      (∀ c ∈ gap, isBlank c = true) ∧ t = gap.toList ++ skipBlank t := by
    cases t with
    | nil => exact ⟨none, by simp, rfl⟩
    | cons d t =>
      by_cases hd : isBlank d = true
      · exact ⟨some d, by simp [hd], by simp [skipBlank, hd]⟩
      · exact ⟨none, by simp, by simp [skipBlank, hd]⟩
  obtain ⟨gap, hblank, ht⟩ := hgap
  unfold arguments? at h
  split at h
  · rename_i rest hskip
    have hsplit := List.takeWhile_append_dropWhile (p := (· != ')')) (l := rest)
    rw [List.span_eq_takeWhile_dropWhile] at h
    cases hdrop : rest.dropWhile (· != ')') with
    | nil => simp [hdrop] at h
    | cons d rest' =>
      have hd : d = ')' := by
        have hhead := List.head?_dropWhile_not (· != ')') rest
        rw [hdrop] at hhead
        simpa using hhead
      rw [hdrop] at h
      obtain ⟨rfl, rfl⟩ := Prod.mk.inj (Option.some.inj h)
      have hopen : ')' ∉ rest.takeWhile (· != ')') := by
        intro hmem
        simpa using List.mem_takeWhile_imp hmem
      have hrest : rest = rest.takeWhile (· != ')') ++ ')' :: rest' := by
        rw [hd] at hdrop
        rw [← hdrop, hsplit]
      refine ⟨⟨gap, _, hblank, hopen⟩, ?_, rfl⟩
      rw [ht, hskip, Arguments.text, List.append_assoc, List.cons_append, List.append_assoc,
        List.singleton_append, ← hrest]
  · cases h

/-- Arguments are cleaned of what they are written with. -/
theorem cleanArgs_inside (a : Arguments) : cleanArgs a.inside = a.params := by
  have hstart : Text.trimStart ('(' :: (a.inside ++ [')'])) = '(' :: (a.inside ++ [')']) := rfl
  have hend : Text.trimEnd ('(' :: (a.inside ++ [')'])) = '(' :: (a.inside ++ [')']) := by
    have hclose : isBlank ')' = false := by decide
    simp [Text.trimEnd, hclose]
  have hdrop : ('(' :: (a.inside ++ [')'])).dropWhile (· == '(') =
      a.inside.dropWhile (· == '(') ++ [')'] := by
    rw [List.dropWhile_cons_of_pos (by decide), List.dropWhile_append]
    split
    · rename_i hempty
      rw [List.isEmpty_iff.mp hempty]
      rfl
    · rfl
  have hcore : Text.dropTrailing ')' (a.inside.dropWhile (· == '(') ++ [')']) =
      a.inside.dropWhile (· == '(') := by
    have hopen : ')' ∉ a.inside.dropWhile (· == '(') := fun hmem =>
      a.inside_open ((List.dropWhile_sublist _).mem hmem)
    have hkeep : ((a.inside.dropWhile (· == '(')).reverse).dropWhile (· == ')') =
        (a.inside.dropWhile (· == '(')).reverse := by
      rw [List.dropWhile_eq_self_iff]
      intro hpos hhead
      have hmem := List.getElem_mem hpos
      rw [beq_iff_eq.mp hhead, List.mem_reverse] at hmem
      exact hopen hmem
    rw [Text.dropTrailing, List.reverse_append, List.reverse_singleton, List.singleton_append,
      List.dropWhile_cons_of_pos (by decide), hkeep, List.reverse_reverse]
  have htrim : Text.trim ('(' :: (a.inside ++ [')'])) = '(' :: (a.inside ++ [')']) := by
    rw [Text.trim, hstart, hend]
  rw [cleanArgs, htrim, hdrop, hcore]
  rfl

/-! ### What follows a label -/

theorem code?_bare {rest : Text} (hrest : '\n' ∉ rest) (paren : Bool) :
    code? (Ending.bare paren rest) = some (skipBlank rest) := by
  have hskip : '\n' ∉ skipBlank rest := by
    cases rest with
    | nil => exact hrest
    | cons d rest =>
      rw [skipBlank]
      split
      · exact fun hmem => hrest (List.mem_cons_of_mem _ hmem)
      · exact hrest
  rw [code?, Ending.bare, skipChar_optional fun _ => by simp]
  simp [hskip]

theorem exists_of_code? (h : code? t = some code) : ∃ paren rest, t = Ending.bare paren rest := by
  obtain ⟨paren, ht⟩ := exists_optional ')' t
  unfold code? at h
  split at h
  · rename_i rest hskip
    exact ⟨paren, rest, by rw [ht, hskip]; rfl⟩
  · cases h

theorem arguments?_bare (paren : Bool) (rest : Text) :
    arguments? (Ending.bare paren rest) = none := by
  cases paren <;> rfl

namespace Ending

theorem unquoted_head_ne (e : Ending) : e.unquoted.head? ≠ some '"' := by
  have hblank : ∀ d, isBlank d = true → d ≠ '"' := by
    rintro d hd rfl
    exact absurd hd (by decide)
  unfold unquoted
  cases hargs : e.args with
  | none => cases e.paren <;> simp [bare, optional]
  | some a =>
    cases hgap : a.gap with
    | none => simp [Arguments.text, hgap]
    | some d => simpa [Arguments.text, hgap] using hblank d (a.gap_blank d hgap)

/-- Arguments are read whenever they are there. -/
theorem arguments?_unquoted (e : Ending) :
    arguments? e.unquoted = e.args.map fun a => (a.inside, bare e.paren e.rest) := by
  unfold unquoted
  cases e.args with
  | none => exact arguments?_bare e.paren e.rest
  | some a => exact arguments?_text a _

/-- A closing quote is skipped if it is there, and nothing else is. -/
theorem skipChar_text (e : Ending) : skipChar '"' e.text = e.unquoted :=
  skipChar_optional fun _ => e.unquoted_head_ne

theorem rest_subset (e : Ending) : ∀ c ∈ e.rest, c ∈ e.text := by
  intro c hc
  simp [text, unquoted, bare, hc]

end Ending

/-- What follows a label is read in its parts. -/
theorem ending?_text (e : Ending) (h : '\n' ∉ e.rest) :
    ending? e.text = some (e.args.map (·.inside), skipBlank e.rest) := by
  have hcode := code?_bare h e.paren
  simp only [ending?, e.skipChar_text, e.arguments?_unquoted]
  cases hargs : e.args with
  | none => simp [Ending.unquoted, hargs, hcode]
  | some a => simp [hcode]

/-- What can be read behind a label has these parts. -/
theorem exists_of_ending? {f : Option Text × Text} (h : ending? t = some f) :
    ∃ e : Ending, e.text = t := by
  obtain ⟨closing, ht⟩ := exists_optional '"' t
  have hplain : ∀ {g : Option Text × Text},
      (code? (skipChar '"' t)).map (fun code => (none, code)) = some g →
        ∃ e : Ending, e.text = t := by
    intro g hg
    obtain ⟨code, hcode, -⟩ := Option.map_eq_some_iff.mp hg
    obtain ⟨paren, rest, hrest⟩ := exists_of_code? hcode
    exact ⟨⟨closing, none, paren, rest⟩, by rw [ht, hrest]; rfl⟩
  unfold ending? at h
  simp only at h
  split at h
  · exact hplain h
  · rename_i inside after hargs
    obtain ⟨a, ha, -⟩ := exists_of_arguments? hargs
    split at h
    · rename_i code hcode
      obtain ⟨paren, rest, hrest⟩ := exists_of_code? hcode
      exact ⟨⟨closing, some a, paren, rest⟩, by rw [ht, ha, hrest]; rfl⟩
    · exact hplain h

namespace Ending

theorem bare_inj {paren paren' : Bool} {rest rest' : Text}
    (h : bare paren rest = bare paren' rest') : paren = paren' ∧ rest = rest' := by
  cases paren <;> cases paren' <;> simp_all [bare, optional]

theorem text_injective : Function.Injective text := by
  intro e e' h
  have hunquoted : e.unquoted = e'.unquoted := by
    rw [← e.skipChar_text, ← e'.skipChar_text, h]
  have hclosing : e.closing = e'.closing := by
    rw [text, text, hunquoted] at h
    have hquote := List.append_cancel_right h
    cases hc : e.closing <;> cases hc' : e'.closing <;> simp [hc, hc', optional] at hquote ⊢
  have hread := congrArg arguments? hunquoted
  rw [arguments?_unquoted, arguments?_unquoted] at hread
  cases hargs : e.args with
  | none =>
    have hargs' : e'.args = none := by simpa [hargs] using hread.symm
    simp only [unquoted, hargs, hargs'] at hunquoted
    obtain ⟨hparen, hrest⟩ := bare_inj (List.append_cancel_left hunquoted)
    exact Ending.ext hclosing (hargs.trans hargs'.symm) hparen hrest
  | some a =>
    cases hargs' : e'.args with
    | none => simp [hargs, hargs'] at hread
    | some a' =>
      obtain ⟨hinside, hbare⟩ : a.inside = a'.inside ∧
          bare e.paren e.rest = bare e'.paren e'.rest := by simpa [hargs, hargs'] using hread
      simp only [unquoted, hargs, hargs', hbare] at hunquoted
      have htext : a.text = a'.text := List.append_cancel_right hunquoted
      rw [Arguments.text, Arguments.text, hinside] at htext
      have hgap : a.gap = a'.gap := by
        have := List.append_cancel_right htext
        cases hg : a.gap <;> cases hg' : a'.gap <;> simp [hg, hg'] at this ⊢
        exact this
      obtain ⟨hparen, hrest⟩ := bare_inj hbare
      have haa : a = a' := Arguments.ext hgap hinside
      exact Ending.ext hclosing (by rw [hargs, hargs', haa]) hparen hrest

end Ending

/-! ### Labels -/

/-- What is found behind a label. -/
def Ending.found (e : Ending) : Option Text × Text := (e.args.map (·.inside), skipBlank e.rest)

/-- The shortest label is the one that is read. -/
theorem labelled?_of_shortest : ∀ {label : Text} {e : Ending}, '"' ∉ label →
    '\n' ∉ label ++ e.text → (∀ (label' : Text) (e' : Ending), '"' ∉ label' →
      label' ++ e'.text = label ++ e.text → label.length ≤ label'.length) →
    labelled? (label ++ e.text) = some (label, e.found)
  | [], e, _, hline, _ => by
    have hread := ending?_text e fun hmem => hline (e.rest_subset _ hmem)
    rw [List.nil_append]
    cases htext : e.text with
    | nil => simp [Ending.text, Ending.unquoted, Ending.bare] at htext
    | cons c t => rw [labelled?, ← htext, hread]; rfl
  | c :: label, e, hquote, hline, hshort => by
    obtain ⟨hc, hlabel⟩ : '"' ≠ c ∧ '"' ∉ label := by simpa using hquote
    have hnone : ending? (c :: (label ++ e.text)) = none := by
      cases hread : ending? (c :: (label ++ e.text)) with
      | none => rfl
      | some f =>
        obtain ⟨e', he'⟩ := exists_of_ending? hread
        exact absurd (hshort [] e' List.not_mem_nil he') (Nat.not_succ_le_zero _)
    have hrest : labelled? (label ++ e.text) = some (label, e.found) := by
      refine labelled?_of_shortest hlabel (fun hmem => hline (List.mem_cons_of_mem _ hmem)) ?_
      intro label' e' hlabel' htext
      have hquote : '"' ∉ c :: label' := List.not_mem_cons_of_ne_of_not_mem hc hlabel'
      exact Nat.le_of_succ_le_succ (hshort (c :: label') e' hquote (congrArg (c :: ·) htext))
    rw [List.cons_append, labelled?, hnone]
    simp [Ne.symm hc, hrest]

/-- What is read as a label is one, and has an end behind it. -/
theorem exists_of_labelled? : ∀ {t : Text} {f : Text × Option Text × Text},
    labelled? t = some f → ∃ e : Ending, '"' ∉ f.1 ∧ f.1 ++ e.text = t
  | [], f, h => by simp [labelled?, ending?, code?, arguments?, skipChar, skipBlank] at h
  | c :: t, f, h => by
    rw [labelled?] at h
    split at h
    · rename_i found hread
      obtain ⟨e, he⟩ := exists_of_ending? hread
      obtain rfl := Option.some.inj h
      exact ⟨e, List.not_mem_nil, he⟩
    · split at h
      · cases h
      · rename_i hc
        obtain ⟨g, hg, rfl⟩ := Option.map_eq_some_iff.mp h
        obtain ⟨e, hquote, he⟩ := exists_of_labelled? hg
        exact ⟨e, List.not_mem_cons_of_ne_of_not_mem (Ne.symm hc) hquote, congrArg (c :: ·) he⟩

/-! ### Keywords -/

theorem eq_append_of_stripStart? : ∀ {start t rest : Text},
    Text.stripStart? start t = some rest → t = start ++ rest
  | [], t, rest, h => Option.some.inj h
  | p :: start, [], rest, h => by cases h
  | p :: start, c :: t, rest, h => by
    rw [Text.stripStart?] at h
    split at h
    · rename_i hpc
      rw [hpc, eq_append_of_stripStart? h]
      rfl
    · cases h

theorem keyword?_append {kind : Kind} {sep : Char} (hkind : kind ∈ Kind.openable)
    (hsep : isBlank sep = true ∨ sep = '(') (rest : Text) :
    keyword? (kind.keyword.toList ++ sep :: rest) = some (kind, rest) := by
  cases kind with
  | group => exact absurd hkind (by decide)
  | describe | context | before | after | binding | test =>
    simp [keyword?, Kind.openable, Kind.keyword, Text.stripStart?, hsep]

theorem exists_of_keyword? {kind : Kind} {rest : Text} (h : keyword? t = some (kind, rest)) :
    ∃ sep, kind ∈ Kind.openable ∧ (isBlank sep = true ∨ sep = '(') ∧
      t = kind.keyword.toList ++ sep :: rest := by
  obtain ⟨k, hk, hfound⟩ := List.exists_of_findSome?_eq_some h
  split at hfound
  · rename_i sep after hstrip
    split at hfound
    · rename_i hfits
      obtain ⟨rfl, rfl⟩ := Prod.mk.inj (Option.some.inj hfound)
      exact ⟨sep, hk, by simpa using hfits, eq_append_of_stripStart? hstrip⟩
    · cases hfound
  · cases hfound

/-! ### Whole lines -/

namespace Parts

variable {x y : Parts}

/-- The indentation of a header ends where its keyword starts. -/
theorem cut_text (x : Parts) : x.text.takeWhile isBlank = x.indent ∧
    Text.trimStart x.text = x.kind.keyword.toList ++ x.separator :: x.tail := by
  have hall : ∀ k ∈ Kind.openable, k.keyword.toList.head?.map isBlank = some false := by decide
  obtain ⟨d, hhead, hd⟩ := Option.map_eq_some_iff.mp (hall _ x.kind_openable)
  obtain ⟨word, hword⟩ := List.head?_eq_some_iff.mp hhead
  rw [text, Text.trimStart, List.takeWhile_append_of_pos x.indent_blank,
    List.dropWhile_append_of_pos x.indent_blank, hword, List.cons_append,
    List.takeWhile_cons_of_neg (by simp [hd]), List.dropWhile_cons_of_neg (by simp [hd])]
  exact ⟨List.append_nil _, rfl⟩

/-- Up to the separator a line can be written in one way only. -/
theorem congr_text (h : x.text = y.text) :
    x.indent = y.indent ∧ x.kind = y.kind ∧ x.separator = y.separator ∧ x.tail = y.tail := by
  have hindent : x.indent = y.indent := by rw [← x.cut_text.1, h, y.cut_text.1]
  have hrest := congrArg Text.trimStart h
  rw [x.cut_text.2, y.cut_text.2] at hrest
  have hkey := congrArg keyword? hrest
  rw [keyword?_append x.kind_openable x.separator_fits,
    keyword?_append y.kind_openable y.separator_fits] at hkey
  obtain ⟨hkind, htail⟩ := Prod.mk.inj (Option.some.inj hkey)
  rw [hkind, htail] at hrest
  exact ⟨hindent, hkind, (List.cons.inj (List.append_cancel_left hrest)).1, htail⟩

theorem opening_eq (hx : x.tail.head? = some '"' → x.opening = true)
    (hy : y.tail.head? = some '"' → y.opening = true) (h : x.tail = y.tail) :
    x.opening = y.opening := by
  have htrue : ∀ z : Parts, z.opening = true → z.tail.head? = some '"' := by
    intro z hz
    simp [tail, hz, optional]
  rw [Bool.eq_iff_iff]
  exact ⟨fun hopen => hy (h ▸ htrue x hopen), fun hopen => hx (h ▸ htrue y hopen)⟩

/-- A closing quote that nothing opens can be taken as the opening one. -/
theorem exists_takes_quote (x : Parts) :
    ∃ y : Parts, y.text = x.text ∧ (y.tail.head? = some '"' → y.opening = true) := by
  by_cases hopen : x.opening = true
  · exact ⟨x, rfl, fun _ => hopen⟩
  · by_cases hhead : x.tail.head? = some '"'
    · have htail : x.tail = x.label ++ x.ending.text := by simp [tail, hopen, optional]
      have hlabel : x.label = [] := by
        cases hl : x.label with
        | nil => rfl
        | cons d label =>
          rw [htail, hl] at hhead
          have hquote := x.label_plain
          rw [hl, ← Option.some.inj hhead] at hquote
          exact absurd List.mem_cons_self hquote
      have hclosing : x.ending.closing = true := by
        by_contra hclosing
        rw [htail, hlabel, List.nil_append, Ending.text, optional, if_neg hclosing] at hhead
        exact x.ending.unquoted_head_ne hhead
      refine ⟨{ x with opening := true, ending := { x.ending with closing := false } }, ?_,
        fun _ => rfl⟩
      simp [text, tail, hopen, hlabel, Ending.text, hclosing, optional, Ending.unquoted]
    · exact ⟨x, rfl, fun h => absurd h hhead⟩

/-- Of the ways of writing a line one is chosen. -/
theorem exists_chosen (x : Parts) : ∃ y : Parts, y.text = x.text ∧ y.Chosen := by
  obtain ⟨y, ⟨htext, hquote⟩, hmin⟩ := WellFounded.has_min
    (InvImage.wf (fun y : Parts => y.label.length) Nat.lt_wfRel.wf)
    { y | y.text = x.text ∧ (y.tail.head? = some '"' → y.opening = true) } x.exists_takes_quote
  refine ⟨y, htext, hquote, fun z hz hopen => Nat.le_of_not_lt fun hlt => ?_⟩
  refine hmin z ⟨hz.trans htext, fun hhead => ?_⟩ hlt
  rw [(congr_text hz).2.2.2] at hhead
  rw [hopen]
  exact hquote hhead

/-- No two ways are. -/
theorem Chosen.unique (hx : x.Chosen) (hy : y.Chosen) (h : x.text = y.text) : x = y := by
  obtain ⟨hindent, hkind, hseparator, htail⟩ := congr_text h
  have hopening := opening_eq hx.takes_quote hy.takes_quote htail
  have hlength : x.label.length = y.label.length :=
    Nat.le_antisymm (hx.shortest y h.symm hopening.symm) (hy.shortest x h hopening)
  rw [tail, tail, hopening] at htail
  obtain ⟨hlabel, hending⟩ := List.append_inj (List.append_cancel_left htail) hlength
  exact Parts.ext hindent hkind hseparator hopening hlabel (Ending.text_injective hending)

/-- No shorter label leaves a header's end behind it. -/
theorem Chosen.length_label_le (hx : x.Chosen) {label : Text} {e : Ending} (hlabel : '"' ∉ label)
    (h : label ++ e.text = x.label ++ x.ending.text) : x.label.length ≤ label.length := by
  refine hx.shortest { x with label := label, ending := e, label_plain := hlabel } ?_ rfl
  simp only [text, tail, h]

/-- The way that is chosen is the one that is read, whatever blanks stand in front. -/
theorem Chosen.parse?_of_tail (hx : x.Chosen) (hline : '\n' ∉ x.tail) :
    parse? x.text = some x.header := by
  have hskip : skipChar '"' x.tail = x.label ++ x.ending.text := by
    refine skipChar_optional fun hopen hhead => ?_
    have htail : x.tail = x.label ++ x.ending.text := by simp [tail, hopen, optional]
    rw [← htail] at hhead
    exact absurd (hx.takes_quote hhead) (by simp [hopen])
  have hlabelled : labelled? (x.label ++ x.ending.text) = some (x.label, x.ending.found) :=
    labelled?_of_shortest x.label_plain (fun hmem => hline (List.mem_append_right _ hmem))
      fun _ _ hlabel htext => hx.length_label_le hlabel htext
  have hargs :
      (x.ending.args.map (·.inside)).bind cleanArgs = x.ending.args.bind Arguments.params := by
    cases x.ending.args with
    | none => rfl
    | some a => rw [Option.map_some, Option.bind_some, Option.bind_some, cleanArgs_inside]
  rw [parse?, x.cut_text.2, keyword?_append x.kind_openable x.separator_fits]
  simp only [hskip, hlabelled, Option.map_some, x.cut_text.1, Ending.found, hargs]
  rfl

/-- The way that is chosen is the one that is read. -/
theorem Chosen.parse?_text (hx : x.Chosen) (hline : '\n' ∉ x.text) :
    parse? x.text = some x.header := by
  refine hx.parse?_of_tail fun hmem => hline ?_
  simp only [text, List.mem_append, List.mem_cons]
  exact .inr (.inr (.inr hmem))

end Parts

/-- What is read as a header can be written in parts. -/
theorem exists_parts {line : Text} {h : Header} (hread : parse? line = some h) :
    ∃ x : Parts, x.text = line := by
  unfold parse? at hread
  split at hread
  · cases hread
  · rename_i kind rest hkey
    obtain ⟨sep, hkind, hsep, htrim⟩ := exists_of_keyword? hkey
    obtain ⟨found, hlabelled, -⟩ := Option.map_eq_some_iff.mp hread
    obtain ⟨e, hquote, htext⟩ := exists_of_labelled? hlabelled
    obtain ⟨opening, hopening⟩ := exists_optional '"' rest
    refine ⟨⟨line.takeWhile isBlank, kind, sep, opening, found.1, e,
      fun c hc => List.mem_takeWhile_imp hc, hkind, hsep, hquote⟩, ?_⟩
    rw [Parts.text, Parts.tail, htext, ← hopening, ← htrim]
    exact List.takeWhile_append_dropWhile

/-- What is read as a header is what the chosen parts make. -/
theorem exists_chosen_of_parse? {line : Text} {h : Header} (hline : '\n' ∉ line)
    (hread : parse? line = some h) : ∃ x : Parts, x.text = line ∧ x.Chosen ∧ x.header = h := by
  obtain ⟨x, rfl⟩ := exists_parts hread
  obtain ⟨y, hy, hchosen⟩ := x.exists_chosen
  rw [← hy] at hline hread ⊢
  rw [hchosen.parse?_text hline] at hread
  exact ⟨y, rfl, hchosen, Option.some.inj hread⟩

/-- A line is read as a header exactly when it can be written in parts, and then in the one way that
is chosen. -/
theorem parse?_reads_chosen {line : Text} (hline : '\n' ∉ line) :
    ((parse? line).isSome = true ↔ ∃ x : Parts, x.text = line) ∧
    ((∃ x : Parts, x.text = line) → ∃! x : Parts, x.text = line ∧ x.Chosen) ∧
    ∀ x : Parts, x.text = line → x.Chosen →
      parse? line = some x.header ∧ x.header.indent = indentWidth line := by
  have hreads : ∀ x : Parts, x.text = line → x.Chosen → parse? line = some x.header := by
    rintro x rfl hx
    exact hx.parse?_text hline
  refine ⟨⟨fun hsome => ?_, ?_⟩, ?_, fun x hx hchosen => ⟨hreads x hx hchosen, ?_⟩⟩
  · obtain ⟨h, hread⟩ := Option.isSome_iff_exists.mp hsome
    exact exists_parts hread
  · rintro ⟨x, rfl⟩
    obtain ⟨y, hy, hchosen⟩ := x.exists_chosen
    rw [hreads y hy hchosen]
    rfl
  · rintro ⟨x, rfl⟩
    obtain ⟨y, hy, hchosen⟩ := x.exists_chosen
    exact ⟨y, ⟨hy, hchosen⟩, fun z ⟨hz, hchosen'⟩ => hchosen'.unique hchosen (hz.trans hy.symm)⟩
  · rw [indentWidth, ← hx, x.cut_text.1]
    rfl

/-- Parentheses in a quoted label, parentheses around the whole, and a quote in the code. -/
theorem parse?_reads_chosen_nested :
    '\n' ∉ "    it(\"reads (it)\" ((mock, fs)): assert d == [\"a\"]".toList ∧
    parse? "    it(\"reads (it)\" ((mock, fs)): assert d == [\"a\"]".toList =
      some ⟨4, .test, "reads (it)".toList, some "mock, fs".toList,
        some "assert d == [\"a\"]".toList⟩ ∧
    ∃! x : Parts, x.text = "    it(\"reads (it)\" ((mock, fs)): assert d == [\"a\"]".toList ∧
      x.Chosen := by
  have hline : '\n' ∉ "    it(\"reads (it)\" ((mock, fs)): assert d == [\"a\"]".toList := by decide
  have hread : parse? "    it(\"reads (it)\" ((mock, fs)): assert d == [\"a\"]".toList =
      some ⟨4, .test, "reads (it)".toList, some "mock, fs".toList,
        some "assert d == [\"a\"]".toList⟩ := by decide +kernel
  obtain ⟨hiff, hunique, -⟩ := parse?_reads_chosen hline
  exact ⟨hline, hread, hunique (hiff.mp (by rw [hread]; rfl))⟩

/-! ### What is kept of a line -/

theorem skipBlank_suffix (t : Text) : skipBlank t <:+ t := by
  cases t with
  | nil => exact List.suffix_rfl
  | cons c t =>
    rw [skipBlank]
    split
    · exact List.suffix_cons c t
    · exact List.suffix_rfl

theorem Parts.unquoted_suffix (x : Parts) : x.ending.unquoted <:+ x.text := by
  have htail : x.ending.unquoted <:+ x.tail :=
    ((List.suffix_append _ _).trans (List.suffix_append _ _)).trans (List.suffix_append _ _)
  exact ((htail.trans (List.suffix_cons _ _)).trans (List.suffix_append _ _)).trans
    (List.suffix_append _ _)

/-- The code of a header stands at the end of its line. -/
theorem code_suffix {line code : Text} {h : Header} (hline : '\n' ∉ line)
    (hread : parse? line = some h) (hcode : h.code = some code) : code <:+ line := by
  obtain ⟨x, rfl, -, rfl⟩ := exists_chosen_of_parse? hline hread
  have hending : x.ending.code = some code := hcode
  unfold Ending.code at hending
  split at hending
  · cases hending
  · obtain rfl := Option.some.inj hending
    have hrest : x.ending.rest <:+ x.ending.unquoted :=
      ((List.suffix_cons _ _).trans (List.suffix_append _ _)).trans (List.suffix_append _ _)
    exact ((skipBlank_suffix _).trans hrest).trans x.unquoted_suffix

/-- The arguments of a header stand together in its line. -/
theorem args_infix {line args : Text} {h : Header} (hline : '\n' ∉ line)
    (hread : parse? line = some h) (hargs : h.args = some args) : args <:+: line := by
  obtain ⟨x, rfl, -, rfl⟩ := exists_chosen_of_parse? hline hread
  obtain ⟨a, ha, hparams⟩ := Option.bind_eq_some_iff.mp hargs
  rw [Arguments.params] at hparams
  split at hparams
  · cases hparams
  · obtain rfl := Option.some.inj hparams
    have hinside : a.inside <:+: a.text := ⟨a.gap.toList ++ ['('], [')'], by simp [Arguments.text]⟩
    have htext : a.text <:+: x.ending.unquoted := by
      rw [Ending.unquoted, ha]
      exact (List.prefix_append _ _).isInfix
    exact (((Text.trim_infix _).trans (List.dropWhile_suffix _).isInfix).trans hinside).trans
      (htext.trans x.unquoted_suffix.isInfix)

end Header

end BlockSpec
