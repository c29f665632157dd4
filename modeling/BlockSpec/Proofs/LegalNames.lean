import BlockSpec.Proofs.Copying
import BlockSpec.Proofs.Lines
import BlockSpec.Proofs.MethodNames
import Mathlib.Data.List.TakeWhile

/-! # Legal names

Labels are free text in any script. What is left of them in a name went through a case map, which
may turn one character into several and a foreign one into an ASCII letter, and then through a
filter, so it is made of name characters whatever the label was. It may be empty, start with a digit
or be a reserved word; a name is legal all the same because of what it starts with:

    Test…   _set_up_…   _tear_down_…   setUp   tearDown   test_…

Only the attribute of a binding is the bare name of its label, and that name was checked when the
binding was opened. -/

namespace BlockSpec

/-- A legal name: not empty, made of ASCII letters, digits and underscores, not led by a digit and
not reserved. -/
structure IsName (n : Text) : Prop where
  ne_nil : n ≠ []
  chars : ∀ c ∈ n, c.isAlpha = true ∨ c.isDigit = true ∨ c = '_'
  head : ∀ c, n.head? = some c → c.isDigit = false
  not_reserved : ∀ word ∈ reservedWords, word.toList ≠ n

/-- Made of name characters. -/
def Nameable (t : Text) : Prop := ∀ c ∈ t, isNameChar c = true

instance (t : Text) : Decidable (Nameable t) :=
  List.decidableBAll (fun c => isNameChar c = true) t

theorem isNameChar_iff {c : Char} :
    isNameChar c = true ↔ c.isAlpha = true ∨ c.isDigit = true ∨ c = '_' := by
  simp [isNameChar, isAlphanumeric, or_assoc]

/-- The check of a binding's name is the check for a legal one. -/
theorem isIdentifier_iff {n : Text} : isIdentifier n = true ↔ IsName n := by
  cases n with
  | nil => exact ⟨fun h => absurd h (by decide), fun h => absurd rfl h.ne_nil⟩
  | cons first rest =>
    have hchars : (first :: rest).all isNameChar = true ↔
        ∀ c ∈ first :: rest, c.isAlpha = true ∨ c.isDigit = true ∨ c = '_' := by
      simp only [List.all_eq_true, isNameChar_iff]
    have hreserved : isReserved (first :: rest) = false ↔
        ∀ word ∈ reservedWords, word.toList ≠ first :: rest := by
      simp only [isReserved, List.any_eq_false, beq_iff_eq, ne_eq]
    simp only [isIdentifier, Bool.and_eq_true, Bool.not_eq_true', hchars, hreserved]
    constructor
    · rintro ⟨⟨hfirst, hc⟩, hr⟩
      exact ⟨List.cons_ne_nil _ _, hc, fun c h => Option.some.inj h ▸ hfirst, hr⟩
    · intro h
      exact ⟨⟨h.head first rfl, h.chars⟩, h.not_reserved⟩

/-- No reserved word starts as a generated name does. -/
theorem IsName.of_take {n : Text} {lead : String}
    (hlead : lead ∈ ["_se", "_te", "set", "tea", "tes", "Tes"]) (htake : n.take 3 = lead.toList)
    (hn : Nameable n) : IsName n := by
  have hlegal : ∀ lead ∈ ["_se", "_te", "set", "tea", "tes", "Tes"],
      lead.toList.head?.map Char.isDigit = some false ∧
        ∀ word ∈ reservedWords, word.toList.take 3 ≠ lead.toList := by decide +kernel
  obtain ⟨hhead, hreserved⟩ := hlegal lead hlead
  rw [← htake, List.head?_take, if_neg (by decide)] at hhead
  refine ⟨?_, fun c hc => isNameChar_iff.mp (hn c hc), fun c hc => ?_, ?_⟩
  · rintro rfl
    cases hhead
  · rw [hc] at hhead
    exact Option.some.inj hhead
  · rintro word hword rfl
    exact hreserved word hword htake

/-! ### Parts of names -/

namespace Nameable

variable {s t : Text}

theorem nil : Nameable [] := fun _ h => absurd h List.not_mem_nil

theorem not_mem (ht : Nameable t) {c : Char} (hc : isNameChar c = false) : c ∉ t := fun hmem =>
  absurd (ht c hmem) (Bool.eq_false_iff.mp hc)

theorem append (hs : Nameable s) (ht : Nameable t) : Nameable (s ++ t) := by
  intro c hc
  rcases List.mem_append.mp hc with hc | hc
  · exact hs c hc
  · exact ht c hc

theorem underscore (ht : Nameable t) : Nameable ('_' :: t) := by
  intro c hc
  rcases List.mem_cons.mp hc with rfl | hc
  · rfl
  · exact ht c hc

theorem joinWith (hs : Nameable s) {parts : List Text} (h : ∀ p ∈ parts, Nameable p) :
    Nameable (Text.joinWith s parts) :=
  Text.forall_mem_joinWith hs h

end Nameable

theorem nameable_nameChars (t : Text) : Nameable (nameChars t) := fun _ hc =>
  (List.mem_filter.mp hc).2

/-- Whatever the label, its snake name can stand in a name. -/
theorem nameable_snake (label : Text) : Nameable (snake label) := by
  have hwords : ∀ p ∈ ((Text.words (label.flatMap lower)).map nameChars).filter (!·.isEmpty),
      Nameable p := by
    intro p hp
    obtain ⟨word, -, rfl⟩ := List.mem_map.mp (List.mem_filter.mp hp).1
    exact nameable_nameChars word
  exact Nameable.joinWith (Nameable.nil.underscore) hwords

/-- Whatever the label, its camel name can stand in a name. -/
theorem nameable_camel (label : Text) : Nameable (camel label) := by
  intro c hc
  have halpha : isAlphanumeric c = true := (List.mem_filter.mp hc).2
  simp [isNameChar, halpha]

theorem nameable_ofNat (n : Nat) : Nameable (Text.ofNat n) := by
  intro c hc
  have hdigit : c.isDigit = true := Nat.isDigit_of_mem_toDigits (by decide) (by decide) hc
  exact isNameChar_iff.mpr (.inr (.inl hdigit))

theorem SuffixStream.nameable_suffix (s : SuffixStream) : Nameable s.suffix := by
  have hlead : Nameable "_x".toList := by decide
  have hhex : Nameable "0123456789abcdef".toList := by decide
  exact hlead.append fun c hc => hhex c (mem_of_mem_hexPadded hc)

/-! ### Names of methods -/

namespace MethodName

variable {taken : List Text} {base name : Text} {index n : Nat} {b : Block} {bs : List Block}

theorem nameable_numbered (hbase : Nameable base) (n : Nat) : Nameable (numbered base n) :=
  hbase.append (nameable_ofNat n).underscore

theorem nameable_free (hbase : Nameable base) : Nameable (free taken base n) := by
  obtain ⟨k, heq, -, -⟩ := exists_free_eq_tried taken base n
  rw [heq]
  cases k with
  | zero => exact hbase
  | succ k => exact nameable_numbered hbase (n + k)

/-- A block whose suffix, if it has one, can stand in a name. -/
def NameableSuffix (b : Block) : Prop := Nameable (b.suffix.getD [])

theorem nameable_partialName {lead : Text} (hlead : Nameable lead) (hb : NameableSuffix b) :
    Nameable (partialName lead b index) := by
  have hstem : Nameable (if (snake b.label).isEmpty then [] else '_' :: snake b.label) := by
    split
    · exact .nil
    · exact (nameable_snake b.label).underscore
  exact ((hlead.append hstem).append (nameable_ofNat index).underscore).append hb

theorem nameable_setUp (hb : NameableSuffix b) : Nameable (setUp b index) := by
  unfold setUp
  split
  · have hlead : Nameable "_set_up_".toList := by decide
    exact hlead.append (nameable_snake b.label)
  · exact nameable_partialName (by decide) hb

theorem nameable_of_mem_setUps : ∀ {bs : List Block} {taken : List Text} {index : Nat},
    (∀ b ∈ bs, NameableSuffix b) → ∀ name ∈ setUps taken index bs, Nameable name
  | b :: bs, taken, index, hbs, name, h => by
    rcases List.mem_cons.mp h with rfl | h
    · exact nameable_free (nameable_setUp (hbs b List.mem_cons_self))
    · exact nameable_of_mem_setUps (fun b' hb' => hbs b' (List.mem_cons_of_mem b hb')) name h

theorem nameable_of_mem_tearDowns (hbs : ∀ b ∈ bs, NameableSuffix b) :
    ∀ name ∈ tearDowns index bs, Nameable name := by
  intro name h
  obtain ⟨b, hb, i, -, rfl⟩ := exists_of_mem_tearDowns h
  exact nameable_partialName (by decide) (hbs b hb)

theorem nameable_of_mem_tests : ∀ {bs : List Block} {taken : List Text},
    ∀ name ∈ tests taken bs, Nameable name
  | b :: bs, taken, name, h => by
    rcases List.mem_cons.mp h with rfl | h
    · have hlead : Nameable "test_".toList := by decide
      exact nameable_free (hlead.append (nameable_snake b.label))
    · exact nameable_of_mem_tests name h

end MethodName

/-! ### What reading grants -/

namespace Parser

variable {source : Text} {seed : Digest} {t : Tree}

theorem nameableSuffix_of_parse (h : parse source seed = .ok t) (i : Nat) :
    MethodName.NameableSuffix (t.block i) := by
  refine forall_block_of_parse (fun _ _ _ _ => Iff.rfl) Nameable.nil ?_ h i
  intro s line h _
  simp only [MethodName.NameableSuffix, State.blockOf]
  split
  · exact s.suffixes.nameable_suffix
  · exact .nil

/-- A binding is only opened under a legal name. -/
theorem isName_of_binding (h : parse source seed = .ok t) {i : Nat} (hi : t.kind i = .binding) :
    IsName (t.nameOf i) := by
  have hchecked : (t.block i).kind = .binding → isIdentifier (snake (t.block i).label) = true := by
    refine forall_block_of_parse (Q := fun b => b.kind = .binding →
      isIdentifier (snake b.label) = true) (fun _ _ _ _ => Iff.rfl) (fun hroot => ?_) ?_ h i
    · cases hroot
    · intro s line h ha hk
      exact ha.named hk
  exact isIdentifier_iff.mp (hchecked hi)

end Parser

/-! ### The names of a class -/

namespace TestModule

/-- The attributes that a dispatcher of set-up methods assigns. -/
def attributes (t : Tree) (setUps : List Method) : List Text :=
  setUps.filterMap fun m => if t.kind m.owner = .binding then some (t.nameOf m.owner) else none

/-- The names that a class brings, in the order of their rows: its own, those of its methods, and
behind the set-up dispatcher the attributes that it assigns. -/
def declaredNames (t : Tree) (c : TestClass) : List Text :=
  [c.name] ++ c.setUps.map (·.name) ++ c.tearDowns.map (·.name) ++ ["setUp".toList] ++
    attributes t c.setUps ++ (if c.tearDowns.isEmpty then [] else ["tearDown".toList]) ++
    c.tests.map (·.name)

variable {source : Text} {seed : Digest} {t : Tree} {unit : TestUnit}

theorem nameable_className (t : Tree) (scope : Nat) : Nameable (t.className scope) := by
  have hlead : Nameable "Test".toList := by decide
  have hlabels : Nameable ((t.scopeChain scope).flatMap fun i => camel (t.block i).label) := by
    intro c hc
    obtain ⟨i, -, hc⟩ := List.mem_flatMap.mp hc
    exact nameable_camel _ c hc
  exact hlead.append hlabels

theorem isName_className (t : Tree) (scope : Nat) : IsName (t.className scope) := by
  have hlead : "Tes" ∈ ["_se", "_te", "set", "tea", "tes", "Tes"] := by decide
  exact .of_take hlead rfl (nameable_className t scope)

/-- What holds of all names of methods, row by row. -/
theorem forall_mem_nameRows {P : Text → Prop} {c : TestClass} :
    (∀ r ∈ nameRows c, ∀ n ∈ r.2, P n) ↔
      (∀ n ∈ c.setUps.map (·.name), P n) ∧ (∀ n ∈ c.tearDowns.map (·.name), P n) ∧
      P "setUp".toList ∧ (∀ n ∈ if c.tearDowns.isEmpty then [] else ["tearDown".toList], P n) ∧
      ∀ n ∈ c.tests.map (·.name), P n := by
  simp only [nameRows, List.forall_mem_cons, List.not_mem_nil, false_implies, implies_true,
    and_true]

theorem nameable_of_mem_nameRows (h : parse source seed = .ok t) (unit : TestUnit) :
    ∀ r ∈ nameRows (.ofUnit t unit), ∀ n ∈ r.2, Nameable n := by
  obtain ⟨hsetUps, htearDowns, htests⟩ := names_ofUnit t unit
  have hsuffix : ∀ {owners : List Nat}, ∀ b ∈ owners.map t.block,
      MethodName.NameableSuffix b := by
    intro owners b hb
    obtain ⟨i, -, rfl⟩ := List.mem_map.mp hb
    exact Parser.nameableSuffix_of_parse h i
  refine forall_mem_nameRows.mpr ⟨?_, ?_, by decide, ?_, ?_⟩
  · rw [hsetUps]; exact MethodName.nameable_of_mem_setUps hsuffix
  · rw [htearDowns]; exact MethodName.nameable_of_mem_tearDowns hsuffix
  · split
    · exact fun n hn => absurd hn List.not_mem_nil
    · decide
  · rw [htests]; exact MethodName.nameable_of_mem_tests

/-- The methods of a class have legal names. -/
theorem isName_of_mem_nameRows (h : parse source seed = .ok t) (unit : TestUnit) :
    ∀ r ∈ nameRows (.ofUnit t unit), ∀ n ∈ r.2, IsName n := by
  intro r hr n hn
  have hlead : r.1 ∈ ["_se", "_te", "set", "tea", "tes", "Tes"] := by
    have hall : (nameRows (.ofUnit t unit)).map (·.1) = ["_se", "_te", "set", "tea", "tes"] := rfl
    have hmem := List.mem_map_of_mem (f := Prod.fst) hr
    rw [hall] at hmem
    exact List.mem_append_left ["Tes"] hmem
  exact .of_take hlead (take_of_mem_nameRows t unit r hr n hn)
    (nameable_of_mem_nameRows h unit r hr n hn)

theorem isName_of_mem_attributes (h : parse source seed = .ok t) {setUps : List Method} :
    ∀ n ∈ attributes t setUps, IsName n := by
  intro n hn
  obtain ⟨m, -, hm⟩ := List.mem_filterMap.mp hn
  split at hm
  · rename_i hk
    cases hm
    exact Parser.isName_of_binding h hk
  · cases hm

/-- The names of a class are legal. -/
theorem isName_of_mem_declaredNames (h : parse source seed = .ok t) {c : TestClass}
    (hc : c ∈ classes t) : ∀ n ∈ declaredNames t c, IsName n := by
  obtain ⟨unit, -, rfl⟩ := List.mem_map.mp hc
  obtain ⟨hsetUps, htearDowns, hsetUp, htearDown, htests⟩ :=
    forall_mem_nameRows.mp (isName_of_mem_nameRows h unit)
  simp only [declaredNames, List.forall_mem_append, List.forall_mem_singleton]
  exact ⟨⟨⟨⟨⟨⟨isName_className t unit.scope, hsetUps⟩, htearDowns⟩, hsetUp⟩,
    isName_of_mem_attributes h⟩, htearDown⟩, htests⟩

end TestModule

/-! ### The names in the rows -/

/-- The name that a row of the library's own brings: that of the class or the method that it opens,
or of the attribute that it assigns. -/
def Row.declared? : Row → Option Text
  | .copied .. => none
  | .plain text =>
    match Text.stripStart? "class ".toList text with
    | some rest => some (rest.takeWhile (· ≠ '('))
    | none =>
      match Text.stripStart? "    def ".toList text with
      | some rest => some (rest.takeWhile (· ≠ '('))
      | none =>
        match Text.stripStart? "        self.".toList text with
        | some rest =>
          if Text.startsWith " = ".toList (rest.dropWhile (· ≠ ' ')) then
            some (rest.takeWhile (· ≠ ' '))
          else none
        | none => none

namespace Row

variable {row : Row} {n : Text}

theorem IsRemark.declared? (h : row.IsRemark) : row.declared? = none := by
  obtain ⟨rest, rfl | rfl⟩ := h <;> rfl

theorem IsCopied.declared? (h : row.IsCopied) : row.declared? = none := by
  obtain rfl | ⟨width, text, line, rfl⟩ := h <;> rfl

theorem takeWhile_name {sep : Char} (hn : sep ∉ n) (rest : Text) :
    (n ++ sep :: rest).takeWhile (· ≠ sep) = n ∧
      (n ++ sep :: rest).dropWhile (· ≠ sep) = sep :: rest := by
  have hall : ∀ c ∈ n, decide (c ≠ sep) = true := by
    intro c hc
    exact decide_eq_true fun heq => hn (heq ▸ hc)
  rw [List.takeWhile_append_of_pos hall, List.dropWhile_append_of_pos hall]
  simp

theorem declared?_class (hn : Nameable n) (rest : Text) :
    (plain ("class ".toList ++ n ++ '(' :: rest)).declared? = some n := by
  have hname := (takeWhile_name (hn.not_mem (c := '(') rfl) rest).1
  rw [List.append_assoc]
  exact congrArg some hname

theorem declared?_def (hn : Nameable n) (rest : Text) :
    (padded TestModule.classWidth ("def ".toList ++ n ++ '(' :: rest)).declared? = some n := by
  have hname := (takeWhile_name (hn.not_mem (c := '(') rfl) rest).1
  rw [List.append_assoc]
  exact congrArg some hname

theorem declared?_assign (hn : Nameable n) (rest : Text) :
    (padded TestModule.methodWidth ("self.".toList ++ n ++ " = ".toList ++ rest)).declared? =
      some n := by
  obtain ⟨hname, hrest⟩ := takeWhile_name (hn.not_mem (c := ' ') rfl) ('=' :: ' ' :: rest)
  have hread : (padded TestModule.methodWidth
      ("self.".toList ++ n ++ " = ".toList ++ rest)).declared? =
      if Text.startsWith " = ".toList ((n ++ ' ' :: '=' :: ' ' :: rest).dropWhile (· ≠ ' ')) then
        some ((n ++ ' ' :: '=' :: ' ' :: rest).takeWhile (· ≠ ' ')) else none := by
    rw [List.append_assoc, List.append_assoc]
    rfl
  rw [hread, hname, hrest]
  rfl

theorem declared?_call (hn : Nameable n) :
    (padded TestModule.methodWidth ("self.".toList ++ n ++ "()".toList)).declared? = none := by
  have hall : ∀ c ∈ n ++ "()".toList, decide (c ≠ ' ') = true := by
    intro c hc
    refine decide_eq_true ?_
    rintro rfl
    rcases List.mem_append.mp hc with hc | hc
    · exact hn.not_mem rfl hc
    · exact absurd hc (by decide)
  have hread : (padded TestModule.methodWidth ("self.".toList ++ n ++ "()".toList)).declared? =
      if Text.startsWith " = ".toList ((n ++ "()".toList).dropWhile (· ≠ ' ')) then
        some ((n ++ "()".toList).takeWhile (· ≠ ' ')) else none := by
    rw [List.append_assoc]
    rfl
  rw [hread, List.dropWhile_eq_nil_iff.mpr hall]
  rfl

end Row

namespace TestModule

variable {source : Text} {seed : Digest} {t : Tree}

theorem filterMap_declared?_openingRows (options : Options) :
    (openingRows options).filterMap Row.declared? = [] :=
  List.filterMap_eq_nil_iff.mpr fun _ hrow => (isRemark_of_mem_openingRows hrow).declared?

theorem filterMap_declared?_codeRows (width : Nat) (b : Block) :
    (codeRows width b).filterMap Row.declared? = [] :=
  List.filterMap_eq_nil_iff.mpr fun _ hrow => (isCopied_of_mem_codeRows hrow).declared?

theorem filterMap_declared?_decoratorRows (width : Nat) (b : Block) :
    (decoratorRows width b).filterMap Row.declared? = [] :=
  List.filterMap_eq_nil_iff.mpr fun _ hrow => (isCopied_of_mem_decoratorRows hrow).declared?

/-- A method brings its name. -/
theorem filterMap_declared?_methodRows {m : Method} (hm : Nameable m.name) :
    (methodRows t m).filterMap Row.declared? = [m.name] := by
  have hdef : (defRow t m).declared? = some m.name := by
    simp only [defRow, List.append_assoc]
    exact Row.declared?_def hm _
  have hbody : (if (t.block m.owner).body.isEmpty then [passRow]
      else codeRows methodWidth (t.block m.owner)).filterMap Row.declared? = [] := by
    split
    · rfl
    · exact filterMap_declared?_codeRows _ _
  have hrows : [defRow t m].filterMap Row.declared? = [m.name] := List.filterMap_cons_some hdef
  have hblank : [Row.blank].filterMap Row.declared? = [] := rfl
  simp only [methodRows, List.filterMap_append, filterMap_declared?_decoratorRows, hrows, hbody,
    hblank, List.append_nil, List.nil_append]

/-- A dispatcher brings its name and then what its statements assign. -/
theorem filterMap_declared?_dispatcherRows {name : String} (hname : Nameable name.toList)
    (calls : List Text) : (dispatcherRows name calls).filterMap Row.declared? =
      name.toList :: calls.filterMap fun call => (Row.padded methodWidth call).declared? := by
  have hdef : (Row.padded classWidth
      ("def ".toList ++ name.toList ++ "(self):".toList)).declared? = some name.toList :=
    Row.declared?_def hname _
  have hblank : [Row.blank].filterMap Row.declared? = [] := rfl
  have hcalls : (if calls.isEmpty then [passRow]
      else calls.map (Row.padded methodWidth)).filterMap Row.declared? =
      calls.filterMap fun call => (Row.padded methodWidth call).declared? := by
    cases calls with
    | nil => rfl
    | cons call calls => exact List.filterMap_map
  rw [dispatcherRows, List.filterMap_append, List.filterMap_append, hcalls, hblank,
    List.filterMap_cons_some hdef, List.append_nil]
  rfl

/-- The set-up dispatcher assigns the attributes of its bindings. -/
theorem filterMap_declared?_setUpText {ms : List Method}
    (hms : ∀ n ∈ ms.map (·.name), Nameable n) :
    (ms.map (setUpText t)).filterMap (fun call => (Row.padded methodWidth call).declared?) =
      attributes t ms := by
  rw [List.filterMap_map, attributes]
  refine List.filterMap_congr fun m hm => ?_
  by_cases hk : t.kind m.owner = .binding
  · rw [if_pos hk, Function.comp_apply, setUpText, if_pos hk, List.append_assoc, List.append_assoc]
    exact Row.declared?_assign (nameable_snake _) _
  · rw [if_neg hk, Function.comp_apply, setUpText, if_neg hk]
    exact Row.declared?_call (hms _ (List.mem_map_of_mem hm))

theorem filterMap_declared?_tearDownCall {ms : List Method}
    (hms : ∀ n ∈ ms.map (·.name), Nameable n) :
    (ms.map tearDownCall).filterMap (fun call => (Row.padded methodWidth call).declared?) = [] := by
  rw [List.filterMap_map, List.filterMap_eq_nil_iff]
  intro m hm
  exact Row.declared?_call (hms _ (List.mem_map_of_mem hm))

theorem filterMap_declared?_classHead (baseClass : Text) {c : TestClass} (hc : Nameable c.name) :
    ([Row.blank, .blank] ++ c.scopes.flatMap (fun i => decoratorRows 0 (t.block i)) ++
      [classRow baseClass c]).filterMap Row.declared? = [c.name] := by
  have hdecorators : (c.scopes.flatMap fun i => decoratorRows 0 (t.block i)).filterMap
      Row.declared? = [] := by
    rw [List.filterMap_flatMap, List.flatMap_eq_nil_iff]
    exact fun i _ => filterMap_declared?_decoratorRows 0 _
  have hclass : (classRow baseClass c).declared? = some c.name := by
    simp only [classRow, List.append_assoc]
    exact Row.declared?_class hc _
  have hblanks : [Row.blank, Row.blank].filterMap Row.declared? = [] := rfl
  rw [List.filterMap_append, List.filterMap_append, hblanks, hdecorators,
    List.filterMap_cons_some hclass]
  rfl

theorem filterMap_declared?_dispatchers {c : TestClass}
    (hsetUps : ∀ n ∈ c.setUps.map (·.name), Nameable n)
    (htearDowns : ∀ n ∈ c.tearDowns.map (·.name), Nameable n) :
    (dispatchers t c).filterMap Row.declared? = "setUp".toList :: attributes t c.setUps ++
      if c.tearDowns.isEmpty then [] else ["tearDown".toList] := by
  have hsetUp := filterMap_declared?_dispatcherRows (show Nameable "setUp".toList by decide)
    (c.setUps.map (setUpText t))
  have htearDown := filterMap_declared?_dispatcherRows (show Nameable "tearDown".toList by decide)
    (c.tearDowns.map tearDownCall)
  rw [filterMap_declared?_setUpText hsetUps] at hsetUp
  rw [filterMap_declared?_tearDownCall htearDowns] at htearDown
  rw [dispatchers, List.filterMap_append, hsetUp]
  split
  · rfl
  · rw [htearDown]

/-! ### The names in a module -/

/-- The names that the rows of pieces bring. -/
def namesOf (t : Tree) (ps : List Piece) : List Text :=
  (ps.flatMap (Piece.rows t)).filterMap Row.declared?

theorem namesOf_append (ps qs : List Piece) :
    namesOf t (ps ++ qs) = namesOf t ps ++ namesOf t qs := by
  rw [namesOf, List.flatMap_append, List.filterMap_append]; rfl

theorem namesOf_flatMap {α : Type} (f : α → List Piece) (l : List α) :
    namesOf t (l.flatMap f) = l.flatMap fun a => namesOf t (f a) := by
  rw [namesOf, List.flatMap_assoc, List.filterMap_flatMap]; rfl

theorem namesOf_own (rows : List Row) : namesOf t [.own rows] = rows.filterMap Row.declared? := by
  rw [namesOf, List.flatMap_singleton]; rfl

theorem namesOf_code (width owner : Nat) : namesOf t [.code width owner] = [] := by
  rw [namesOf, List.flatMap_singleton]
  exact filterMap_declared?_codeRows _ _

theorem namesOf_scopes (scopes : List Nat) : namesOf t (scopes.flatMap (scopePieces t)) = [] := by
  rw [namesOf_flatMap, List.flatMap_eq_nil_iff]
  intro i _
  rw [scopePieces, ← List.singleton_append, namesOf_append, namesOf_code, namesOf_own]
  split <;> rfl

theorem namesOf_methods {ms : List Method} (hms : ∀ n ∈ ms.map (·.name), Nameable n) :
    namesOf t (ms.flatMap (methodPieces t)) = ms.map (·.name) := by
  rw [namesOf_flatMap, List.map_eq_flatMap]
  refine List.flatMap_congr fun m hm => ?_
  rw [namesOf, rows_methodPieces]
  exact filterMap_declared?_methodRows (hms _ (List.mem_map_of_mem hm))

/-- A class brings its names, and no others. -/
theorem namesOf_class (baseClass : Text) {c : TestClass} (hname : Nameable c.name)
    (hrows : ∀ r ∈ nameRows c, ∀ n ∈ r.2, Nameable n) :
    namesOf t (classPieces t baseClass c) = declaredNames t c := by
  obtain ⟨hsetUps, htearDowns, -, -, htests⟩ := forall_mem_nameRows.mp hrows
  rw [classPieces, namesOf_append, namesOf_append, namesOf_append, namesOf_append, namesOf_append,
    namesOf_own, namesOf_own, filterMap_declared?_classHead _ hname, namesOf_scopes,
    namesOf_methods hsetUps, namesOf_methods htearDowns, namesOf_methods htests,
    filterMap_declared?_dispatchers hsetUps htearDowns]
  simp only [declaredNames, List.append_assoc, List.cons_append, List.nil_append]

/-- A module brings the names of its classes. -/
theorem namesOf_pieces (h : parse source seed = .ok t) (options : Options) :
    namesOf t (pieces t options) = (classes t).flatMap (declaredNames t) := by
  have hclasses : namesOf t ((classes t).flatMap (classPieces t options.baseClass)) =
      (classes t).flatMap (declaredNames t) := by
    rw [namesOf_flatMap]
    refine List.flatMap_congr fun c hc => ?_
    obtain ⟨unit, -, rfl⟩ := List.mem_map.mp hc
    exact namesOf_class _ (nameable_className t unit.scope) (nameable_of_mem_nameRows h unit)
  have hend (names : List Text) : (epilogue names).filterMap Row.declared? = [] := rfl
  rw [pieces, ← List.singleton_append, namesOf_append, namesOf_append, namesOf_append, namesOf_own,
    namesOf_own, namesOf_code, hclasses, hend, filterMap_declared?_openingRows, List.append_nil]
  rfl

end TestModule

open TestModule in
/-- Every name in a module that is generated from a spec is legal, and the names in its rows are
those of its classes, of their methods and of the attributes of their bindings. -/
theorem generated_names_legal {source : Text} {seed : Digest} {t : Tree}
    (h : parse source seed = .ok t) (options : Options) : ∃ rows : List Row,
      generate t options = .ok (Text.ofLines (rows.map (Row.render options.lineMarkers))) ∧
      rows.filterMap Row.declared? = (classes t).flatMap (declaredNames t) ∧
      ∀ n ∈ rows.filterMap Row.declared?, IsName n := by
  have hnames := namesOf_pieces h options
  refine ⟨_, generate_eq t options, hnames, fun n hn => ?_⟩
  have hmem : n ∈ (classes t).flatMap (declaredNames t) := hnames ▸ hn
  obtain ⟨c, hc, hn⟩ := List.mem_flatMap.mp hmem
  exact isName_of_mem_declaredNames h hc n hn

/-- A spec whose labels are no names: other scripts, reserved words, digits in front. -/
def foreignSpec : Text :=
  ("describe \"\u00DFa\":\n    let \"\u212A In\": 1\n    before \"\u4F60\": pass\n" ++
    "    after \"class\": pass\n    it \"\u0130f\": pass\n    it \"9\": pass\n" ++
    "    it \"\u4F60\": pass\n").toList

theorem generated_names_legal_foreign : ∃ (t : Tree) (rows : List Row),
    parse foreignSpec (Vector.replicate 32 7) = .ok t ∧
    generate t {} = .ok (Text.ofLines (rows.map (Row.render false))) ∧
    rows.filterMap Row.declared? = ["TestSSa".toList, "_set_up_k_in".toList,
      "_set_up_1_x1e1e1e".toList, "_tear_down_class_0_x1e1e1e".toList, "setUp".toList,
      "k_in".toList, "tearDown".toList, "test_if".toList, "test_9".toList, "test_".toList] ∧
    ∀ n ∈ rows.filterMap Row.declared?, IsName n := by
  have hview : (parse foreignSpec (Vector.replicate 32 7)).map (fun t =>
      (TestModule.classes t).flatMap (TestModule.declaredNames t)) =
      .ok ["TestSSa".toList, "_set_up_k_in".toList, "_set_up_1_x1e1e1e".toList,
        "_tear_down_class_0_x1e1e1e".toList, "setUp".toList, "k_in".toList, "tearDown".toList,
        "test_if".toList, "test_9".toList, "test_".toList] := by
    decide +kernel
  obtain ⟨t, h, hview⟩ := exists_of_map_eq_ok hview
  obtain ⟨rows, hrows, hnames, hlegal⟩ := generated_names_legal h {}
  exact ⟨t, rows, h, hrows, hnames.trans hview, hlegal⟩

end BlockSpec
