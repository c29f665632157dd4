import BlockSpec.Proofs.Grammar

/-! # Quoted labels

A label in quotes need not be read up to its closing quote. That quote is optional, and the label is
the shortest text behind which a header can end, so a header that can end inside the quotes does:

    it "opens at 10:30": pass      the colon ends it       label  opens at 10
    it "f(x": g(1): h              arguments start in it   label  f

These are the only two ways. The first asks for a colon in the label. The second asks for a
parenthesis that the label leaves open and whose partner, the first closing one of the code, is
followed by a header's end. Blanks, closed parentheses and anything else in the label do no harm. -/

namespace BlockSpec

namespace Header

variable {indent label code q t : Text} {kind : Kind}

/-- A header line with a label in quotes. -/
def quotedLine (indent : Text) (kind : Kind) (label code : Text) : Text :=
  indent ++ kind.keyword.toList ++ " \"".toList ++ label ++ "\": ".toList ++ code

/-- Whether a parenthesis is opened that no later one closes. -/
def leavesOpen : Text → Bool
  | [] => false
  | c :: t => c == '(' && !t.contains ')' || leavesOpen t

/-- Whether the first closing parenthesis is followed by a colon, or by another one and a colon. -/
def closesHeader (code : Text) : Bool :=
  match code.dropWhile (· != ')') with
  | [] => false
  | _ :: after => Text.startsWith ":".toList after || Text.startsWith "):".toList after

/-! ### What ends a header early -/

theorem leavesOpen_iff : leavesOpen t = true ↔ ∃ front inside, t = front ++ '(' :: inside ∧
    ')' ∉ inside := by
  induction t with
  | nil => simp [leavesOpen]
  | cons c t ih =>
    rw [leavesOpen, Bool.or_eq_true, ih]
    constructor
    · rintro (hc | ⟨front, inside, rfl, hinside⟩)
      · simp only [Bool.and_eq_true, beq_iff_eq, Bool.not_eq_true', List.contains_eq_mem,
          decide_eq_false_iff_not] at hc
        exact ⟨[], t, by rw [hc.1]; rfl, hc.2⟩
      · exact ⟨c :: front, inside, rfl, hinside⟩
    · rintro ⟨front, inside, heq, hinside⟩
      cases front with
      | nil =>
        obtain ⟨rfl, rfl⟩ := List.cons.inj heq
        exact .inl (by simp [hinside])
      | cons d front =>
        exact .inr ⟨front, inside, (List.cons.inj heq).2, hinside⟩

theorem leavesOpen_append (front : Text) (h : leavesOpen t = true) :
    leavesOpen (front ++ t) = true := by
  obtain ⟨front', inside, rfl, hinside⟩ := leavesOpen_iff.mp h
  exact leavesOpen_iff.mpr ⟨front ++ front', inside, by rw [List.append_assoc], hinside⟩

/-- A header's end without arguments starts in one of two ways. -/
theorem startsWith_iff_bare :
    (Text.startsWith ":".toList t || Text.startsWith "):".toList t) = true ↔
      ∃ paren rest, t = Ending.bare paren rest := by
  constructor
  · intro h
    rcases Bool.or_eq_true .. ▸ h with h | h
    · obtain ⟨rest, hrest⟩ := Option.isSome_iff_exists.mp h
      have ht := eq_append_of_stripStart? hrest
      exact ⟨false, rest, ht⟩
    · obtain ⟨rest, hrest⟩ := Option.isSome_iff_exists.mp h
      have ht := eq_append_of_stripStart? hrest
      exact ⟨true, rest, ht⟩
  · rintro ⟨paren, rest, rfl⟩
    cases paren <;> rfl

theorem closesHeader_iff : closesHeader code = true ↔ ∃ inside paren rest,
    code = inside ++ ')' :: Ending.bare paren rest ∧ ')' ∉ inside := by
  constructor
  · intro h
    unfold closesHeader at h
    split at h
    · cases h
    · rename_i d after hdrop
      obtain ⟨paren, rest, rfl⟩ := startsWith_iff_bare.mp h
      have hd : d = ')' := by
        have hhead := List.head?_dropWhile_not (· != ')') code
        rw [hdrop] at hhead
        simpa using hhead
      refine ⟨code.takeWhile (· != ')'), paren, rest, ?_, fun hmem => ?_⟩
      · rw [hd] at hdrop
        rw [← hdrop, List.takeWhile_append_dropWhile]
      · simpa using List.mem_takeWhile_imp hmem
  · rintro ⟨inside, paren, rest, rfl, hinside⟩
    have hdrop := congrArg Prod.snd (span_paren hinside (Ending.bare paren rest))
    rw [List.span_eq_takeWhile_dropWhile] at hdrop
    rw [closesHeader]
    simp only at hdrop
    rw [hdrop]
    exact startsWith_iff_bare.mpr ⟨paren, rest, rfl⟩

/-- A quote stands in no header's end before the colon. -/
theorem colon_mem_of_bare {paren : Bool} {rest : Text}
    (h : Ending.bare paren rest = q ++ '"' :: t) : ':' ∈ q := by
  cases paren with
  | false =>
    cases q with
    | nil => cases h
    | cons c q =>
      rw [← (List.cons.inj h).1]
      exact List.mem_cons_self
  | true =>
    rcases q with _ | ⟨_, _ | ⟨d, q⟩⟩
    · cases h
    · cases h
    · rw [← (List.cons.inj (List.cons.inj h).2).1]
      exact List.mem_cons_of_mem _ List.mem_cons_self

/-- Arguments that start in front of a quote take in their opening parenthesis before it. -/
theorem Arguments.exists_of_text_append {a : Arguments} {u : Text}
    (h : a.text ++ u = q ++ '"' :: t) (hne : q ≠ []) (hq : '"' ∉ q) :
    ∃ front r, q = front ++ '(' :: r ∧ a.inside ++ ')' :: u = r ++ '"' :: t := by
  rw [text, List.append_assoc, List.cons_append, List.append_assoc, List.singleton_append] at h
  cases hgap : a.gap with
  | none =>
    rw [hgap] at h
    obtain ⟨c, r, rfl⟩ := List.exists_cons_of_ne_nil hne
    obtain ⟨rfl, hrest⟩ := List.cons.inj h
    exact ⟨[], r, rfl, hrest⟩
  | some gap =>
    rw [hgap] at h
    rcases q with _ | ⟨c, _ | ⟨d, r⟩⟩
    · exact absurd rfl hne
    · cases h
    · obtain ⟨rfl, hrest⟩ := List.cons.inj (List.cons.inj h).2
      exact ⟨[c], r, rfl, hrest⟩

/-- A header that ends before the closing quote of its label has a colon there, or has arguments
that start there and end in the code. -/
theorem ends_early {e : Ending} (hq : '"' ∉ q) (hne : q ≠ [])
    (h : e.text = q ++ '"' :: ':' :: ' ' :: code) :
    ':' ∈ q ∨ leavesOpen q = true ∧ closesHeader code = true := by
  have hclosing : e.closing = false := by
    cases hc : e.closing with
    | false => rfl
    | true =>
      obtain ⟨c, q', rfl⟩ := List.exists_cons_of_ne_nil hne
      rw [Ending.text, hc] at h
      exact absurd (List.cons.inj h).1 fun heq => hq (heq ▸ List.mem_cons_self)
  rw [Ending.text, hclosing] at h
  change e.unquoted = _ at h
  rw [Ending.unquoted] at h
  cases hargs : e.args with
  | none =>
    rw [hargs] at h
    exact .inl (colon_mem_of_bare h)
  | some a =>
    rw [hargs] at h
    change a.text ++ _ = _ at h
    obtain ⟨front, r, rfl, hinside⟩ := Arguments.exists_of_text_append h hne hq
    -- the arguments end in the label or in the code
    rcases List.append_eq_append_iff.mp hinside with ⟨m, rfl, hm⟩ | ⟨m, hm, hrest⟩
    · cases m with
      | nil => cases hm
      | cons d m =>
        have hcolon := colon_mem_of_bare (List.cons.inj hm).2
        exact .inl (by simp [hcolon])
    · have hopen : ')' ∉ r ++ m := hm ▸ a.inside_open
      obtain ⟨y, rfl, hcode⟩ : ∃ y, m = '"' :: ':' :: ' ' :: y ∧
          code = y ++ ')' :: Ending.bare e.paren e.rest := by
        rcases m with _ | ⟨_, _ | ⟨_, _ | ⟨_, y⟩⟩⟩ <;> cases hrest
        exact ⟨y, rfl, rfl⟩
      refine .inr ⟨leavesOpen_iff.mpr ⟨front, r, rfl, ?_⟩,
        closesHeader_iff.mpr ⟨y, e.paren, e.rest, hcode, ?_⟩⟩
      · exact fun hmem => hopen (by simp [hmem])
      · exact fun hmem => hopen (by simp [hmem])

/-- And where there is a colon, or such arguments, a header can end early. -/
theorem exists_shorter (h : ':' ∈ label ∨ leavesOpen label = true ∧ closesHeader code = true) :
    ∃ front q e, label = front ++ q ∧ q ≠ [] ∧ Ending.text e = q ++ '"' :: ':' :: ' ' :: code := by
  rcases h with hcolon | ⟨hopen, hclose⟩
  · obtain ⟨front, rest, rfl⟩ := List.append_of_mem hcolon
    exact ⟨front, _, ⟨false, none, false, rest ++ '"' :: ':' :: ' ' :: code⟩, rfl,
      List.cons_ne_nil _ _, rfl⟩
  · obtain ⟨front, r, rfl, hr⟩ := leavesOpen_iff.mp hopen
    obtain ⟨y, paren, rest, rfl, hy⟩ := closesHeader_iff.mp hclose
    have hinside : ')' ∉ r ++ '"' :: ':' :: ' ' :: y := by simp [hr, hy]
    refine ⟨front, _, ⟨false, some ⟨none, _, by simp, hinside⟩, paren, rest⟩, rfl,
      List.cons_ne_nil _ _, ?_⟩
    simp [Ending.text, Ending.unquoted, optional, Arguments.text]

/-! ### Reading a quoted label -/

/-- A quoted label in its parts, read up to the closing quote. -/
def quotedParts (hindent : ∀ c ∈ indent, isBlank c = true) (hkind : kind ∈ Kind.openable)
    (hquote : '"' ∉ label) (code : Text) : Parts where
  indent := indent
  kind := kind
  separator := ' '
  opening := true
  label := label
  ending := ⟨true, none, false, ' ' :: code⟩
  indent_blank := hindent
  kind_openable := hkind
  separator_fits := .inl rfl
  label_plain := hquote

/-- Whichever way is chosen, its label is a part of what stands in the quotes, and the rest of that
comes next. -/
theorem exists_chosen_quoted (hindent : ∀ c ∈ indent, isBlank c = true)
    (hkind : kind ∈ Kind.openable) (hquote : '"' ∉ label) (code : Text) :
    ∃ y : Parts, y.text = quotedLine indent kind label code ∧ y.Chosen ∧ y.indent = indent ∧
      y.kind = kind ∧ y.tail = '"' :: (label ++ '"' :: ':' :: ' ' :: code) ∧
      ∃ q, y.label ++ q = label ∧ y.ending.text = q ++ '"' :: ':' :: ' ' :: code := by
  let x := quotedParts hindent hkind hquote code
  have hline : x.text = quotedLine indent kind label code := by
    simp [x, quotedParts, quotedLine, Parts.text, Parts.tail, optional, Ending.text,
      Ending.unquoted, Ending.bare]
  obtain ⟨y, hy, hchosen⟩ := x.exists_chosen
  obtain ⟨hyindent, hykind, -, hytail⟩ := Parts.congr_text hy
  have hopening : y.opening = true := hchosen.takes_quote (by rw [hytail]; rfl)
  have hsplit : y.label ++ y.ending.text = label ++ x.ending.text := by
    rw [Parts.tail, hopening] at hytail
    exact (List.cons.inj hytail).2
  have hle : y.label.length ≤ label.length := hchosen.length_label_le hquote hsplit.symm
  obtain ⟨q, hq⟩ : y.label <+: label :=
    List.prefix_of_prefix_length_le (hsplit ▸ List.prefix_append _ _) (List.prefix_append _ _) hle
  refine ⟨y, hy.trans hline, hchosen, hyindent, hykind, hytail, q, hq, ?_⟩
  rw [← hq, List.append_assoc] at hsplit
  exact List.append_cancel_left hsplit

/-- The way that is chosen takes in the whole label unless a header can end early. -/
theorem label_eq_iff {y : Parts} (hy : y.Chosen) (hquote : '"' ∉ label) (hq : y.label ++ q = label)
    (hending : y.ending.text = q ++ '"' :: ':' :: ' ' :: code) : y.label = label ↔
      ':' ∉ label ∧ ¬ (leavesOpen label = true ∧ closesHeader code = true) := by
  rw [← not_or]
  constructor
  · intro hwhole hearly
    obtain ⟨front, q', e, hfront, hne, he⟩ := exists_shorter hearly
    have hplain : '"' ∉ front := fun hmem => hquote (hfront ▸ List.mem_append_left _ hmem)
    have htext : front ++ e.text = y.label ++ y.ending.text := by
      rw [he, hending, ← List.append_assoc, ← List.append_assoc, ← hfront, hq]
    have hle := hy.length_label_le hplain htext
    rw [hwhole, hfront, List.length_append] at hle
    exact hne (List.eq_nil_of_length_eq_zero (by omega))
  · intro hwhole
    by_contra hpart
    have hne : q ≠ [] := by
      rintro rfl
      exact hpart (by simpa using hq)
    have hplain : '"' ∉ q := fun hmem => hquote (hq ▸ List.mem_append_right _ hmem)
    rcases ends_early hplain hne hending with hcolon | ⟨hopen, hclose⟩
    · exact hwhole (.inl (hq ▸ List.mem_append_right _ hcolon))
    · exact hwhole (.inr ⟨hq ▸ leavesOpen_append _ hopen, hclose⟩)

/-- A line with a quoted label is always a header of its indent and kind, and its label is a part of
what stands in the quotes. It is all of it, with nothing lost to arguments or code, just when there
is no colon in it and no parenthesis is opened in it and closed before a header's end in the
code. -/
theorem parse?_quotedLine (hindent : ∀ c ∈ indent, isBlank c = true) (hkind : kind ∈ Kind.openable)
    (hquote : '"' ∉ label) (hlabel : '\n' ∉ label) (hcode : '\n' ∉ code) :
    ∃ h, parse? (quotedLine indent kind label code) = some h ∧ h.indent = indent.length ∧
      h.kind = kind ∧ h.label <+: label ∧
      (h.label = label →
        h.args = none ∧ h.code = if Text.allBlank code then none else some code) ∧
      (h.label = label ↔
        ':' ∉ label ∧ ¬ (leavesOpen label = true ∧ closesHeader code = true)) := by
  obtain ⟨y, hline, hchosen, hyindent, hykind, hytail, q, hq, hending⟩ :=
    exists_chosen_quoted hindent hkind hquote code
  have hread : parse? y.text = some y.header := by
    refine hchosen.parse?_of_tail ?_
    rw [hytail]
    simp [hlabel, hcode]
  refine ⟨y.header, by rw [← hline, hread], congrArg List.length hyindent, hykind, ⟨q, hq⟩,
    fun hwhole => ?_, label_eq_iff hchosen hquote hq hending⟩
  have hwhole : y.label = label := hwhole
  obtain rfl : q = [] := by
    rw [hwhole] at hq
    exact List.append_right_eq_self.mp hq
  have hx : y.ending = ⟨true, none, false, ' ' :: code⟩ := Ending.text_injective hending
  simp only [Parts.header, hx]
  exact ⟨rfl, rfl⟩

/-- A parenthesis that the label leaves open does no harm as long as the code does not close it
before a header's end. -/
theorem parse?_quotedLine_open :
    leavesOpen "adds (1) to (2".toList = true ∧
    parse? (quotedLine "\t ".toList .test "adds (1) to (2".toList "f(x)".toList) =
      some ⟨2, .test, "adds (1) to (2".toList, none, some "f(x)".toList⟩ ∧
    ∃ h, parse? (quotedLine "\t ".toList .test "adds (1) to (2".toList "f(x)".toList) = some h ∧
      (h.label = "adds (1) to (2".toList ↔ ':' ∉ "adds (1) to (2".toList ∧
        ¬ (leavesOpen "adds (1) to (2".toList = true ∧ closesHeader "f(x)".toList = true)) := by
  have hindent : ∀ c ∈ "\t ".toList, isBlank c = true := List.all_eq_true.mp (by decide)
  have hquote : '"' ∉ "adds (1) to (2".toList := by decide
  have hcode : '\n' ∉ "f(x)".toList := by decide
  obtain ⟨h, hread, -, -, -, -, hiff⟩ :=
    parse?_quotedLine hindent (show Kind.test ∈ Kind.openable by decide) hquote (by decide) hcode
  exact ⟨by decide, by decide +kernel, h, hread, hiff⟩

/-- Not every quoted label is read whole: a colon ends it, and so does a parenthesis that the code
closes. What is left of it goes to the code, or to the arguments. -/
theorem quoted_label_is_cut :
    parse? (quotedLine [] .test "opens at 10:30".toList "pass".toList) =
      some ⟨0, .test, "opens at 10".toList, none, some "30\": pass".toList⟩ ∧
    parse? (quotedLine [] .test "f(x".toList "g(1): h".toList) =
      some ⟨0, .test, "f".toList, some "x\": g(1".toList, some "h".toList⟩ := by
  constructor <;> decide +kernel

end Header

end BlockSpec
