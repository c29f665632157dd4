import BlockSpec.Proofs.Arena
import BlockSpec.Proofs.Digits
import BlockSpec.Proofs.Pieces
import Mathlib.Data.List.Dedup
import Mathlib.Data.List.Perm.Subperm

/-! # The methods of a class

Three ways of naming meet in one class. Set-up methods and tests take the first free name, so within
each row nothing is taken twice. Tear-down methods are never looked up: their names end in a
position and a suffix of eight characters, so different positions give different names, whatever the
labels look like. Rows do not meet because of how their names start:

    _set_up…   _tear_down…   setUp   tearDown   test_…

Hence a name that a dispatcher calls belongs to one method, that of the block it was called for. -/

namespace BlockSpec

/-- A suffix has eight characters. -/
theorem SuffixStream.length_suffix (s : SuffixStream) : s.suffix.length = 8 := by
  have hlt : (s.draw &&& 0xffffff).toNat < 16 ^ 6 := by
    have hle : (s.draw &&& 0xffffff).toNat ≤ 0xffffff := by
      rw [UInt32.toNat_and]
      exact Nat.and_le_right
    exact Nat.lt_of_le_of_lt hle (by decide)
  rw [suffix, List.length_append, length_hexPadded (by decide) hlt]
  rfl

/-! ### Free names -/

namespace MethodName

variable {taken : List Text} {base lead name : Text} {index i j k n : Nat} {b b' : Block}
  {bs : List Block}

theorem numbered_injective (base : Text) : Function.Injective (numbered base) := by
  intro i j h
  have hdigits : '_' :: Text.ofNat i = '_' :: Text.ofNat j := List.append_cancel_left h
  exact Text.ofNat_injective (List.tail_eq_of_cons_eq hdigits)

/-- The names that are tried, in order: the base, then the numbered ones from `n` on. -/
def tried (base : Text) (n : Nat) : Nat → Text
  | 0 => base
  | k + 1 => numbered base (n + k)

theorem tried_injective (base : Text) (n : Nat) : Function.Injective (tried base n) := by
  intro i j h
  cases i with
  | zero =>
    cases j with
    | zero => rfl
    | succ j => simp [tried, numbered] at h
  | succ i =>
    cases j with
    | zero => simp [tried, numbered] at h
    | succ j =>
      have := numbered_injective base h
      omega

/-- No more names are tried in vain than are taken. -/
theorem le_length_of_tried (htaken : ∀ j < k, tried base n j ∈ taken) :
    k ≤ taken.dedup.length := by
  have hnodup : ((List.range k).map (tried base n)).Nodup :=
    List.Nodup.map (tried_injective base n) List.nodup_range
  have hsub : (List.range k).map (tried base n) ⊆ taken.dedup := by
    intro name hname
    obtain ⟨j, hj, rfl⟩ := List.mem_map.mp hname
    exact List.mem_dedup.mpr (htaken j (List.mem_range.mp hj))
  have hle := (List.subperm_of_subset hnodup hsub).length_le
  rwa [List.length_map, List.length_range] at hle

theorem exists_tried_not_mem (taken : List Text) (base : Text) (n : Nat) :
    ∃ k, tried base n k ∉ taken := by
  by_contra hall
  push Not at hall
  have hle := le_length_of_tried (k := taken.dedup.length + 1) fun j _ => hall j
  omega

/-- The first name that is tried and not taken is the one that is found. -/
theorem free_eq_tried (hfree : tried base n k ∉ taken)
    (htaken : ∀ j < k, tried base n j ∈ taken) : free taken base n = tried base n k := by
  unfold free
  cases k with
  | zero =>
    have hbase : base ∉ taken := hfree
    rw [if_neg (by simpa using hbase), tried]
  | succ k =>
    have hbase : base ∈ taken := htaken 0 (Nat.succ_pos k)
    have hle : k + 1 ≤ taken.length :=
      (le_length_of_tried htaken).trans (List.dedup_sublist taken).length_le
    have hfind : (List.range' n (taken.length + 1)).find?
        ((!taken.contains ·) ∘ numbered base) = some (n + k) := by
      rw [List.find?_range'_eq_some]
      refine ⟨by simpa [tried] using hfree, ?_, fun i hi hlt => ?_⟩
      · rw [List.mem_range'_1]
        omega
      · obtain ⟨j, rfl⟩ := Nat.exists_eq_add_of_le hi
        simpa [tried] using htaken (j + 1) (by omega)
    rw [if_pos (by simpa using hbase), List.find?_map, hfind]
    rfl

theorem exists_free_eq_tried (taken : List Text) (base : Text) (n : Nat) :
    ∃ k, free taken base n = tried base n k ∧ tried base n k ∉ taken ∧
      ∀ j < k, tried base n j ∈ taken := by
  have hexists := exists_tried_not_mem taken base n
  have hfree : tried base n (Nat.find hexists) ∉ taken := Nat.find_spec hexists
  have htaken : ∀ j < Nat.find hexists, tried base n j ∈ taken := fun j hj =>
    not_not.mp (Nat.find_min hexists hj)
  exact ⟨Nat.find hexists, free_eq_tried hfree htaken, hfree, htaken⟩

/-- The name that is found is free: the base, or a numbered one. -/
theorem free_spec (taken : List Text) (base : Text) (n : Nat) :
    free taken base n ∉ taken ∧ ∃ rest, free taken base n = base ++ rest := by
  obtain ⟨k, heq, hfree, -⟩ := exists_free_eq_tried taken base n
  rw [heq]
  refine ⟨hfree, ?_⟩
  cases k with
  | zero => exact ⟨[], (List.append_nil base).symm⟩
  | succ k => exact ⟨_, rfl⟩

/-- Names that are different and not taken before. -/
structure Fresh (taken names : List Text) : Prop where
  nodup : names.Nodup
  not_mem : ∀ name ∈ names, name ∉ taken

theorem Fresh.cons {names : List Text} (hname : name ∉ taken) (h : Fresh (name :: taken) names) :
    Fresh taken (name :: names) := by
  refine ⟨List.nodup_cons.mpr ⟨fun hmem => ?_, h.nodup⟩, fun x hx => ?_⟩
  · exact h.not_mem name hmem List.mem_cons_self
  · rcases List.mem_cons.mp hx with rfl | hx
    · exact hname
    · exact fun ht => h.not_mem x hx (List.mem_cons_of_mem _ ht)

theorem fresh_setUps : ∀ (bs : List Block) (taken : List Text) (index : Nat),
    Fresh taken (setUps taken index bs)
  | [], _, _ => ⟨List.nodup_nil, fun _ h => absurd h List.not_mem_nil⟩
  | _ :: bs, _, _ => .cons (free_spec _ _ _).1 (fresh_setUps bs _ _)

theorem fresh_tests : ∀ (bs : List Block) (taken : List Text), Fresh taken (tests taken bs)
  | [], _ => ⟨List.nodup_nil, fun _ h => absurd h List.not_mem_nil⟩
  | _ :: bs, _ => .cons (free_spec _ _ _).1 (fresh_tests bs _)

/-! ### How names start -/

theorem setUp_start (b : Block) (index : Nat) :
    ∃ rest, setUp b index = "_set_up".toList ++ '_' :: rest := by
  unfold setUp
  split
  · exact ⟨snake b.label, rfl⟩
  · simp only [partialName]
    split
    · exact ⟨_, by rw [List.append_nil, List.append_assoc, List.cons_append]⟩
    · exact ⟨_, by rw [List.append_assoc, List.append_assoc, List.cons_append]⟩

theorem setUps_start : ∀ {bs : List Block} {taken : List Text} {index : Nat} {name : Text},
    name ∈ setUps taken index bs → ∃ rest, name = "_set_up".toList ++ '_' :: rest
  | b :: bs, taken, index, name, h => by
    rcases List.mem_cons.mp h with rfl | h
    · obtain ⟨-, rest, hfree⟩ := free_spec taken (setUp b index) index
      obtain ⟨lead, hlead⟩ := setUp_start b index
      exact ⟨lead ++ rest, by rw [hfree, hlead, List.append_assoc, List.cons_append]⟩
    · exact setUps_start h

theorem tests_start : ∀ {bs : List Block} {taken : List Text} {name : Text},
    name ∈ tests taken bs → ∃ rest, name = "test_".toList ++ rest
  | b :: bs, taken, name, h => by
    rcases List.mem_cons.mp h with rfl | h
    · obtain ⟨-, rest, hfree⟩ := free_spec taken (test b) 2
      refine ⟨snake b.label ++ rest, hfree.trans ?_⟩
      exact List.append_assoc "test_".toList (snake b.label) rest
    · exact tests_start h

/-! ### Tear-down names -/

/-- A block whose suffix has its eight characters. -/
def HasSuffix (b : Block) : Prop := ∃ suffix, b.suffix = some suffix ∧ suffix.length = 8

theorem partialName_eq (lead : Text) (b : Block) (index : Nat) : ∃ stem,
    partialName lead b index = lead ++ stem ++ '_' :: Text.ofNat index ++ b.suffix.getD [] :=
  ⟨_, rfl⟩

/-- Positions can be read off the names. -/
theorem index_of_partialName (hb : HasSuffix b) (hb' : HasSuffix b')
    (h : partialName lead b i = partialName lead b' j) : i = j := by
  obtain ⟨suffix, hs, hlen⟩ := hb
  obtain ⟨suffix', hs', hlen'⟩ := hb'
  obtain ⟨stem, hstem⟩ := partialName_eq lead b i
  obtain ⟨stem', hstem'⟩ := partialName_eq lead b' j
  rw [hstem, hstem', hs, hs'] at h
  have hfront := (List.append_inj' h (by simp [hlen, hlen'])).1
  exact Text.ofNat_injective
    (append_cons_inj_of_not_mem Nat.underscore_not_in_toDigits Nat.underscore_not_in_toDigits
      hfront).2

theorem exists_of_mem_tearDowns : ∀ {bs : List Block} {index : Nat} {name : Text},
    name ∈ tearDowns index bs → ∃ b ∈ bs, ∃ i, index ≤ i ∧ name = tearDown b i
  | b :: bs, index, name, h => by
    rcases List.mem_cons.mp h with rfl | h
    · exact ⟨b, List.mem_cons_self, index, le_rfl, rfl⟩
    · obtain ⟨b', hb', i, hi, rfl⟩ := exists_of_mem_tearDowns h
      exact ⟨b', List.mem_cons_of_mem _ hb', i, Nat.le_of_succ_le hi, rfl⟩

theorem nodup_tearDowns : ∀ {bs : List Block} (index : Nat), (∀ b ∈ bs, HasSuffix b) →
    (tearDowns index bs).Nodup
  | [], _, _ => List.nodup_nil
  | b :: bs, index, h => by
    refine List.nodup_cons.mpr ⟨fun hmem => ?_,
      nodup_tearDowns (index + 1) fun b' hb' => h b' (List.mem_cons_of_mem _ hb')⟩
    obtain ⟨b', hb', i, hi, heq⟩ := exists_of_mem_tearDowns hmem
    have := index_of_partialName (h b List.mem_cons_self) (h b' (List.mem_cons_of_mem _ hb')) heq
    omega

theorem tearDowns_start (h : name ∈ tearDowns index bs) :
    ∃ rest, name = "_tear_down".toList ++ rest := by
  obtain ⟨b, -, i, -, rfl⟩ := exists_of_mem_tearDowns h
  obtain ⟨stem, hstem⟩ := partialName_eq "_tear_down".toList b i
  exact ⟨_, by rw [tearDown, hstem, List.append_assoc, List.append_assoc]⟩

end MethodName

/-! ### The suffixes of a spec that is read -/

namespace Parser

/-- Blocks that carry a suffix carry one of eight characters. -/
theorem hasSuffix_of_parse {source : Text} {seed : Digest} {t : Tree}
    (h : parse source seed = .ok t) {i : Nat} (hi : (t.block i).kind.takesSuffix = true) :
    MethodName.HasSuffix (t.block i) := by
  obtain ⟨suffix, hsuffix⟩ : ∃ suffix, (t.block i).suffix = some suffix := by
    rw [← Option.isSome_iff_exists, (nested_and_legal_of_parse h).2.suffix_iff, hi]
  have hlength : ∀ suffix, (t.block i).suffix = some suffix → suffix.length = 8 := by
    refine forall_block_of_parse (Q := fun b => ∀ suffix, b.suffix = some suffix →
      suffix.length = 8) (fun _ _ _ _ => Iff.rfl) (fun _ hroot => by cases hroot) ?_ h i
    intro s line h _ suffix hsuffix
    simp only [State.blockOf] at hsuffix
    split at hsuffix
    · cases hsuffix
      exact s.suffixes.length_suffix
    · cases hsuffix
  exact ⟨suffix, hsuffix, hlength suffix hsuffix⟩

end Parser

/-! ### What a class defines -/

namespace TestModule

/-- A method as a class writes it: its name and its rows. -/
structure Definition where
  name : Text
  rows : List Row

/-- A method that holds the code of a block. -/
def Definition.of (t : Tree) (m : Method) : Definition := ⟨m.name, methodRows t m⟩

/-- A method that runs statements. -/
def Definition.dispatcher (name : String) (calls : List Text) : Definition :=
  ⟨name.toList, dispatcherRows name calls⟩

/-- The methods of a class in the order in which they are written. -/
def definitions (t : Tree) (c : TestClass) : List Definition :=
  c.setUps.map (.of t) ++ c.tearDowns.map (.of t) ++
    [.dispatcher "setUp" (c.setUps.map (setUpText t))] ++
    (if c.tearDowns.isEmpty then [] else [.dispatcher "tearDown" (c.tearDowns.map tearDownCall)]) ++
    c.tests.map (.of t)

/-- What a class starts with: its decorators, its own row and the code of its scopes. -/
def classHead (t : Tree) (baseClass : Text) (c : TestClass) : List Row :=
  [.blank, .blank] ++ c.scopes.flatMap (fun i => decoratorRows 0 (t.block i)) ++
    [classRow baseClass c] ++ scopeRows t c.scopes

variable {t : Tree} {unit : TestUnit}

theorem mem_definitions {c : TestClass} {d : Definition} : d ∈ definitions t c ↔
    (∃ m ∈ c.setUps, .of t m = d) ∨ (∃ m ∈ c.tearDowns, .of t m = d) ∨
      d = .dispatcher "setUp" (c.setUps.map (setUpText t)) ∨
      (c.tearDowns ≠ [] ∧ d = .dispatcher "tearDown" (c.tearDowns.map tearDownCall)) ∨
      ∃ m ∈ c.tests, .of t m = d := by
  simp [definitions]

theorem mem_classes (hu : unit ∈ t.units) : TestClass.ofUnit t unit ∈ classes t :=
  List.mem_map_of_mem hu

/-- A class is its head and then its methods. -/
theorem classRows_eq_definitions {c : TestClass} (hc : c ∈ classes t) (baseClass : Text) :
    classRows t baseClass c =
      .ok (classHead t baseClass c ++ (definitions t c).flatMap (·.rows)) := by
  have hmethods (ms : List Method) :
      (ms.map (Definition.of t)).flatMap (·.rows) = ms.flatMap (methodRows t) := by
    rw [List.flatMap_map]; rfl
  have htear : (if c.tearDowns.isEmpty then []
      else dispatcherRows "tearDown" (c.tearDowns.map tearDownCall)) =
      (if c.tearDowns.isEmpty then []
        else [Definition.dispatcher "tearDown" (c.tearDowns.map tearDownCall)]).flatMap
          (·.rows) := by
    split <;> simp [Definition.dispatcher]
  rw [classRows, mapM_setUpCall hc, htear]
  simp [classHead, definitions, hmethods, Definition.dispatcher, bind, Except.bind, pure,
    Except.pure]

/-- Names that are different belong to one definition each. -/
theorem filter_name_eq {ds : List Definition} (h : (ds.map (·.name)).Nodup) {d : Definition}
    (hd : d ∈ ds) : ds.filter (fun x => x.name = d.name) = [d] := by
  induction ds with
  | nil => cases hd
  | cons x ds ih =>
    rw [List.map_cons, List.nodup_cons] at h
    rcases List.mem_cons.mp hd with rfl | hd
    · have hrest : ds.filter (fun x => x.name = d.name) = [] := by
        rw [List.filter_eq_nil_iff]
        intro y hy heq
        exact h.1 (of_decide_eq_true heq ▸ List.mem_map_of_mem hy)
      rw [List.filter_cons_of_pos (by simp), hrest]
    · have hne : x.name ≠ d.name := fun heq => h.1 (heq ▸ List.mem_map_of_mem hd)
      rw [List.filter_cons_of_neg (by simpa using hne), ih h.2 hd]

/-- As many names as owners make a method for every name. -/
theorem map_name_zipWith : ∀ {names : List Text} {owners : List Nat},
    names.length = owners.length → (List.zipWith Method.mk names owners).map (·.name) = names
  | [], [], _ => rfl
  | n :: names, _ :: owners, h => by
    have hlen : names.length = owners.length := Nat.succ.inj h
    exact congrArg (n :: ·) (map_name_zipWith hlen)
  | [], _ :: _, h => by simp at h
  | _ :: _, [], h => by simp at h

theorem names_ofUnit (t : Tree) (unit : TestUnit) :
    (TestClass.ofUnit t unit).setUps.map (·.name) =
      MethodName.setUps [] 0 ((t.setUps unit.scope).map t.block) ∧
    (TestClass.ofUnit t unit).tearDowns.map (·.name) =
      MethodName.tearDowns 0 ((t.tearDowns unit.scope).map t.block) ∧
    (TestClass.ofUnit t unit).tests.map (·.name) =
      MethodName.tests ((TestClass.ofUnit t unit).tearDowns.map (·.name) ++
        (TestClass.ofUnit t unit).setUps.map (·.name)) (unit.tests.map t.block) := by
  have hsetUps : (TestClass.ofUnit t unit).setUps.map (·.name) =
      MethodName.setUps [] 0 ((t.setUps unit.scope).map t.block) :=
    map_name_zipWith (by rw [length_setUps, List.length_map])
  have htearDowns : (TestClass.ofUnit t unit).tearDowns.map (·.name) =
      MethodName.tearDowns 0 ((t.tearDowns unit.scope).map t.block) :=
    map_name_zipWith (by rw [length_tearDowns, List.length_map])
  refine ⟨hsetUps, htearDowns, ?_⟩
  rw [hsetUps, htearDowns]
  exact map_name_zipWith (by rw [length_tests, List.length_map])

/-! ### No name twice -/

/-- The names of the methods of a class, row by row, each row with the letters that its names start
with. -/
def nameRows (c : TestClass) : List (String × List Text) :=
  [("_se", c.setUps.map (·.name)), ("_te", c.tearDowns.map (·.name)), ("set", ["setUp".toList]),
    ("tea", if c.tearDowns.isEmpty then [] else ["tearDown".toList]),
    ("tes", c.tests.map (·.name))]

theorem map_name_definitions (t : Tree) (c : TestClass) :
    (definitions t c).map (·.name) = (nameRows c).flatMap (·.2) := by
  unfold definitions nameRows
  split <;> simp [Definition.of, Definition.dispatcher, Function.comp_def]

/-- Rows that start with different letters have no name in common. -/
theorem nodup_of_starts {rows : List (String × List Text)} (hdiffer : (rows.map (·.1)).Nodup)
    (hnodup : ∀ r ∈ rows, r.2.Nodup) (hstart : ∀ r ∈ rows, ∀ n ∈ r.2, n.take 3 = r.1.toList) :
    (rows.flatMap (·.2)).Nodup := by
  refine List.nodup_flatMap.mpr ⟨hnodup, ?_⟩
  refine (List.pairwise_map.mp hdiffer).imp_of_mem fun {r r'} hr hr' hne n hn hn' => hne ?_
  exact String.toList_injective ((hstart r hr n hn).symm.trans (hstart r' hr' n hn'))

theorem take_of_mem_nameRows (t : Tree) (unit : TestUnit) :
    ∀ r ∈ nameRows (TestClass.ofUnit t unit), ∀ n ∈ r.2, n.take 3 = r.1.toList := by
  obtain ⟨hsetUps, htearDowns, htests⟩ := names_ofUnit t unit
  simp only [nameRows, List.forall_mem_cons, List.not_mem_nil, false_implies, implies_true,
    and_true]
  refine ⟨fun n hn => ?_, fun n hn => ?_, rfl, fun n hn => ?_, fun n hn => ?_⟩
  · obtain ⟨rest, rfl⟩ := MethodName.setUps_start (hsetUps ▸ hn); rfl
  · obtain ⟨rest, rfl⟩ := MethodName.tearDowns_start (htearDowns ▸ hn); rfl
  · split at hn
    · cases hn
    · rw [List.mem_singleton.mp hn]; rfl
  · obtain ⟨rest, rfl⟩ := MethodName.tests_start (htests ▸ hn); rfl

/-- The methods of the class of a unit have different names. -/
theorem nodup_nameRows (hsuffix : ∀ i ∈ t.tearDowns unit.scope,
    MethodName.HasSuffix (t.block i)) :
    ((nameRows (TestClass.ofUnit t unit)).flatMap (·.2)).Nodup := by
  obtain ⟨hsetUps, htearDowns, htests⟩ := names_ofUnit t unit
  have hdiffer : (["_se", "_te", "set", "tea", "tes"] : List String).Nodup := by decide
  refine nodup_of_starts hdiffer ?_ (take_of_mem_nameRows t unit)
  simp only [nameRows, List.forall_mem_cons, List.not_mem_nil, false_implies, implies_true,
    and_true]
  refine ⟨?_, ?_, List.nodup_singleton _, by split <;> simp, ?_⟩
  · rw [hsetUps]; exact (MethodName.fresh_setUps _ _ _).nodup
  · rw [htearDowns]
    refine MethodName.nodup_tearDowns 0 fun b hb => ?_
    obtain ⟨i, hi, rfl⟩ := List.mem_map.mp hb
    exact hsuffix i hi
  · rw [htests]; exact (MethodName.fresh_tests _ _).nodup

/-- A class without tear-down methods has no tear-down dispatcher. -/
theorem tearDown_not_mem_nameRows (h : (TestClass.ofUnit t unit).tearDowns.isEmpty = true) :
    "tearDown".toList ∉ (nameRows (TestClass.ofUnit t unit)).flatMap (·.2) := by
  intro hmem
  obtain ⟨r, hr, hn⟩ := List.mem_flatMap.mp hmem
  have hstart : "tea" = r.1 := String.toList_injective (take_of_mem_nameRows t unit r hr _ hn)
  simp only [nameRows, h, List.mem_cons, List.not_mem_nil, or_false] at hr
  rcases hr with rfl | rfl | rfl | rfl | rfl
  · exact absurd hstart (show ¬ "tea" = "_se" by decide)
  · exact absurd hstart (show ¬ "tea" = "_te" by decide)
  · exact absurd hstart (show ¬ "tea" = "set" by decide)
  · exact absurd hn List.not_mem_nil
  · exact absurd hstart (show ¬ "tea" = "tes" by decide)

/-! ### What dispatchers call -/

/-- Statements that call methods, one for each of some blocks: the name that the `k`-th statement
calls is defined once, and holds the code of the `k`-th block. -/
structure Calls (t : Tree) (ds : List Definition) (statement : Method → Text) (blocks : List Nat)
    (calls : List Text) : Prop where
  length_eq : calls.length = blocks.length
  called : ∀ (k b : Nat), blocks[k]? = some b → ∃ name, calls[k]? = some (statement ⟨name, b⟩) ∧
    ds.filter (fun d => d.name = name) = [⟨name, methodRows t ⟨name, b⟩⟩]

theorem calls_of_methods {ds : List Definition} (hnodup : (ds.map (·.name)).Nodup)
    {ms : List Method} (hmem : ∀ m ∈ ms, Definition.of t m ∈ ds) (statement : Method → Text) :
    Calls t ds statement (ms.map (·.owner)) (ms.map statement) := by
  refine ⟨by simp, fun k b hb => ?_⟩
  rw [List.getElem?_map, Option.map_eq_some_iff] at hb
  obtain ⟨m, hm, rfl⟩ := hb
  refine ⟨m.name, by rw [List.getElem?_map, hm]; rfl, ?_⟩
  exact filter_name_eq hnodup (hmem m (List.mem_of_getElem? hm))

/-- No method of the class of a unit shadows another: the names of its methods are different, the
set-up dispatcher calls the methods of the blocks that run before the tests, one after the other,
and the tear-down dispatcher, which is there if it has something to run, those of the blocks that
run after them. -/
structure Unshadowed (t : Tree) (unit : TestUnit) : Prop where
  rows : ∀ baseClass, classRows t baseClass (.ofUnit t unit) =
    .ok (classHead t baseClass (.ofUnit t unit) ++
      (definitions t (.ofUnit t unit)).flatMap (·.rows))
  distinct : ((definitions t (.ofUnit t unit)).map (·.name)).Nodup
  setUp : ∃ calls, .dispatcher "setUp" calls ∈ definitions t (.ofUnit t unit) ∧
    Calls t (definitions t (.ofUnit t unit)) (setUpText t) (t.setUps unit.scope) calls
  tearDown : t.tearDowns unit.scope ≠ [] →
    ∃ calls, .dispatcher "tearDown" calls ∈ definitions t (.ofUnit t unit) ∧
      Calls t (definitions t (.ofUnit t unit)) tearDownCall (t.tearDowns unit.scope) calls
  no_tearDown : t.tearDowns unit.scope = [] →
    "tearDown".toList ∉ (definitions t (.ofUnit t unit)).map (·.name)

end TestModule

open TestModule in
/-- In every class that is generated from a spec the methods have different names, and dispatchers
call those of their blocks. -/
theorem class_methods_unshadowed {source : Text} {seed : Digest} {t : Tree}
    (h : parse source seed = .ok t) {unit : TestUnit} (hu : unit ∈ t.units) :
    Unshadowed t unit := by
  have hsuffix : ∀ i ∈ t.tearDowns unit.scope, MethodName.HasSuffix (t.block i) := by
    intro i hi
    obtain ⟨scope, -, hi⟩ := List.mem_flatMap.mp hi
    have hkind : (t.block i).kind = .after := of_decide_eq_true (List.mem_filter.mp hi).2
    exact Parser.hasSuffix_of_parse h (by rw [hkind]; rfl)
  have hnodup : ((definitions t (.ofUnit t unit)).map (·.name)).Nodup := by
    rw [map_name_definitions]; exact nodup_nameRows hsuffix
  obtain ⟨hsetUps, htearDowns, -⟩ := owners_ofUnit t unit
  have hempty : (TestClass.ofUnit t unit).tearDowns.isEmpty = (t.tearDowns unit.scope).isEmpty := by
    rw [← htearDowns, List.isEmpty_map]
  refine ⟨classRows_eq_definitions (mem_classes hu), hnodup, ?_, fun hne => ?_, fun hnil => ?_⟩
  · refine ⟨_, mem_definitions.mpr (.inr (.inr (.inl rfl))), ?_⟩
    rw [← hsetUps]
    exact calls_of_methods hnodup (fun m hm => mem_definitions.mpr (.inl ⟨m, hm, rfl⟩)) _
  · have hsome : (TestClass.ofUnit t unit).tearDowns ≠ [] := by
      rintro heq
      rw [← htearDowns, heq] at hne
      exact hne rfl
    refine ⟨_, mem_definitions.mpr (.inr (.inr (.inr (.inl ⟨hsome, rfl⟩)))), ?_⟩
    rw [← htearDowns]
    exact calls_of_methods hnodup (fun m hm => mem_definitions.mpr (.inr (.inl ⟨m, hm, rfl⟩))) _
  · rw [map_name_definitions]
    exact tearDown_not_mem_nameRows (by rw [hempty, hnil]; rfl)

/-- A spec whose labels look like numbered names. -/
def crowdedSpec : Text :=
  ("describe \"A\":\n    let \"x\": 1\n    let \"x 2\": 2\n    after \"x 0\": pass\n" ++
    "    after \"x\": pass\n    context \"B\":\n        let \"x\": 3\n        it \"y\": pass\n" ++
    "        it \"y 2\": pass\n        it \"y\": pass\n").toList

theorem class_methods_unshadowed_crowded : ∃ t unit,
    parse crowdedSpec (Vector.replicate 32 7) = .ok t ∧ unit ∈ t.units ∧
    (TestClass.ofUnit t unit).setUps.map (·.name) =
      ["_set_up_x".toList, "_set_up_x_2".toList, "_set_up_x_3".toList] ∧
    (TestClass.ofUnit t unit).tests.map (·.name) =
      ["test_y".toList, "test_y_2".toList, "test_y_3".toList] ∧
    t.tearDowns unit.scope = [4, 5] ∧ TestModule.Unshadowed t unit := by
  have hview : (parse crowdedSpec (Vector.replicate 32 7)).map (fun t =>
      (t.units, (TestClass.ofUnit t ⟨6, [8, 9, 10]⟩).setUps.map (·.name),
        (TestClass.ofUnit t ⟨6, [8, 9, 10]⟩).tests.map (·.name), t.tearDowns 6)) =
      .ok ([⟨6, [8, 9, 10]⟩], ["_set_up_x".toList, "_set_up_x_2".toList, "_set_up_x_3".toList],
        ["test_y".toList, "test_y_2".toList, "test_y_3".toList], [4, 5]) := by
    decide +kernel
  obtain ⟨t, h, hview⟩ := exists_of_map_eq_ok hview
  simp only [Prod.mk.injEq] at hview
  obtain ⟨hunits, hsetUps, htests, htearDowns⟩ := hview
  have hu : ⟨6, [8, 9, 10]⟩ ∈ t.units := by rw [hunits]; exact List.mem_singleton_self _
  exact ⟨t, _, h, hu, hsetUps, htests, htearDowns, class_methods_unshadowed h hu⟩

end BlockSpec
