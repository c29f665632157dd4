import BlockSpec.Compile
import BlockSpec.Proofs.Digits
import BlockSpec.Proofs.Pieces

/-! # Stamps and fingerprints

The bytes that are fingerprinted are the text of a spec, a zero, the base class, a zero and a flag.
A spec may hold zeros, but a base class may not, so the bytes fall apart in one way only, read from
their end. A module carries the digest of these bytes in its first line and the path of its spec in
its fourth: the digest can be read back, and the path is the only thing in a module that is not
determined by what was fingerprinted. So modules with the same digest differ at most in the path,
unless two of the fingerprinted byte strings collide. -/

namespace BlockSpec

/-! ### Bytes of texts -/

namespace Text

theorem utf8_injective : Function.Injective utf8 := by
  intro s t h
  have hbytes : (String.ofList s).toByteArray = (String.ofList t).toByteArray := by
    rw [String.toByteArray_ofList, String.toByteArray_ofList]
    exact congrArg List.toByteArray h
  exact String.ofList_injective (String.toByteArray_inj.mp hbytes)

/-- Only the zero character has a zero byte. -/
theorem zero_not_mem_utf8 {t : Text} (h : Char.ofNat 0 ∉ t) : 0 ∉ t.utf8 := by
  intro hmem
  obtain ⟨c, hc, hzero⟩ := List.mem_flatMap.mp hmem
  have hne : c.val.toNat ≠ 0 := by
    intro h0
    have hzero : c = Char.ofNat 0 := Char.ext (UInt32.toNat_inj.mp h0)
    exact h (hzero ▸ hc)
  have hbyte : ∀ k, 0 < k → k < 256 → (0 : UInt8) ≠ UInt8.ofNat k := by
    intro k hpos hlt heq
    have hk := congrArg UInt8.toNat heq
    rw [UInt8.toNat_ofNat', Nat.mod_eq_of_lt hlt] at hk
    exact absurd hk (Nat.ne_of_lt hpos)
  simp only [String.utf8EncodeChar] at hzero
  split at hzero
  · exact hbyte _ (by omega) (by omega) (List.mem_singleton.mp hzero)
  · -- the bytes of longer characters all have their highest bit set
    have hhigh : ∀ k m n, m ≤ 0x40 → 0 < m → 0x80 ≤ n → n + m ≤ 256 →
        (0 : UInt8) ≠ UInt8.ofNat (k % m + n) := by
      intro k m n hm hpos hn hsum
      have := Nat.mod_lt k hpos
      exact hbyte _ (by omega) (by omega)
    split at hzero
    · simp only [List.mem_cons, List.not_mem_nil, or_false] at hzero
      rcases hzero with h | h <;> exact hhigh _ _ _ (by omega) (by omega) (by omega) (by omega) h
    · split at hzero
      · simp only [List.mem_cons, List.not_mem_nil, or_false] at hzero
        rcases hzero with h | h | h <;>
          exact hhigh _ _ _ (by omega) (by omega) (by omega) (by omega) h
      · simp only [List.mem_cons, List.not_mem_nil, or_false] at hzero
        rcases hzero with h | h | h | h <;>
          exact hhigh _ _ _ (by omega) (by omega) (by omega) (by omega) h

end Text

/-- The fingerprinted bytes determine the spec, the base class and the choice of markers. -/
theorem fingerprintBytes_inj {source source' : Text} {options options' : Options}
    (hbase : Char.ofNat 0 ∉ options.baseClass) (hbase' : Char.ofNat 0 ∉ options'.baseClass)
    (h : fingerprintBytes source options = fingerprintBytes source' options') :
    source = source' ∧ options.baseClass = options'.baseClass ∧
      options.lineMarkers = options'.lineMarkers := by
  obtain ⟨hfront, hback⟩ := List.append_inj' h rfl
  obtain ⟨hsource, hclass⟩ := append_cons_inj_of_not_mem (Text.zero_not_mem_utf8 hbase)
    (Text.zero_not_mem_utf8 hbase') hfront
  refine ⟨Text.utf8_injective hsource, Text.utf8_injective hclass, ?_⟩
  cases hm : options.lineMarkers <;> cases hm' : options'.lineMarkers <;> simp [hm, hm'] at hback ⊢

/-- With a zero in a base class they do not: what stands before the zero can as well stand at the
end of the spec. -/
theorem fingerprintBytes_zero (source front back : Text) (options : Options) :
    fingerprintBytes source { options with baseClass := front ++ Char.ofNat 0 :: back } =
      fingerprintBytes (source ++ Char.ofNat 0 :: front) { options with baseClass := back } := by
  have hzero : String.utf8EncodeChar (Char.ofNat 0) = [0] := by decide
  simp [fingerprintBytes, Text.utf8, hzero]

/-! ### Stamps -/

namespace Text

/-- The first line of a text ends at the first newline. -/
theorem lines_append_newline {first : Text} (hfirst : ∀ c ∈ first, c ≠ '\n' ∧ c ≠ '\r')
    (rest : Text) : lines (first ++ '\n' :: rest) = first :: lines rest := by
  induction first with
  | nil => rfl
  | cons c first ih =>
    obtain ⟨⟨hn, hr⟩, hfirst⟩ := List.forall_mem_cons.mp hfirst
    rw [List.cons_append, lines]
    · rw [ih hfirst]
    · exact fun h => hn h
    · intro t h _
      exact hr h

theorem stripStart?_append (beginning rest : Text) :
    stripStart? beginning (beginning ++ rest) = some rest := by
  induction beginning with
  | nil => rfl
  | cons c beginning ih => rw [List.cons_append, stripStart?, if_pos rfl, ih]

/-- A text without blanks loses nothing by trimming. -/
theorem trim_eq_self {t : Text} (h : ∀ c ∈ t, isBlank c = false) : trim t = t := by
  have hstart : ∀ {t : Text}, (∀ c ∈ t, isBlank c = false) → t.dropWhile isBlank = t := by
    intro t h
    cases t with
    | nil => rfl
    | cons c t => rw [List.dropWhile_cons, h c List.mem_cons_self]; rfl
  have hend : ∀ c ∈ t.reverse, isBlank c = false := fun c hc => h c (List.mem_reverse.mp hc)
  rw [trim, trimStart, hstart h, trimEnd, hstart hend, List.reverse_reverse]

end Text

namespace Stamp

/-- A digest can be read back from the first line. -/
theorem readDigest?_of_hex (digest : Digest) (rest : Text) :
    readDigest? (digestLead ++ digest.hex ++ '\n' :: rest) = some digest.hex := by
  have hline : ∀ c ∈ digestLead ++ digest.hex, c ≠ '\n' ∧ c ≠ '\r' := by
    intro c hc
    rcases List.mem_append.mp hc with hc | hc
    · have hlead : digestLead.all (fun c => c != '\n' && c != '\r') = true := by decide
      simpa using List.all_eq_true.mp hlead c hc
    · have hblank := Digest.isBlank_of_mem_hex hc
      constructor <;> rintro rfl <;> exact absurd hblank (by decide)
  have hdigits : Text.allBlank digest.hex = false := by
    obtain ⟨c, hc⟩ := List.exists_mem_of_ne_nil _ digest.hex_ne_nil
    rw [Text.allBlank, List.all_eq_false]
    exact ⟨c, hc, by simp [Digest.isBlank_of_mem_hex hc]⟩
  rw [readDigest?, Text.lines_append_newline hline]
  simp only [Text.stripStart?_append, hdigits]
  exact congrArg some (Text.trim_eq_self fun c hc => Digest.isBlank_of_mem_hex hc)

end Stamp

/-! ### Compiled modules -/

open TestModule in
/-- A stamp stands in front of a module and changes nothing else in it. -/
theorem generate_stamped (t : Tree) (options : Options) (stamp : Stamp) :
    generate t { options with stamp := some stamp } =
      (generate t { options with stamp := none }).map
        (Text.ofLines (stamp.rows.map (Row.render options.lineMarkers)) ++ ·) := by
  rw [generate_eq, generate_eq, Except.map, pieces, pieces]
  simp only [List.cons_append, printed_cons, Piece.rows, openingRows, Text.ofLines, Option.map_some,
    Option.getD_some, Option.map_none, Option.getD_none, List.nil_append, List.append_assoc,
    List.map_append, List.flatMap_append]

/-- Everything in a module up to the path of its spec. -/
def moduleHead (content : Text) (options : Options) : Text :=
  Text.ofLines [Stamp.digestLead ++ (fingerprint content options).hex,
    "# This file was auto-generated by carinata".toList,
    "# It may be overwritten at any time, so please refer to the original:".toList] ++ "# ".toList

/-- A spec that can be read is compiled, and the module depends on the path that it records only
where it records it. -/
theorem exists_compile_eq {content : Text} {options : Options} {t : Tree}
    (h : parse content (fingerprint content options) = .ok t) : ∃ rest, ∀ file path : Text,
    compile ⟨file, content⟩ path options = .ok (moduleHead content options ++ path ++ rest) := by
  obtain ⟨body, hbody⟩ : ∃ body, generate t { options with stamp := none } = .ok body :=
    ⟨_, TestModule.generate_eq t _⟩
  refine ⟨"\n#\n".toList ++ body, fun file path => ?_⟩
  have hrows : Text.ofLines ((Stamp.rows ⟨some (fingerprint content options).hex, path⟩).map
      (Row.render options.lineMarkers)) = moduleHead content options ++ path ++ "\n#\n".toList := by
    simp [Stamp.rows, Row.render, Text.ofLines, moduleHead]
  simp only [compile, h, generate_stamped, hbody, Except.map, hrows, List.append_assoc]

/-- A compiled module carries the fingerprint of its spec, and differs from any other module that
is compiled from the same text only in the path. -/
theorem compile_eq_ok {file content path : Text} {options : Options} {text : Text}
    (h : compile ⟨file, content⟩ path options = .ok text) :
    Stamp.readDigest? text = some (fingerprint content options).hex ∧
    ∃ rest, text = moduleHead content options ++ path ++ rest ∧ ∀ file' path' : Text,
      compile ⟨file', content⟩ path' options = .ok (moduleHead content options ++ path' ++ rest) := by
  cases hp : parse content (fingerprint content options) with
  | error fault => simp [compile, hp] at h
  | ok t =>
    obtain ⟨rest, hrest⟩ := exists_compile_eq hp
    obtain rfl : moduleHead content options ++ path ++ rest = text := by
      have := (hrest file path).symm.trans h
      exact Except.ok.inj this
    refine ⟨?_, rest, rfl, hrest⟩
    simp only [moduleHead, Text.ofLines, List.flatMap_cons, List.append_assoc, List.cons_append,
      List.nil_append]
    rw [← List.append_assoc]
    exact Stamp.readDigest?_of_hex _ _

/-! ### Equal stamps -/

/-- Of the options only the base class and the choice of markers count: a stamp among them is
replaced. -/
theorem compile_congr {options options' : Options}
    (hclass : options.baseClass = options'.baseClass)
    (hmarkers : options.lineMarkers = options'.lineMarkers) (source : Source) (path : Text) :
    compile source path options = compile source path options' := by
  obtain ⟨baseClass, lineMarkers, stamp⟩ := options
  obtain ⟨baseClass', lineMarkers', stamp'⟩ := options'
  obtain rfl : baseClass = baseClass' := hclass
  obtain rfl : lineMarkers = lineMarkers' := hmarkers
  rfl

/-- Two specs come out alike under their options, whatever files they are in and whatever paths are
recorded: both are refused for the same fault, or both give modules that are the same before and
behind the path. -/
def CompileAlike (content content' : Text) (options options' : Options) : Prop :=
  (∃ fault : Fault, ∀ file path : Text,
    compile ⟨file, content⟩ path options =
      .error (Source.diagnose ⟨file, content⟩ "parse".toList fault) ∧
    compile ⟨file, content'⟩ path options' =
      .error (Source.diagnose ⟨file, content'⟩ "parse".toList fault)) ∨
  ∃ rest : Text, ∀ file path : Text,
    compile ⟨file, content⟩ path options = .ok (moduleHead content options ++ path ++ rest) ∧
    compile ⟨file, content'⟩ path options' = .ok (moduleHead content options ++ path ++ rest)

/-- A spec comes out alike under options that agree on the base class and on the markers. -/
theorem compileAlike_of_eq (content : Text) {options options' : Options}
    (hclass : options.baseClass = options'.baseClass)
    (hmarkers : options.lineMarkers = options'.lineMarkers) :
    CompileAlike content content options options' := by
  have hsame := compile_congr hclass hmarkers
  cases hparse : parse content (fingerprint content options) with
  | error fault =>
    have hrefused : ∀ file path : Text, compile ⟨file, content⟩ path options =
        .error (Source.diagnose ⟨file, content⟩ "parse".toList fault) := by
      intro file path
      simp [compile, hparse]
    exact .inl ⟨fault, fun file path => ⟨hrefused file path, hsame _ path ▸ hrefused file path⟩⟩
  | ok t =>
    obtain ⟨rest, hrest⟩ := exists_compile_eq hparse
    exact .inr ⟨rest, fun file path => ⟨hrest file path, hsame _ path ▸ hrest file path⟩⟩

/-- The fingerprinted bytes are equal exactly for equal specs under equal settings, zeros in the
specs or not. So as long as these bytes do not collide, specs whose modules carry the same digest
come out alike. -/
theorem stamp_decides_module {content content' : Text} {options options' : Options}
    (hbase : Char.ofNat 0 ∉ options.baseClass) (hbase' : Char.ofNat 0 ∉ options'.baseClass) :
    (fingerprintBytes content options = fingerprintBytes content' options' ↔
      content = content' ∧ options.baseClass = options'.baseClass ∧
        options.lineMarkers = options'.lineMarkers) ∧
    ((sha256 (fingerprintBytes content options) = sha256 (fingerprintBytes content' options') →
        fingerprintBytes content options = fingerprintBytes content' options') →
      (fingerprint content options).hex = (fingerprint content' options').hex →
      CompileAlike content content' options options') := by
  constructor
  · constructor
    · exact fingerprintBytes_inj hbase hbase'
    · rintro ⟨rfl, hclass, hmarkers⟩
      rw [fingerprintBytes, fingerprintBytes, hclass, hmarkers]
  · intro hcollision hstamp
    have hdigest : fingerprint content options = fingerprint content' options' :=
      Digest.hex_injective hstamp
    obtain ⟨rfl, hclass, hmarkers⟩ := fingerprintBytes_inj hbase hbase' (hcollision hdigest)
    exact compileAlike_of_eq content hclass hmarkers

/-- A spec that holds zeros: its bytes differ from those of the spec that goes on with the base
class, and a stamp that is already among the options changes nothing. -/
theorem stamp_decides_module_zeros :
    Char.ofNat 0 ∉ "b".toList ∧ Char.ofNat 0 ∉ "".toList ∧
    fingerprintBytes "a\x00".toList { baseClass := "b".toList } ≠
      fingerprintBytes "a\x00\x00b".toList { baseClass := "".toList } ∧
    CompileAlike "a\x00".toList "a\x00".toList { baseClass := "b".toList }
      { baseClass := "b".toList, stamp := some ⟨none, "a".toList⟩ } := by
  have hclass : Char.ofNat 0 ∉ "b".toList := by decide
  have hempty : Char.ofNat 0 ∉ "".toList := by decide
  refine ⟨hclass, hempty, fun heq => ?_, (stamp_decides_module hclass hclass).2 (fun _ => rfl) rfl⟩
  exact absurd ((stamp_decides_module hclass hempty).1.mp heq).1 (by decide)

end BlockSpec
