import BlockSpec.Diagnostic
import BlockSpec.Digest.Sha256
import BlockSpec.Parser
import BlockSpec.TestModule.Render

/-! # Compiling a spec

A spec is compiled by reading it and writing out its test module. The module is stamped with a
fingerprint of everything that shapes it: the text of the spec, the base class and whether lines are
marked. The same fingerprint is the seed of the suffixes, so equal inputs give equal modules. -/

namespace BlockSpec

/-- The bytes that are fingerprinted: the spec, a zero, the base class, a zero, and the choice of
markers. -/
def fingerprintBytes (source : Text) (options : Options) : List UInt8 :=
  source.utf8 ++ 0 :: options.baseClass.utf8 ++ [0, if options.lineMarkers then 1 else 0]

/-- The fingerprint of a spec under options. -/
def fingerprint (source : Text) (options : Options) : Digest :=
  sha256 (fingerprintBytes source options)

/-- Compiles a spec into a stamped module that names the given path as its spec. -/
def compile (source : Source) (specPath : Text) (options : Options) : Except Diagnostic Text :=
  let digest := fingerprint source.content options
  match parse source.content digest with
  | .error fault => .error (source.diagnose "parse".toList fault)
  | .ok tree =>
    match generate tree { options with stamp := some ⟨some digest.hex, specPath⟩ } with
    | .error fault => .error (source.diagnose "codegen".toList fault)
    | .ok text => .ok text

end BlockSpec
