import BlockSpec.Naming
import BlockSpec.Tree.Basic

/-! # Method names

A name that is taken is numbered: `base_n` for the first free `n` from a given start. Of any
`k + 1` numbered names at least one is not among `k` taken ones, so the search is over a range. -/

namespace BlockSpec

namespace MethodName

/-- A base name with a number behind it. -/
def numbered (base : Text) (n : Nat) : Text := base ++ '_' :: Text.ofNat n

/-- The base name if it is free, and else the first free numbered one from `n` on. -/
def free (taken : List Text) (base : Text) (n : Nat) : Text :=
  if taken.contains base then
    (((List.range' n (taken.length + 1)).map (numbered base)).find? (!taken.contains ·)).getD base
  else base

/-- The name of the method of a block that may be repeated: lead, label, position and suffix. -/
def partialName (lead : Text) (b : Block) (index : Nat) : Text :=
  let stem := snake b.label
  lead ++ (if stem.isEmpty then [] else '_' :: stem) ++ '_' :: Text.ofNat index ++ b.suffix.getD []

/-- The name that a set-up method would like to have. -/
def setUp (b : Block) (index : Nat) : Text :=
  if b.kind = .binding then "_set_up_".toList ++ snake b.label
  else partialName "_set_up".toList b index

/-- The name of a tear-down method. -/
def tearDown (b : Block) (index : Nat) : Text := partialName "_tear_down".toList b index

/-- The name that a test method would like to have. -/
def test (b : Block) : Text := "test_".toList ++ snake b.label

/-- The names of a row of set-up methods, the first of which has position `index`. A taken name is
numbered from the method's position. -/
def setUps (taken : List Text) (index : Nat) : List Block → List Text
  | [] => []
  | b :: bs =>
    let name := free taken (setUp b index) index
    name :: setUps (name :: taken) (index + 1) bs

/-- The names of a row of tear-down methods, the first of which has position `index`. -/
def tearDowns (index : Nat) : List Block → List Text
  | [] => []
  | b :: bs => tearDown b index :: tearDowns (index + 1) bs

/-- The names of a row of test methods. A taken name is numbered from two. -/
def tests (taken : List Text) : List Block → List Text
  | [] => []
  | b :: bs =>
    let name := free taken (test b) 2
    name :: tests (name :: taken) bs

end MethodName

end BlockSpec
