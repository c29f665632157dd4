import BlockSpec.Decimal.Shortest
import BlockSpec.Text.Quoted
import BlockSpec.Yaml.Scalar

/-! # The meaning of a plain scalar

A plain scalar may stand for null, a boolean, a whole number or a floating point number; everything
else is a text. Digits behind a leading zero are a text. -/

namespace BlockSpec.Yaml

/-- A floating point number. -/
inductive Real where
  | finite (negative : Bool) (size : Binary64)
  | infinite (negative : Bool)
  | notANumber
  deriving DecidableEq, Repr

/-- What a scalar stands for. -/
inductive Meaning where
  | null
  | boolean (b : Bool)
  | integer (n : Int)
  | real (r : Real)
  | text
  deriving DecidableEq, Repr

/-- The spellings of null. -/
def isNull (t : Text) : Bool := ["null", "Null", "NULL", "~"].any (·.toList == t)

/-- The spellings of booleans. -/
def boolean? (t : Text) : Option Bool :=
  if ["true", "True", "TRUE"].any (·.toList == t) then some true
  else if ["false", "False", "FALSE"].any (·.toList == t) then some false
  else none

/-- A sign at the start of a text: whether it is a minus, and the rest. -/
def signed : Text → Option Bool × Text
  | '+' :: t => (some false, t)
  | '-' :: t => (some true, t)
  | t => (none, t)

/-- Whether a text, apart from a sign, is a zero with more digits behind it. -/
def isPaddedZero (t : Text) : Bool :=
  match (signed t).2 with
  | '0' :: d :: rest => (d :: rest).all Char.isDigit
  | _ => false

/-- The value of a digit in bases up to sixteen. -/
def digitIn? (base : Nat) (c : Char) : Option Nat :=
  (hexValue? c).bind fun n => if n < base then some n else none

/-- The number that digits in a base stand for; there must be at least one. -/
def natIn? (base : Nat) (digits : Text) : Option Nat :=
  if digits.isEmpty then none
  else digits.foldlM (fun n c => (digitIn? base c).map (base * n + ·)) 0

/-- The size of a whole number without its sign: in base 16, 8 or 2 behind a mark, else in base
10. -/
def size? (t : Text) : Option Nat :=
  match t with
  | '0' :: 'x' :: rest => natIn? 16 rest
  | '0' :: 'o' :: rest => natIn? 8 rest
  | '0' :: 'b' :: rest => natIn? 2 rest
  | t => natIn? 10 t

/-- A whole number of at most 128 bits. -/
def integer? (t : Text) : Option Int :=
  if isPaddedZero t then none
  else
    let (minus, rest) := signed t
    (size? rest).bind fun n =>
      if minus = some true then if n ≤ Nat.pow 2 127 then some (-(n : Int)) else none
      else if n < Nat.pow 2 128 then some n else none

/-- The digits at the start of a text, and what follows. -/
def leadingDigits (t : Text) : Text × Text := t.span Char.isDigit

/-- An exponent: its mark, an optional sign, and digits. -/
def exponent? : Text → Option Int
  | [] => some 0
  | c :: t =>
    if c == 'e' || c == 'E' then
      let (minus, rest) := signed t
      (natIn? 10 rest).map fun n => if minus = some true then -(n : Int) else n
    else none

/-- The number nearest to `digits · 10 ^ exponent`; none if it is too large. Exponents far outside
the range are settled by the number of digits. -/
def nearest? (digits : Nat) (exponent : Int) : Option Binary64 :=
  let top : Int := (Nat.toDigits 10 digits).length + exponent
  if digits = 0 || top < -330 then some ⟨0, 0⟩
  else if 310 < top then none
  else Binary64.ofFraction? (digits * Nat.pow 10 exponent.toNat) (Nat.pow 10 (-exponent).toNat)

/-- A finite number in decimal notation, without its sign: digits, a point and digits, an exponent;
there must be a digit before the exponent. -/
def decimal? (t : Text) : Option Binary64 :=
  let (whole, rest) := leadingDigits t
  let (fraction, rest) := match rest with
    | '.' :: rest => leadingDigits rest
    | rest => ([], rest)
  if whole.isEmpty && fraction.isEmpty then none
  else (natIn? 10 (whole ++ fraction)).bind fun digits =>
    (exponent? rest).bind fun e => nearest? digits (e - fraction.length)

/-- A floating point number. -/
def real? (t : Text) : Option Real :=
  let (minus, rest) := signed t
  if [".inf", ".Inf", ".INF"].any (·.toList == rest) then some (.infinite (minus = some true))
  else if [".nan", ".NaN", ".NAN"].any (·.toList == t) then some .notANumber
  else (decimal? rest).map (.finite (minus = some true))

/-- What a plain scalar stands for. -/
def meaning (t : Text) : Meaning :=
  if t.isEmpty || isNull t then .null
  else match boolean? t with
    | some b => .boolean b
    | none =>
      match integer? t with
      | some n => .integer n
      | none =>
        if isPaddedZero t then .text
        else match real? t with
          | some r => .real r
          | none => .text

/-- A floating point number as it stands in messages. -/
def Real.show : Real → Text
  | .finite negative size => (if negative then ['-'] else []) ++ size.shortest.positional
  | .infinite negative => (if negative then ['-'] else []) ++ "inf".toList
  | .notANumber => "NaN".toList

/-- What a scalar is, as messages put it. Whole numbers beyond 64 bits name their width. -/
def Meaning.describe (m : Meaning) (t : Text) : Text :=
  match m with
  | .null => "unit value".toList
  | .boolean b => "boolean `".toList ++ (if b then "true" else "false").toList ++ "`".toList
  | .integer n =>
    "integer `".toList ++ Text.ofInt n ++ "`".toList ++
      (if Int.ofNat (Nat.pow 2 64) ≤ n then " as u128".toList
      else if n < -Int.ofNat (Nat.pow 2 63) then " as i128".toList
      else [])
  | .real r => "floating point `".toList ++ r.show ++ "`".toList
  | .text => "string ".toList ++ Text.quoted t

end BlockSpec.Yaml
