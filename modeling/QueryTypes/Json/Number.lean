import QueryTypes.Decimal.Shortest

/-!
# JSON numbers

An integer literal that fits 64 bits is an integer, any other number is a double. The two never
compare equal: `1` and `1.0` are different numbers.
-/

namespace QueryTypes

/-- A JSON number: an integer from `-2 ^ 63` to `2 ^ 64 - 1`, or a finite double. -/
inductive Number where
  | int (value : Int)
  | float (value : Float)
  deriving DecidableEq

namespace Number

/-- Numeric equality within each form; the two zeros of a double are equal. -/
def same : Number → Number → Bool
  | .int a, .int b => a == b
  | .float a, .float b => a == b
  | _, _ => false

instance : BEq Number := ⟨same⟩

/-- Integers that fit a signed 64-bit word. -/
def inWord (n : Int) : Bool := decide (-Int.pow 2 63 ≤ n ∧ n < Int.pow 2 63)

/-- The number as a signed 64-bit integer. -/
def int64? : Number → Option Int
  | .int n => if inWord n then some n else none
  | .float _ => none

/-- An exponent with its sign. -/
def exponentText (e : Int) : List Char :=
  'e' :: (if e < 0 then '-' else '+') :: Nat.toDigits 10 e.natAbs

/-- The digits of a double with a decimal point: all of them around the point while it stands at
most five places before the first or sixteen after, else one before the point and an exponent. -/
def floatText (x : Float) : String :=
  let d := Decimal.shortest x
  let sign := if x.toBits.toNat / Nat.pow 2 63 = 1 then "-" else ""
  let digits := Nat.toDigits 10 d.digits
  let point : Int := digits.length + d.exponent
  let body : List Char :=
    if d.digits = 0 then ['0', '.', '0']
    else if 0 ≤ d.exponent ∧ point ≤ 16 then
      digits ++ List.replicate d.exponent.toNat '0' ++ ['.', '0']
    else if 0 < point ∧ point ≤ 16 then
      digits.take point.toNat ++ '.' :: digits.drop point.toNat
    else if -5 < point ∧ point ≤ 0 then
      '0' :: '.' :: List.replicate (-point).toNat '0' ++ digits
    else
      let tail := exponentText (point - 1)
      match digits with
      | [c] => c :: tail
      | c :: rest => c :: '.' :: rest ++ tail
      | [] => tail
  sign ++ String.ofList body

/-- The number as JSON text. -/
def text : Number → String
  | .int n => toString n
  | .float x => floatText x

end Number
end QueryTypes
