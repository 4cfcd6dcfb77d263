/-!
# Shortest decimals

The decimal with the fewest digits that reads back as a given double, and among those the nearest.
The double is taken apart by its bits and all comparisons are exact, over natural numbers.
-/

namespace QueryTypes

/-- The number `digits * 10 ^ exponent`. -/
structure Decimal where
  digits : Nat
  exponent : Int
  deriving Repr, DecidableEq

namespace Decimal

/-- A positive double as the reals that round to it: its value is `4 * mantissa`, the ends are
`low` and `high`, all three in units of `2 ^ scale`. An even mantissa owns its ends. -/
structure Interval where
  mantissa : Nat
  low : Nat
  high : Nat
  scale : Int

/-- The interval of a finite double that is not zero, its sign dropped. Below a power of two the
next double is half as far away. -/
def Interval.ofFloat (x : Float) : Interval :=
  let bits := x.toBits.toNat
  let biased : Nat := bits / Nat.pow 2 52 % Nat.pow 2 11
  let fraction : Nat := bits % Nat.pow 2 52
  if biased = 0 then ⟨fraction, 4 * fraction - 2, 4 * fraction + 2, -1076⟩
  else
    let m := fraction + Nat.pow 2 52
    ⟨m, if fraction = 0 ∧ 1 < biased then 4 * m - 1 else 4 * m - 2, 4 * m + 2, (biased : Int) - 1077⟩

/-- `c * 10 ^ p` brought over the common denominator of `10 ^ p` and `2 ^ scale`. -/
def decimalSide (scale p : Int) (c : Nat) : Nat :=
  c * Nat.pow 10 p.toNat * Nat.pow 2 (-scale).toNat

/-- `x * 2 ^ scale` brought over the common denominator of `10 ^ p` and `2 ^ scale`. -/
def binarySide (scale p : Int) (x : Nat) : Nat :=
  x * Nat.pow 2 scale.toNat * Nat.pow 10 (-p).toNat

/-- Whether `c * 10 ^ p` reads back as the double. -/
def Interval.holds (i : Interval) (p : Int) (c : Nat) : Bool :=
  let d := decimalSide i.scale p c
  let low := binarySide i.scale p i.low
  let high := binarySide i.scale p i.high
  if i.mantissa % 2 = 0 then decide (low ≤ d ∧ d ≤ high) else decide (low < d ∧ d < high)

/-- The multiple of `10 ^ p` nearest to the double among its two neighbours that read back; a tie
goes to the even one. -/
def Interval.nearest? (i : Interval) (p : Int) : Option Nat :=
  let v := binarySide i.scale p (4 * i.mantissa)
  let c := v / decimalSide i.scale p 1
  match i.holds p c, i.holds p (c + 1) with
  | false, false => none
  | true, false => some c
  | false, true => some (c + 1)
  | true, true =>
    let below := v - decimalSide i.scale p c
    let above := decimalSide i.scale p (c + 1) - v
    if below < above then some c
    else if above < below then some (c + 1)
    else if c % 2 = 0 then some c else some (c + 1)

/-- An exponent that is at least that of the first digit, and at most three above it: the double is
below the next power of two, and `0.30103` is the logarithm of two to base ten. -/
def Interval.leadingBound (i : Interval) : Int :=
  ((Nat.log2 (4 * i.mantissa) : Int) + 1 + i.scale) * 30103 / 100000 + 1

/-- The exponent of the first digit: the largest `e` with `10 ^ e` at most the double. -/
def Interval.leading (i : Interval) : Int :=
  let steps := (List.range 4).find? fun (k : Nat) =>
    let e := i.leadingBound - k
    decide (decimalSide i.scale e 1 ≤ binarySide i.scale e (4 * i.mantissa))
  i.leadingBound - ((steps.getD 4 : Nat) : Int)

/-- Drops trailing zeros into the exponent. -/
def strip : Nat → Decimal → Decimal
  | 0, d => d
  | fuel + 1, d =>
    if d.digits ≠ 0 ∧ d.digits % 10 = 0 then strip fuel ⟨d.digits / 10, d.exponent + 1⟩ else d

/-- The shortest decimal that reads back as the absolute value of a finite double. -/
def shortest (x : Float) : Decimal :=
  let i := Interval.ofFloat x
  if i.mantissa = 0 then ⟨0, 0⟩
  else
    let found := (List.range 17).findSome? fun (k : Nat) =>
      (i.nearest? (i.leading - k)).map fun c => (⟨c, i.leading - k⟩ : Decimal)
    strip 20 (found.getD ⟨0, 0⟩)

end Decimal
end QueryTypes
