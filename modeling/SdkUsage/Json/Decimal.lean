/-
Decimal numbers on their way to doubles.

A number is kept as a significand of 64 bits scaled by a power of ten. Digits
that no longer fit into the significand only scale it before the point, and
are dropped behind it. The significand, the power of ten and their product
are each rounded to a double, so a number close to the largest double may be
refused although it is below, or kept although it is above.
-/
namespace SdkUsage.Json

/-- The number a digit stands for. -/
def digitValue (c : Char) : Nat := c.toNat - '0'.toNat

/-- The number digits stand for. -/
def naturalOf (digits : List Char) : Nat :=
  digits.foldl (fun value c => 10 * value + digitValue c) 0

/-- Natural numbers have 64 bits. -/
def naturalLimit : Nat := Nat.pow 2 64

/-- Appends digits to a number as long as it keeps to 64 bits, and gives the
digits that are left. -/
def appendDigits (value : Nat) : List Char → Nat × List Char
  | [] => (value, [])
  | c :: cs =>
    let next := 10 * value + digitValue c
    if next < naturalLimit then appendDigits next cs else (value, c :: cs)

/-- A number scaled by a power of ten. -/
structure Decimal where
  significand : Nat
  exponent : Int

/-- The digits before and behind a point, scaled by a power of ten. -/
def Decimal.ofDigits (whole fraction : List Char) (exponent : Int) : Decimal :=
  let (value, scaling) := appendDigits 0 whole
  let (value, dropped) := appendDigits value fraction
  ⟨value, exponent + scaling.length - (fraction.length - dropped.length)⟩

/-- The nearest number of 53 bits and zeros behind them. Of two that are equally
near it is the one whose last bit is zero. -/
def roundToDouble (n : Nat) : Nat :=
  let unit := Nat.pow 2 (n.log2 - 52)
  let units := n / unit
  let twice := 2 * (n % unit)
  if twice < unit ∨ (twice = unit ∧ units % 2 = 0) then units * unit else (units + 1) * unit

/-- The first number that is rounded to infinity among doubles. -/
def doubleLimit : Nat := Nat.pow 2 1024 - Nat.pow 2 970

/-- The largest power of ten that is a double. -/
def maxPowerOfTen : Nat := 308

/-- Whether a number is finite among doubles. Scaling down never leaves them. -/
def Decimal.isFinite (d : Decimal) : Bool :=
  d.significand = 0 || d.exponent < 0 ||
    d.exponent ≤ maxPowerOfTen &&
      roundToDouble d.significand * roundToDouble (Nat.pow 10 d.exponent.toNat) < doubleLimit

end SdkUsage.Json
