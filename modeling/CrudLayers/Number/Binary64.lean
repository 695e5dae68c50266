namespace CrudLayers

/-- The size of a number: `significand · 2 ^ exponent`, or more than the format can hold. The
significand is below `2 ^ 53`, and no lower exponent would do unless it is the lowest of all. -/
inductive Magnitude where
  | finite (significand : Nat) (exponent : Int)
  | infinite
deriving DecidableEq

/-- A number with its sign, which zero has too, or no number at all. -/
inductive Binary64 where
  | number (negative : Bool) (magnitude : Magnitude)
  | nan
deriving DecidableEq

/-- A decimal without sign: `digits · 10 ^ exponent`. -/
structure Decimal where
  digits : Nat
  exponent : Int
deriving DecidableEq

/-- The quotient of two numbers, rounded to the nearest; a half goes to the even neighbour. -/
def roundQuotient (n d : Nat) : Nat :=
  let low := n / d
  let twice := 2 * (n % d)
  if twice < d then low
  else if d < twice then low + 1
  else if low % 2 = 0 then low
  else low + 1

/-- A power with an integer exponent, as numerator and denominator. -/
def powerRatio (base : Nat) (e : Int) : Nat × Nat :=
  if 0 ≤ e then (Nat.pow base e.toNat, 1) else (1, Nat.pow base (-e).toNat)

namespace Magnitude

def zero : Magnitude :=
  .finite 0 (-1074)

def significandLimit : Nat :=
  0x20000000000000

def lowestExponent : Int :=
  -1074

def highestExponent : Int :=
  971

/-- The exponent `k` for which `2 ^ k` is at most `n / d`, and `2 ^ (k + 1)` is more. -/
def binaryExponent (n d : Nat) : Int :=
  let k : Int := (n.log2 : Int) - (d.log2 : Int)
  let (p, q) := powerRatio 2 k
  if p * d ≤ n * q then k else k - 1

def ofRatio (n d : Nat) : Magnitude :=
  let e := max (binaryExponent n d - 52) lowestExponent
  let (p, q) := powerRatio 2 e
  let m := roundQuotient (n * q) (d * p)
  let (m, e) := if m = significandLimit then (significandLimit / 2, e + 1) else (m, e)
  if highestExponent < e then infinite else finite m e

/-- The number nearest to a decimal. Decimals of more than 400 places on either side of the point
are told apart by their size alone. -/
def ofDecimal (d : Decimal) : Magnitude :=
  let places : Int := (toString d.digits).length + d.exponent
  if d.digits = 0 ∨ places < -400 then zero
  else if 400 < places then infinite
  else
    let (p, q) := powerRatio 10 d.exponent
    ofRatio (d.digits * p) q

end Magnitude

end CrudLayers
