import CrudLayers.Number.Binary64

namespace CrudLayers

namespace Magnitude

/-- The decimals that are read back as `m · 2 ^ e`, as a range of multiples of `2 ^ (e - 2)`. The
ends of the range belong to it if `m` is even. -/
structure Reach where
  low : Nat
  high : Nat
  closed : Bool

def reach (m : Nat) (e : Int) : Reach :=
  let below := if m = significandLimit / 2 ∧ lowestExponent < e then 1 else 2
  ⟨4 * m - below, 4 * m + 2, m % 2 == 0⟩

def Reach.holds (r : Reach) (e : Int) (d : Decimal) : Bool :=
  let (p, q) := powerRatio 2 (e - 2)
  let (s, t) := powerRatio 10 d.exponent
  let value := d.digits * s * q
  let low := r.low * p * t
  let high := r.high * p * t
  if r.closed then low ≤ value && value ≤ high else low < value && value < high

/-- The number of decimal places before the point of a positive fraction; the places right after
the point count as negative while they are zero. -/
def decimalPlaces (n d : Nat) : Int :=
  let estimate : Int := (toString n).length - (toString d).length
  let (p, q) := powerRatio 10 estimate
  if p * d ≤ n * q then estimate + 1 else estimate

/-- The decimals with a unit of `10 ^ unit` on both sides of `n / d`, the nearer one first; of two
that are equally near the greater one is first. -/
def neighbours (n d : Nat) (unit : Int) : List Decimal :=
  let (p, q) := powerRatio 10 unit
  let low := n * q / (d * p)
  let rest := n * q % (d * p)
  if 2 * rest < d * p then [⟨low, unit⟩, ⟨low + 1, unit⟩] else [⟨low + 1, unit⟩, ⟨low, unit⟩]

/-- The first of the decimals with `count`, `count + 1`, … digits that is read back as
`m · 2 ^ e`; `steps` numbers of digits are tried. -/
def searchShortest (m : Nat) (e places : Int) : Nat → Nat → Option Decimal
  | 0, _ => none
  | steps + 1, count =>
    let (p, q) := powerRatio 2 e
    match (neighbours (m * p) q (places - count)).find? ((reach m e).holds e) with
    | some d => some d
    | none => searchShortest m e places steps (count + 1)

/-- The decimal that equals `m · 2 ^ e`. -/
def exactDecimal (m : Nat) (e : Int) : Decimal :=
  if 0 ≤ e then ⟨m * Nat.pow 2 e.toNat, 0⟩ else ⟨m * Nat.pow 5 (-e).toNat, e⟩

def enoughDigits : Nat :=
  17

def shortest (m : Nat) (e : Int) : Decimal :=
  if m = 0 then ⟨0, 0⟩
  else
    let (p, q) := powerRatio 2 e
    (searchShortest m e (decimalPlaces (m * p) q) enoughDigits 1).getD (exactDecimal m e)

end Magnitude

/-- A decimal in positional notation, without zeros at the end of its fraction. -/
def Decimal.text (d : Decimal) : String :=
  let digits := (toString d.digits).toList
  if 0 ≤ d.exponent then String.ofList (digits ++ List.replicate d.exponent.toNat '0')
  else
    let places := (-d.exponent).toNat
    let padded := List.replicate (places + 1 - digits.length) '0' ++ digits
    let whole := padded.take (padded.length - places)
    let fraction := ((padded.drop (padded.length - places)).reverse.dropWhile (· == '0')).reverse
    String.ofList (if fraction = [] then whole else whole ++ '.' :: fraction)

namespace Binary64

/-- The text of a number; a sign is written for zero too. -/
def text : Binary64 → String
  | nan => "NaN"
  | number negative magnitude =>
    let unsigned := match magnitude with
      | .finite m e => (Magnitude.shortest m e).text
      | .infinite => "inf"
    if negative then "-" ++ unsigned else unsigned

end Binary64

example : (Magnitude.ofDecimal ⟨1, -1⟩) = .finite 7205759403792794 (-56) := by decide +kernel
example : Binary64.text (.number true .zero) = "-0" := by decide +kernel

end CrudLayers
