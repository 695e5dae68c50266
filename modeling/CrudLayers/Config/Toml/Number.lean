import CrudLayers.Config.Setting
import CrudLayers.Config.Toml.Text

namespace CrudLayers.Toml

/-- Splits off digits with single underscores between them; the underscores are dropped. -/
def takeDigits (isDigit : Char → Bool) : List Char → List Char × List Char
  | '_' :: c :: rest => if isDigit c then
      let (more, rest) := takeDigits isDigit rest
      (c :: more, rest)
    else ([], '_' :: c :: rest)
  | c :: rest => if isDigit c then
      let (more, rest) := takeDigits isDigit rest
      (c :: more, rest)
    else ([], c :: rest)
  | [] => ([], [])

/-- Reads one digit or more, the first without an underscore before it. -/
def readDigits (isDigit : Char → Bool) : Reader (List Char)
  | c :: rest =>
    if isDigit c then
      let (more, rest) := takeDigits isDigit rest
      if rest.head? == some '_' then none else some (c :: more, rest)
    else none
  | [] => none

/-- Reads digits of which the first is no zero, or a lone zero. -/
def readWhole : Reader (List Char)
  | '0' :: rest => some (['0'], rest)
  | s => readDigits Char.isDigit s

/-- Reads a sign, which may be missing; tells whether it is a minus. -/
def readSign : List Char → Bool × List Char
  | '+' :: rest => (false, rest)
  | '-' :: rest => (true, rest)
  | s => (false, s)

def decimalNumber (digits : List Char) : Nat :=
  digits.foldl (fun n c => 10 * n + (c.toNat - 48)) 0

/-- Half the number of values that 64 bits have. -/
def halfRange : Nat :=
  0x8000000000000000

/-- A whole number, if it is one of 64 bits with a sign. -/
def wholeNumber? (n : Int) : Option Int :=
  if -(halfRange : Int) ≤ n ∧ n < halfRange then some n else none

def isBase (base : Nat) (c : Char) : Bool :=
  match hexValue? c with
  | some v => v < base
  | none => false

/-- Reads the digits of a number in a base whose digits are hexadecimal ones. -/
def readBase (base : Nat) : Reader Int := fun s => do
  let (digits, rest) ← readDigits (isBase base) s
  let n := digits.foldl (fun n c => base * n + (hexValue? c).getD 0) 0
  return (← wholeNumber? n, rest)

def readInteger : Reader Int
  | '0' :: 'x' :: rest => readBase 16 rest
  | '0' :: 'o' :: rest => readBase 8 rest
  | '0' :: 'b' :: rest => readBase 2 rest
  | s => do
    let (negative, rest) := readSign s
    let (digits, rest) ← readWhole rest
    let n : Int := decimalNumber digits
    return (← wholeNumber? (if negative then -n else n), rest)

def readExponent (s : List Char) : Option (Option Int × List Char) :=
  match s with
  | c :: rest =>
    if c == 'e' || c == 'E' then do
      let (negative, rest) := readSign rest
      let (digits, rest) ← readDigits Char.isDigit rest
      let n : Int := decimalNumber digits
      return (some (if negative then -n else n), rest)
    else some (none, s)
  | [] => some (none, s)

def readFraction (s : List Char) : Option (Option (List Char) × List Char) :=
  match s with
  | '.' :: rest => do
    let (digits, rest) ← readDigits Char.isDigit rest
    return (some digits, rest)
  | _ => some (none, s)

/-- Reads a number with a fraction or an exponent. One that is positive and too great for the
format is refused. -/
def readDecimal : Reader Binary64 := fun s => do
  let (negative, rest) := readSign s
  let (whole, rest) ← readWhole rest
  let (fraction, rest) ← readFraction rest
  let (exponent, rest) ← readExponent rest
  if fraction.isNone && exponent.isNone then none
  let places := fraction.getD []
  let magnitude := Magnitude.ofDecimal
    ⟨decimalNumber (whole ++ places), exponent.getD 0 - places.length⟩
  if magnitude = .infinite ∧ negative = false then none
  return (.number negative magnitude, rest)

def readSpecial : Reader Binary64 := fun s =>
  match readSign s with
  | (negative, 'i' :: 'n' :: 'f' :: rest) => some (.number negative .infinite, rest)
  | (_, 'n' :: 'a' :: 'n' :: rest) => some (.nan, rest)
  | _ => none

def readFloat : Reader Binary64 := fun s =>
  (readDecimal s).or (readSpecial s)

end CrudLayers.Toml
