import CrudLayers.Config.Toml.Number

namespace CrudLayers.Toml

/-- Reads a number of some digits that lies in a range. -/
def readPart (digits low high : Nat) : Reader Nat := fun s => do
  let front := s.take digits
  if front.length < digits || !front.all Char.isDigit then none
  let n := decimalNumber front
  if n < low || high < n then none
  return (n, s.drop digits)

/-- A number in decimal digits, with zeros in front up to some width. -/
def padded (width n : Nat) : List Char :=
  let digits := (toString n).toList
  List.replicate (width - digits.length) '0' ++ digits

def daysOfMonth (year month : Nat) : Nat :=
  if month = 2 then
    if year % 4 = 0 ∧ (year % 100 ≠ 0 ∨ year % 400 = 0) then 29 else 28
  else if month = 4 ∨ month = 6 ∨ month = 9 ∨ month = 11 then 30
  else 31

def readDate : Reader (List Char) := fun s => do
  let (year, s) ← readPart 4 0 9999 s
  let s ← readMark '-' s
  let (month, s) ← readPart 2 1 12 s
  let s ← readMark '-' s
  let (day, s) ← readPart 2 1 (daysOfMonth year month) s
  return (padded 4 year ++ '-' :: padded 2 month ++ '-' :: padded 2 day, s)

/-- Reads the fraction of a second, of which nine places count. -/
def readSecondFraction : Reader (List Char)
  | '.' :: rest =>
    let digits := rest.takeWhile Char.isDigit
    if digits = [] then none
    else
      let kept := ((digits.take 9).reverse.dropWhile (· == '0')).reverse
      some (if kept = [] then [] else '.' :: kept, rest.drop digits.length)
  | s => some ([], s)

def readTime : Reader (List Char) := fun s => do
  let (hour, s) ← readPart 2 0 23 s
  let s ← readMark ':' s
  let (minute, s) ← readPart 2 0 59 s
  let s ← readMark ':' s
  let (second, s) ← readPart 2 0 60 s
  let (fraction, s) ← readSecondFraction s
  return (padded 2 hour ++ ':' :: padded 2 minute ++ ':' :: padded 2 second ++ fraction, s)

def readOffset : Reader (List Char)
  | c :: rest =>
    if c = 'Z' ∨ c = 'z' then some (['Z'], rest)
    else if c = '+' ∨ c = '-' then do
      let (hour, s) ← readPart 2 0 23 rest
      let s ← readMark ':' s
      let (minute, s) ← readPart 2 0 59 s
      let sign := if hour = 0 ∧ minute = 0 then '+' else c
      return (sign :: padded 2 hour ++ ':' :: padded 2 minute, s)
    else some ([], c :: rest)
  | [] => some ([], [])

def readTimeOfDate : Reader (List Char)
  | c :: rest =>
    if c = 'T' ∨ c = 't' ∨ c = ' ' then
      match readTime rest with
      | some (time, rest) => do
        let (offset, rest) ← readOffset rest
        return ('T' :: time ++ offset, rest)
      | none => some ([], c :: rest)
    else some ([], c :: rest)
  | [] => some ([], [])

/-- Reads a date, a time, or both. -/
def readMoment : Reader (List Char) := fun s =>
  match readDate s with
  | some (date, rest) => do
    let (time, rest) ← readTimeOfDate rest
    return (date ++ time, rest)
  | none => readTime s

/-- The key under which a moment's text stands. -/
def momentKey : String :=
  "$__toml_private_datetime"

end CrudLayers.Toml
