import CrudLayers.Config.Setting
import CrudLayers.Config.Toml.Number
import CrudLayers.Text.Blank

namespace CrudLayers.Environment

def isSeparator (c : Char) : Bool :=
  c == ',' || c == '\x7b' || c == '\x7d' || c == '[' || c == ']'

def skipBlanks (s : List Char) : List Char :=
  s.dropWhile isAsciiBlank

def isQuotable (c : Char) : Bool :=
  c == '\t' || (0x20 ≤ c.toNat && c.toNat ≠ 0x7F)

def readQuoted : Nat → List Char → Toml.Reader (List Char)
  | 0, _, _ => none
  | steps + 1, seen, s =>
    match s with
    | '\"' :: rest => some (seen.reverse, rest)
    | '\\' :: rest => do
      let (c, rest) ← Toml.readEscape rest
      readQuoted steps (c :: seen) rest
    | c :: rest => if isQuotable c then readQuoted steps (c :: seen) rest else none
    | [] => none

/-- The number that digits write; there has to be one at least. -/
def digits? (s : List Char) : Option Nat :=
  if s ≠ [] ∧ s.all Char.isDigit then some (Toml.decimalNumber s) else none

/-- Splits at the first letter `e` of either case. -/
def splitExponent (s : List Char) : List Char × Option (List Char) :=
  let mantissa := s.takeWhile (fun c => c != 'e' && c != 'E')
  match s.drop mantissa.length with
  | _ :: exponent => (mantissa, some exponent)
  | [] => (mantissa, none)

/-- The exponent that a text with a sign writes; without a text there is none. -/
def exponent? : Option (List Char) → Option Int
  | none => some 0
  | some s => do
    let (negative, s) := Toml.readSign s
    let n : Int ← digits? s
    return if negative then -n else n

/-- The floating-point number that a text with a point writes: digits on one side of the point at
least. -/
def float? (s : List Char) : Option Binary64 := do
  let (negative, s) := Toml.readSign s
  let (mantissa, exponent) := splitExponent s
  let whole := mantissa.takeWhile (· != '.')
  let fraction := (mantissa.drop whole.length).drop 1
  let digits ← digits? (whole ++ fraction)
  let exponent ← exponent? exponent
  return .number negative (Magnitude.ofDecimal ⟨digits, exponent - fraction.length⟩)

/-- The whole number of 64 bits that a text writes: without a sign if it can do without one. -/
def whole? : List Char → Option Setting
  | '-' :: s => do
    let n ← digits? s
    if n ≤ Toml.halfRange then some (.signed (-(n : Int))) else none
  | '+' :: s => do
    let n ← digits? s
    if n < 2 * Toml.halfRange then some (.unsigned n) else none
  | s => do
    let n ← digits? s
    if n < 2 * Toml.halfRange then some (.unsigned n) else none

/-- What a text without quotes and brackets stands for. -/
def bare (s : List Char) : Setting :=
  let float := if s.contains '.' then (float? s).map Setting.float else none
  (float.or (whole? s)).getD (.text (String.ofList s))

/-- Reads items between two marks. An item follows each comma and the opening mark, unless the
closing mark follows at once. -/
def readItems {α : Type} (close : Char) (read : Toml.Reader α) : Nat → Toml.Reader (List α)
  | 0, _ => none
  | steps + 1, s =>
    if s.head? = some close then some ([], s.drop 1)
    else do
      let (item, rest) ← read s
      match rest with
      | c :: rest =>
        if c = close then return ([item], rest)
        else if c = ',' then
          let (items, rest) ← readItems close read steps rest
          return (item :: items, rest)
        else none
      | [] => none

def isKeyChar (c : Char) : Bool :=
  c.isAlphanum || c == '_' || c == '-'

def readKey : Toml.Reader String := fun s =>
  match s with
  | '\"' :: rest => (readQuoted (rest.length + 1) [] rest).map
      (fun r => (String.ofList r.1, r.2))
  | s =>
    let key := s.takeWhile isKeyChar
    if key = [] then none else some (String.ofList key, s.drop key.length)

def readEntry (read : Toml.Reader Setting) : Toml.Reader (String × Setting) := fun s => do
  let (key, rest) ← readKey (skipBlanks s)
  let rest ← Toml.readMark '=' (skipBlanks rest)
  let (v, rest) ← read rest
  return ((key, v), rest)

/-- The table of some entries, of which the later ones win. -/
def tableOf (entries : List (String × Setting)) : Setting :=
  .table (entries.foldl (fun t e => Setting.put e.1 e.2 t) [])

/-- Reads a value without the blanks around it; `depth` is more than the depth of its brackets. -/
def readBody : Nat → Toml.Reader Setting
  | 0, _ => none
  | depth + 1, s =>
    let inner : Toml.Reader Setting := fun s => do
      let (v, rest) ← readBody depth (skipBlanks s)
      return (v, skipBlanks rest)
    match s with
    | 't' :: 'r' :: 'u' :: 'e' :: rest => some (.flag true, rest)
    | 'f' :: 'a' :: 'l' :: 's' :: 'e' :: rest => some (.flag false, rest)
    | '\x7b' :: rest => (readItems '\x7d' (readEntry inner) (rest.length + 1) rest).map
        (fun r => (tableOf r.1, r.2))
    | '[' :: rest => (readItems ']' inner (rest.length + 1) rest).map
        (fun r => (.list r.1, r.2))
    | '\"' :: rest => (readQuoted (rest.length + 1) [] rest).map
        (fun r => (.text (String.ofList r.1), r.2))
    | '\'' :: c :: '\'' :: rest => some (.text (String.singleton c), rest)
    | '\'' :: _ => none
    | s =>
      let text := s.takeWhile (fun c => !isSeparator c)
      some (bare (trimBlank text), s.drop text.length)

def value (s : String) : Setting :=
  let chars := s.toList
  match readBody (chars.length + 1) (skipBlanks chars) with
  | some (v, rest) => if skipBlanks rest = [] then v else .text s
  | none => .text s

/-- What the names of variables with settings start with, in either case. -/
def variableStart : String :=
  "CRUDGEN_"

/-- Writes a dot for each two underscores. -/
def dotted : List Char → List Char
  | '_' :: '_' :: rest => '.' :: dotted rest
  | c :: rest => c :: dotted rest
  | [] => []

def segments : List Char → List (List Char)
  | [] => [[]]
  | c :: rest =>
    if c = '.' then [] :: segments rest
    else
      match segments rest with
      | [] => [[c]]
      | piece :: pieces => (c :: piece) :: pieces

def way? (name : String) : Option (List String) :=
  let trimmed := trimBlank name.toList
  let start := variableStart.toList
  if (trimmed.take start.length).map Char.toLower = start.map Char.toLower then
    let pieces := segments (trimBlank (dotted (trimmed.drop start.length)))
    if pieces.contains [] then none
    else some (pieces.map (fun p => String.ofList (p.map Char.toLower)))
  else none

/-- The settings that variables give, the later ones over the earlier. -/
def settings (environment : List (String × String)) : List (String × Setting) :=
  environment.foldl (fun entries e =>
    match way? e.1 with
    | some (key :: rest) =>
      Setting.layEntries entries [(key, (value e.2).nested rest)]
    | _ => entries) []

end CrudLayers.Environment
