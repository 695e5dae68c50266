namespace CrudLayers.Toml

abbrev Reader (α : Type) := List Char → Option (α × List Char)

def readMark (mark : Char) : List Char → Option (List Char)
  | c :: rest => if c = mark then some rest else none
  | [] => none

def isSpace (c : Char) : Bool :=
  c == ' ' || c == '\t'

/-- Whether a character may stand in a comment and, quotes and backslashes apart, in a string. -/
def isPlain (c : Char) : Bool :=
  c == '\t' || (0x20 ≤ c.toNat && c.toNat ≤ 0x7E) || 0x80 ≤ c.toNat

def skipSpaces (s : List Char) : List Char :=
  s.dropWhile isSpace

/-- What follows a line end, if there is one at the front. -/
def afterLineEnd? : List Char → Option (List Char)
  | '\n' :: rest => some rest
  | '\r' :: '\n' :: rest => some rest
  | _ => none

/-- Skips a comment, if there is one; it reaches up to the first character that none may hold. -/
def skipComment : List Char → List Char
  | '#' :: rest => rest.dropWhile isPlain
  | s => s

/-- Reads the end of a line, or the end of the text, with the spaces and the comment before it. -/
def afterLine? (s : List Char) : Option (List Char) :=
  match skipComment (skipSpaces s) with
  | [] => some []
  | rest => afterLineEnd? rest

/-- Skips spaces, comments and line ends; `steps` is at least the number of them. -/
def skipBlank : Nat → List Char → Option (List Char)
  | 0, s => some s
  | steps + 1, s =>
    match skipSpaces s with
    | '#' :: rest =>
      match rest.dropWhile isPlain with
      | [] => some []
      | rest => do skipBlank steps (← afterLineEnd? rest)
    | rest =>
      match afterLineEnd? rest with
      | some rest => skipBlank steps rest
      | none => some rest

def hexValue? (c : Char) : Option Nat :=
  if c.isDigit then some (c.toNat - 48)
  else if 'a' ≤ c ∧ c ≤ 'f' then some (c.toNat - 87)
  else if 'A' ≤ c ∧ c ≤ 'F' then some (c.toNat - 55)
  else none

def hexNumber? : Nat → List Char → Option Nat
  | n, [] => some n
  | n, c :: rest => do hexNumber? (16 * n + (← hexValue? c)) rest

/-- A character by its number, which is no surrogate and not too great. -/
def character? (n : Nat) : Option Char :=
  if h : n.isValidChar then some (Char.ofNatAux n h) else none

def readNumbered (digits : Nat) : Reader Char := fun s => do
  if s.length < digits then none
  let c ← character? (← hexNumber? 0 (s.take digits))
  return (c, s.drop digits)

def readEscape : Reader Char
  | 'b' :: rest => some ('\x08', rest)
  | 'f' :: rest => some ('\x0c', rest)
  | 'n' :: rest => some ('\n', rest)
  | 'r' :: rest => some ('\r', rest)
  | 't' :: rest => some ('\t', rest)
  | '\"' :: rest => some ('\"', rest)
  | '\\' :: rest => some ('\\', rest)
  | 'u' :: rest => readNumbered 4 rest
  | 'U' :: rest => readNumbered 8 rest
  | _ => none

def readBasic : Nat → List Char → Reader (List Char)
  | 0, _, _ => none
  | steps + 1, seen, s =>
    match s with
    | '\"' :: rest => some (seen.reverse, rest)
    | '\\' :: rest => do
      let (c, rest) ← readEscape rest
      readBasic steps (c :: seen) rest
    | c :: rest => if isPlain c then readBasic steps (c :: seen) rest else none
    | [] => none

def readLiteral (s : List Char) : Option (List Char × List Char) :=
  let body := s.takeWhile (fun c => isPlain c && c != '\'')
  match s.drop body.length with
  | '\'' :: rest => some (body, rest)
  | _ => none

/-- Reads the three quotes that close a string of several lines. One or two more of them before
these belong to the string. -/
def closing? (quote : Char) (s : List Char) : Option (List Char × List Char) :=
  let quotes := (s.takeWhile (· == quote)).length
  if quotes < 3 then none
  else
    let inside := min (quotes - 3) 2
    some (List.replicate inside quote, s.drop (3 + inside))

/-- Skips what a backslash at the end of a line takes away: the line end, and all white space up
to the next other character. -/
def afterFold? (s : List Char) : Option (List Char) := do
  let rest ← afterLineEnd? (skipSpaces s)
  skipFolded rest.length rest
where
  skipFolded : Nat → List Char → Option (List Char)
    | 0, s => some s
    | steps + 1, s =>
      match afterLineEnd? (skipSpaces s) with
      | some rest => skipFolded steps rest
      | none => some (skipSpaces s)

def readLongBasic : Nat → List Char → Reader (List Char)
  | 0, _, _ => none
  | steps + 1, seen, s =>
    match closing? '\"' s with
    | some (quotes, rest) => some (seen.reverse ++ quotes, rest)
    | none =>
      match s with
      | '\\' :: rest =>
        match afterFold? rest with
        | some rest => readLongBasic steps seen rest
        | none => do
          let (c, rest) ← readEscape rest
          readLongBasic steps (c :: seen) rest
      | c :: rest =>
        if isPlain c then readLongBasic steps (c :: seen) rest
        else do readLongBasic steps ('\n' :: seen) (← afterLineEnd? (c :: rest))
      | [] => none

def readLongLiteral : Nat → List Char → Reader (List Char)
  | 0, _, _ => none
  | steps + 1, seen, s =>
    match closing? '\'' s with
    | some (quotes, rest) => some (seen.reverse ++ quotes, rest)
    | none =>
      match s with
      | c :: rest =>
        if isPlain c then readLongLiteral steps (c :: seen) rest
        else do readLongLiteral steps ('\n' :: seen) (← afterLineEnd? (c :: rest))
      | [] => none

def dropFirstLineEnd (s : List Char) : List Char :=
  (afterLineEnd? s).getD s

def readShortString : Reader (List Char)
  | '\"' :: rest => readBasic (rest.length + 1) [] rest
  | '\'' :: rest => readLiteral rest
  | _ => none

def readString : Reader (List Char)
  | '\"' :: '\"' :: '\"' :: rest => readLongBasic (rest.length + 1) [] (dropFirstLineEnd rest)
  | '\'' :: '\'' :: '\'' :: rest => readLongLiteral (rest.length + 1) [] (dropFirstLineEnd rest)
  | s => readShortString s

end CrudLayers.Toml
