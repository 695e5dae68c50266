import CrudLayers.Config.Toml.Moment

namespace CrudLayers.Toml

/-- The number of arrays and inline tables, or of parts of a key, that is too many. -/
def nestingLimit : Nat :=
  80

def isBareKeyChar (c : Char) : Bool :=
  c.isAlphanum || c == '_' || c == '-'

def readKeyPart : Reader String := fun s =>
  let bare := s.takeWhile isBareKeyChar
  if bare = [] then (readShortString s).map (fun r => (String.ofList r.1, r.2))
  else some (String.ofList bare, s.drop bare.length)

def readKeyParts : Nat → Reader (List String)
  | 0, _ => none
  | steps + 1, s => do
    let (part, rest) ← readKeyPart (skipSpaces s)
    match skipSpaces rest with
    | '.' :: rest =>
      let (parts, rest) ← readKeyParts steps rest
      return (part :: parts, rest)
    | rest => return ([part], rest)

/-- Reads a key with fewer parts than the limit. -/
def readKey : Reader (List String) :=
  readKeyParts (nestingLimit - 1)

def readAssigned (readValue : Reader Setting) : Reader Setting := fun s => do
  let s ← readMark '=' s
  readValue (skipSpaces s)

def readArrayItems (readValue : Reader Setting) :
    Nat → List Char → Option (List Setting × List Char)
  | 0, _ => none
  | steps + 1, s => do
    let s ← skipBlank s.length s
    match s with
    | ']' :: rest => return ([], rest)
    | s =>
      let (item, rest) ← readValue s
      match ← skipBlank rest.length rest with
      | ',' :: rest => do
        let (items, rest) ← readArrayItems readValue steps rest
        return (item :: items, rest)
      | ']' :: rest => return ([item], rest)
      | _ => none

/-- A table of settings while keys are put into it: a key that was given with dots stands for a
table that may still grow. -/
inductive Draft where
  | closed (v : Setting)
  | growing (entries : List (String × Draft))

namespace Draft

def put (key : String) (v : Draft) : List (String × Draft) → List (String × Draft)
  | [] => [(key, v)]
  | (k, w) :: rest => if k = key then (key, v) :: rest else (k, w) :: put key v rest

/-- Gives a dotted key a value, unless it or a part of it has one already. -/
def assign (entries : List (String × Draft)) (v : Setting) :
    List String → Option (List (String × Draft))
  | [] => none
  | [key] => if (entries.lookup key).isSome then none else some (put key (.closed v) entries)
  | key :: rest =>
    match entries.lookup key with
    | none => do return put key (.growing (← assign [] v rest)) entries
    | some (.growing inner) => do return put key (.growing (← assign inner v rest)) entries
    | some (.closed _) => none

mutual

def setting : Draft → Setting
  | closed v => v
  | growing entries => .table (settings entries)

def settings : List (String × Draft) → List (String × Setting)
  | [] => []
  | (key, d) :: rest => Setting.put key (setting d) (settings rest)

end

end Draft

/-- Reads the entries of an inline table up to its closing brace, after `entries` of them. -/
def readInlineEntries (readValue : Reader Setting) :
    Nat → List (String × Draft) → List Char → Option (List (String × Draft) × List Char)
  | 0, _, _ => none
  | steps + 1, entries, s => do
    let (key, rest) ← readKey s
    let (v, rest) ← readAssigned readValue rest
    let entries ← Draft.assign entries v key
    match skipSpaces rest with
    | ',' :: rest => readInlineEntries readValue steps entries rest
    | '\x7d' :: rest => return (entries, rest)
    | _ => none

def readInlineTable (readValue : Reader Setting) : Reader Setting := fun s =>
  match skipSpaces s with
  | '\x7d' :: rest => some (.table [], rest)
  | s => do
    let (entries, rest) ← readInlineEntries readValue s.length [] s
    return (.table (Draft.settings entries), rest)

def readNumeric : Reader Setting := fun s =>
  match readMoment s with
  | some (moment, rest) => some (.table [(momentKey, .text (String.ofList moment))], rest)
  | none =>
    match readFloat s with
    | some (x, rest) => some (.float x, rest)
    | none => (readInteger s).map (fun r => (.signed r.1, r.2))

/-- Reads a value in which at most `room` arrays and inline tables stand inside one another. -/
def readValue : Nat → Reader Setting
  | room, '[' :: rest =>
    match room with
    | 0 => none
    | room + 1 => (readArrayItems (readValue room) (rest.length + 1) rest).map
        (fun r => (.list r.1, r.2))
  | room, '\x7b' :: rest =>
    match room with
    | 0 => none
    | room + 1 => readInlineTable (readValue room) rest
  | _, 't' :: 'r' :: 'u' :: 'e' :: rest => some (.flag true, rest)
  | _, 'f' :: 'a' :: 'l' :: 's' :: 'e' :: rest => some (.flag false, rest)
  | _, s =>
    match s.head? with
    | some '\"' | some '\'' => (readString s).map (fun r => (.text (String.ofList r.1), r.2))
    | _ => readNumeric s

end CrudLayers.Toml
