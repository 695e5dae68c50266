import CrudLayers.Config.Toml.Value

namespace CrudLayers.Toml

inductive TableState where
  /-- A header has named it: nothing more may be put into it from elsewhere. -/
  | defined
  /-- A longer header passes through it: it may still be named by a header of its own. -/
  | passed
  /-- Dotted keys have made it: more dotted keys may add to it. -/
  | dotted
deriving DecidableEq

inductive Node where
  | value (v : Setting)
  | table (state : TableState) (entries : List (String × Node))
  /-- The tables of a repeated header, the last one first. -/
  | tables (last : List (String × Node)) (earlier : List Node)

structure Section where
  state : TableState
  entries : List (String × Node)

namespace Node

def put (key : String) (v : Node) : List (String × Node) → List (String × Node)
  | [] => [(key, v)]
  | (k, w) :: rest => if k = key then (key, v) :: rest else (k, w) :: put key v rest

mutual

def setting : Node → Setting
  | value v => v
  | table _ entries => .table (settings entries)
  | tables last earlier => .list (settingList earlier ++ [.table (settings last)])

def settings : List (String × Node) → List (String × Setting)
  | [] => []
  | (key, n) :: rest => Setting.put key (setting n) (settings rest)

/-- The settings of nodes, in reverse. -/
def settingList : List Node → List Setting
  | [] => []
  | n :: rest => settingList rest ++ [setting n]

end

end Node

namespace Section

/-- Changes the table that a way leads to, of which what is missing is made in the given state. -/
def change (made : TableState) (f : Section → Option Section) :
    List String → Section → Option Section
  | [], s => f s
  | key :: rest, s =>
    match s.entries.lookup key with
    | none => do
      let inner ← change made f rest ⟨made, []⟩
      return { s with entries := Node.put key (.table inner.state inner.entries) s.entries }
    | some (.table state entries) =>
      if made = .dotted ∧ state = .defined then none
      else do
        let inner ← change made f rest ⟨state, entries⟩
        return { s with entries := Node.put key (.table inner.state inner.entries) s.entries }
    | some (.tables last earlier) => do
      let inner ← change made f rest ⟨.defined, last⟩
      return { s with entries := Node.put key (.tables inner.entries earlier) s.entries }
    | some (.value _) => none

/-- Gives a key of this table a value; only dotted keys add to a table that dotted keys made. -/
def assign (dotted : Bool) (key : String) (v : Setting) (s : Section) : Option Section :=
  if (s.state = .dotted) = dotted ∧ (s.entries.lookup key).isNone then
    some { s with entries := Node.put key (.value v) s.entries }
  else none

def openTable (key : String) (s : Section) : Option Section :=
  match s.entries.lookup key with
  | none => some { s with entries := Node.put key (.table .defined []) s.entries }
  | some (.table .passed entries) =>
    some { s with entries := Node.put key (.table .defined entries) s.entries }
  | some _ => none

def openRepeated (key : String) (s : Section) : Option Section :=
  match s.entries.lookup key with
  | none => some { s with entries := Node.put key (.tables [] []) s.entries }
  | some (.tables last earlier) =>
    some { s with entries := Node.put key (.tables [] (.table .defined last :: earlier)) s.entries }
  | some _ => none

end Section

/-- A document while it is read: its tree, and the way to the table that entries go to. -/
structure Document where
  root : Section
  way : List String

/-- A line of a document that says something. -/
inductive Line where
  | header (repeated : Bool) (key : List String)
  | entry (key : List String) (v : Setting)

def readHeader : Reader Line := fun s =>
  match s with
  | '[' :: '[' :: rest => do
    let (key, rest) ← readKey rest
    match rest with
    | ']' :: ']' :: rest => return (.header true key, rest)
    | _ => none
  | '[' :: rest => do
    let (key, rest) ← readKey rest
    match rest with
    | ']' :: rest => return (.header false key, rest)
    | _ => none
  | _ => none

def readEntry : Reader Line := fun s => do
  let (key, rest) ← readKey s
  let (v, rest) ← readAssigned (readValue (nestingLimit - 1)) rest
  return (.entry key v, rest)

/-- Reads the lines of a document; `steps` is more than the number of its line ends. -/
def readLines : Nat → List Char → Option (List Line)
  | 0, _ => none
  | steps + 1, s =>
    match skipSpaces s with
    | [] => some []
    | c :: rest =>
      if c = '#' ∨ c = '\n' ∨ c = '\r' then do
        let rest ← afterLine? (c :: rest)
        readLines steps rest
      else do
        let (line, rest) ← if c = '[' then readHeader (c :: rest) else readEntry (c :: rest)
        let lines ← readLines steps (← afterLine? rest)
        return line :: lines

/-- Splits the last part off a key. -/
def splitKey? (key : List String) : Option (List String × String) :=
  key.getLast?.map (fun last => (key.dropLast, last))

def addLine (d : Document) : Line → Option Document
  | .header repeated key => do
    let (front, last) ← splitKey? key
    let opened := if repeated then Section.openRepeated last else Section.openTable last
    return ⟨← d.root.change .passed opened front, key⟩
  | .entry key v => do
    let (front, last) ← splitKey? key
    let fill := Section.change .dotted (Section.assign (front != []) last v) front
    return { d with root := ← d.root.change .passed fill d.way }

def dropByteOrderMark : List Char → List Char
  | '\ufeff' :: rest => rest
  | s => s

/-- The table that a document describes, unless the document is no TOML. -/
def parse? (s : String) : Option (List (String × Setting)) := do
  let chars := dropByteOrderMark s.toList
  let lines ← readLines (chars.length + 1) chars
  let document ← lines.foldlM addLine ⟨⟨.defined, []⟩, []⟩
  return Node.settings document.root.entries

end CrudLayers.Toml
