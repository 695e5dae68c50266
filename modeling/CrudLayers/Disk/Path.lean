namespace CrudLayers.Path

/-- Adds a name to a path; a slash comes between unless the path is empty or ends in one. -/
def join (base name : String) : String :=
  if base = "" ∨ base.toList.getLast? = some '/' then base ++ name else base ++ "/" ++ name

def isAbsolute (path : String) : Bool :=
  path.toList.head? == some '/'

/-- The pieces between the slashes; there is always at least one, and any may be empty. -/
def split : List Char → List (List Char)
  | [] => [[]]
  | c :: rest =>
    if c = '/' then [] :: split rest
    else
      match split rest with
      | [] => [[c]]
      | piece :: pieces => (c :: piece) :: pieces

def pieces (path : String) : List String :=
  (split path.toList).map String.ofList

/-- A piece that names no component of its own. -/
def isFiller (piece : List Char) : Bool :=
  piece == [] || piece == ['.']

/-- A path as its components, as far as text alone shows them: whether it starts at the root,
whether it starts with a dot that stands for the current directory, and the pieces that follow. -/
structure Parts where
  rooted : Bool
  dotted : Bool
  body : List (List Char)

def parts (path : List Char) : Parts :=
  match split path with
  | [] :: second :: rest => ⟨true, false, second :: rest⟩
  | ['.'] :: rest => ⟨false, true, rest⟩
  | body => ⟨false, false, body⟩

/-- The pieces in front of the last component, with the filler before it gone too; nothing if all
pieces are filler. The pieces are given backwards. -/
def dropLastComponent (backwards : List (List Char)) : Option (List (List Char)) :=
  match backwards.dropWhile isFiller with
  | [] => none
  | _ :: front => some (front.dropWhile isFiller)

/-- The path of the directory that holds the last component; the root and the empty path have
none. -/
def parent? (path : String) : Option String :=
  let p := parts path.toList
  let start := if p.rooted then ['/'] else if p.dotted then ['.'] else []
  match dropLastComponent p.body.reverse with
  | some front =>
    let body := List.intercalate ['/'] front.reverse
    if p.dotted && !body.isEmpty then some (String.ofList (start ++ '/' :: body))
    else some (String.ofList (start ++ body))
  | none => if p.dotted then some "" else none

/-- A path and its parents, up to `steps` of them, as far as they are not empty. -/
def upwardFrom : Nat → String → List String
  | 0, _ => []
  | steps + 1, path =>
    if path = "" then []
    else path :: (match parent? path with
      | some parent => upwardFrom steps parent
      | none => [])

/-- A path and all its parents; there are no more of them than it has characters. -/
def upward (path : String) : List String :=
  upwardFrom path.length path

def holder (path : String) : String :=
  match parent? path with
  | some parent => if parent = "" then "." else parent
  | none => "."

/-- The components of a path below its start; fillers are left out. -/
def components (path : String) : List String :=
  ((parts path.toList).body.filter (fun piece => !isFiller piece)).map String.ofList

def afterCommon : List String → List String → List String × List String
  | a :: l, b :: m => if a = b then afterCommon l m else (a :: l, b :: m)
  | l, m => (l, m)

def wayFrom (base path : String) : List String :=
  let (up, down) := afterCommon (components base) (components path)
  up.map (fun _ => "..") ++ down

/-- A path from the root as it is shown to somebody in the directory `base`: from there, if that is
known and takes fewer components than from the root. -/
def shownFrom (base path : String) : String :=
  let way := wayFrom base path
  if isAbsolute base ∧ way.length ≤ (components path).length then "/".intercalate way else path

example : parent? "a/b" = some "a" := by decide +kernel
example : parent? "/a" = some "/" := by decide +kernel
example : parent? "a" = some "" := by decide +kernel
example : parent? "w/./b//" = some "w" := by decide +kernel
example : parent? "./a" = some "." := by decide +kernel
example : parent? "." = some "" := by decide +kernel
example : parent? "/" = none := by decide +kernel
example : parent? "" = none := by decide +kernel

end CrudLayers.Path
