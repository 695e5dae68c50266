import CrudLayers.Number.Binary64

namespace CrudLayers

/-- A value of a configuration. The keys of a table are distinct and ascend. -/
inductive Setting where
  | text (s : String)
  | signed (n : Int)
  | unsigned (n : Nat)
  | float (x : Binary64)
  | flag (b : Bool)
  | list (items : List Setting)
  | table (entries : List (String × Setting))

namespace Setting

/-- Puts an entry into a table, over one with the same key. -/
def put (key : String) (v : Setting) : List (String × Setting) → List (String × Setting)
  | [] => [(key, v)]
  | (k, w) :: rest =>
    if key < k then (key, v) :: (k, w) :: rest
    else if key = k then (key, v) :: rest
    else (k, w) :: put key v rest

mutual

def layOver (lower : Setting) : Setting → Setting
  | table upper =>
    match lower with
    | table entries => table (layEntries entries upper)
    | _ => table upper
  | upper => upper

def layEntries (lower : List (String × Setting)) :
    List (String × Setting) → List (String × Setting)
  | [] => lower
  | (key, v) :: rest =>
    match lower.lookup key with
    | some w => layEntries (put key (layOver w v) lower) rest
    | none => layEntries (put key v lower) rest

end

/-- The setting at the end of a way through tables, by key, and lists, by number. -/
def at? (v : Setting) : List String → Option Setting
  | [] => some v
  | key :: rest =>
    match v with
    | table entries =>
      match entries.lookup key with
      | some w => w.at? rest
      | none => none
    | list items =>
      match (items.zipIdx.find? (fun e => toString e.2 == key)) with
      | some e => e.1.at? rest
      | none => none
    | _ => none

/-- A setting inside tables with the given keys, the outermost first. -/
def nested (v : Setting) : List String → Setting
  | [] => v
  | key :: rest => table [(key, v.nested rest)]

end Setting

end CrudLayers
