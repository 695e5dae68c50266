namespace CrudLayers

/-- A place on the disk: the names on the way to it from the root. -/
abbrev Location := List String

/-- What stands at a place. A link keeps its target as it was given. -/
inductive Entry where
  | directory
  | file (bytes : List UInt8) (mode : Nat)
  | link (target : String)
deriving DecidableEq

/-- The mode of a file unless something else is asked for: the owner writes, everybody reads. -/
def Entry.defaultMode : Nat :=
  0o644

def Entry.privateMode : Nat :=
  0o600

/-- The entries of a disk, each place once, and the directory where relative paths start. -/
structure Disk where
  entries : List (Location × Entry)
  current : Location
deriving DecidableEq

namespace Disk

/-- The entry at a place; the root is always a directory. -/
def find? (d : Disk) (l : Location) : Option Entry :=
  if l = [] then some .directory else d.entries.lookup l

def erase (d : Disk) (l : Location) : Disk :=
  { d with entries := d.entries.filter (fun e => e.1 != l) }

def put (d : Disk) (l : Location) (e : Entry) : Disk :=
  { d with entries := (l, e) :: (d.erase l).entries }

/-- The places on the way to a place, itself included and the root left out. -/
def wayTo : Location → List Location
  | [] => []
  | name :: rest => [name] :: (wayTo rest).map (name :: ·)

/-- A disk that holds nothing but the directories on the way to the current one. -/
def start (current : Location) : Disk :=
  ⟨(wayTo current).map (fun l => (l, .directory)), current⟩

def currentPath (d : Disk) : String :=
  "/" ++ "/".intercalate d.current

/-- Leaving out entries by where they stand hides the places that are left out, and no other. -/
theorem lookup_filter (p : Location → Bool) (l : Location) (es : List (Location × Entry)) :
    (es.filter (fun e => p e.1)).lookup l = if p l then es.lookup l else none := by
  induction es with
  | nil => simp
  | cons e rest ih =>
    obtain ⟨k, v⟩ := e
    by_cases hk : l = k
    · subst hk
      by_cases hp : p l
      · simp [hp]
      · simp [hp, ih]
    · have hb : (l == k) = false := by simpa using hk
      by_cases hp : p k
      · simp [List.lookup_cons, hp, hb, ih]
      · simp [List.lookup_cons, hp, hb, ih]

@[simp]
theorem find?_root (d : Disk) : d.find? [] = some .directory := by
  simp [find?]

theorem find?_put_self (d : Disk) {l : Location} (e : Entry) (h : l ≠ []) :
    (d.put l e).find? l = some e := by
  simp [find?, put, h]

theorem find?_put_other (d : Disk) {l m : Location} (e : Entry) (h : m ≠ l) :
    (d.put l e).find? m = d.find? m := by
  have hb : (m == l) = false := by simpa using h
  simp [find?, put, erase, List.lookup_cons, hb, lookup_filter (· != l), h]

theorem find?_erase_self (d : Disk) {l : Location} (h : l ≠ []) : (d.erase l).find? l = none := by
  simp [find?, erase, h, lookup_filter (· != l)]

theorem find?_erase_other (d : Disk) {l m : Location} (h : m ≠ l) :
    (d.erase l).find? m = d.find? m := by
  simp [find?, erase, lookup_filter (· != l), h]

end Disk

end CrudLayers
