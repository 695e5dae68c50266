import CrudLayers.Disk.Basic
import CrudLayers.Disk.Fault
import CrudLayers.Disk.Path

namespace CrudLayers

inductive Arrival where
  | found (place : Location) (entry : Entry)
  | free (place : Location) (slash : Bool)

namespace Disk

/-- What stops a walk that follows no link: its end, or a link on the way, together with the
directory that holds it and the pieces that are left. -/
inductive Stop where
  | arrival (a : Arrival)
  | link (holder : Location) (target : String) (rest : List String)

/-- The longest name that a directory can hold, in bytes. -/
def longestName : Nat :=
  255

/-- The number of bytes that a path has to stay below. -/
def pathLimit : Nat :=
  4096

def linkLimit : Nat :=
  40

/-- Walks from the directory `here` up to the first link. The last piece may be a link that is
not to be followed; slashes behind it ask for a directory, so that it is followed all the same. -/
def stroll (d : Disk) (follow : Bool) (here : Location) : List String → Except DiskFault Stop
  | [] => .ok (.arrival (.found here .directory))
  | piece :: rest =>
    if piece = "" ∨ piece = "." then d.stroll follow here rest
    else if piece = ".." then d.stroll follow here.dropLast rest
    else if piece.utf8ByteSize > longestName then .error .nameTooLong
    else
      match d.find? (here ++ [piece]) with
      | none =>
        if rest.all (· == "") then .ok (.arrival (.free (here ++ [piece]) (rest != [])))
        else .error .noEntry
      | some .directory => d.stroll follow (here ++ [piece]) rest
      | some (.file bytes mode) =>
        if rest = [] then .ok (.arrival (.found (here ++ [piece]) (.file bytes mode)))
        else .error .notDirectory
      | some (.link target) =>
        if rest = [] ∧ follow = false then
          .ok (.arrival (.found (here ++ [piece]) (.link target)))
        else .ok (.link here target rest)

def origin (here : Location) (path : String) : Location :=
  if Path.isAbsolute path then [] else here

/-- Walks from the directory `here` along the pieces of a path, through at most `links` links. -/
def walk (d : Disk) (follow : Bool) (links : Nat) (here : Location) (pieces : List String) :
    Except DiskFault Arrival := do
  match ← d.stroll follow here pieces with
  | .arrival a => return a
  | .link holder target rest =>
    match links with
    | 0 => throw .linkLoop
    | links + 1 => d.walk follow links (origin holder target) (Path.pieces target ++ rest)

/-- What makes a path unfit to be walked, whatever the disk holds. -/
def pathFault? (path : String) : Option DiskFault :=
  if path.toList.contains '\x00' then some .nulInPath
  else if path = "" then some .noEntry
  else if pathLimit ≤ path.utf8ByteSize then some .nameTooLong
  else none

def resolve (d : Disk) (follow : Bool) (path : String) : Except DiskFault Arrival :=
  match pathFault? path with
  | some fault => .error fault
  | none => d.walk follow linkLimit (origin d.current path) (Path.pieces path)

/-- What the last piece of a path names: an entry of a directory that need not exist yet, or, when
that piece is a dot or two, a directory that is there already. -/
inductive Slot where
  | name (place : Location) (slash : Bool)
  | directory

def slot (d : Disk) (path : String) : Except DiskFault Slot := do
  if let some fault := pathFault? path then throw fault
  let backwards := (Path.pieces path).reverse
  match backwards.dropWhile (· == "") with
  | [] => return .directory
  | last :: front =>
    match ← d.walk true linkLimit (origin d.current path) (front.reverse ++ [""]) with
    | .free _ _ => throw .noEntry
    | .found place _ =>
      if last = "." ∨ last = ".." then return .directory
      else if last.utf8ByteSize > longestName then throw .nameTooLong
      else return .name (place ++ [last]) (backwards.head? == some "")

end Disk

end CrudLayers
