import CrudLayers.Disk.Walk
import CrudLayers.Text.Bytes

namespace CrudLayers.Disk

def stat (d : Disk) (path : String) : Except DiskFault Entry := do
  match ← d.resolve true path with
  | .found _ entry => return entry
  | .free _ _ => throw .noEntry

def isDirectory (d : Disk) (path : String) : Bool :=
  match d.stat path with
  | .ok .directory => true
  | _ => false

def isFile (d : Disk) (path : String) : Bool :=
  match d.stat path with
  | .ok (.file _ _) => true
  | _ => false

def isPresent (d : Disk) (path : String) : Bool :=
  match d.stat path with
  | .ok _ => true
  | .error _ => false

def mode? (d : Disk) (path : String) : Option Nat :=
  match d.stat path with
  | .ok (.file _ mode) => some mode
  | _ => none

def read (d : Disk) (path : String) : Except DiskFault (List UInt8) := do
  match ← d.stat path with
  | .file bytes _ => return bytes
  | _ => throw .isDirectory

def readText (d : Disk) (path : String) : Except DiskFault String := do
  match Bytes.text? (← d.read path) with
  | some text => return text
  | none => throw .notText

/-- Puts an entry at a free name. -/
def make (d : Disk) (path : String) (entry : Entry) : Except DiskFault Disk := do
  match ← d.slot path with
  | .directory => throw .occupied
  | .name place slash =>
    if (d.find? place).isSome then throw .occupied
    else if slash ∧ entry ≠ .directory then throw .noEntry
    else return d.put place entry

def makeDirectory (d : Disk) (path : String) : Except DiskFault Disk :=
  d.make path .directory

def temporaryName (n : Nat) : String :=
  ".tmp" ++ toString n

def freeTemporary? (d : Disk) (place : Location) : Option String :=
  ((List.range (d.entries.length + 1)).map temporaryName).find?
    (fun name => (d.find? (place ++ [name])).isNone)

/-- Makes an empty file under a free name in a directory and returns its path. -/
def makeTemporary (d : Disk) (directory : String) : Except DiskFault (String × Disk) := do
  match ← d.resolve true directory with
  | .found place .directory =>
    match d.freeTemporary? place with
    | some name =>
      let path := Path.join directory name
      return (path, ← d.make path (.file [] Entry.privateMode))
    | none => throw .occupied
  | .found _ _ => throw .notDirectory
  | .free _ _ => throw .noEntry

def append (d : Disk) (path : String) (bytes : List UInt8) : Except DiskFault Disk := do
  match ← d.resolve true path with
  | .found place (.file held mode) => return d.put place (.file (held ++ bytes) mode)
  | .found _ _ => throw .isDirectory
  | .free _ _ => throw .noEntry

/-- Gives a file another mode; directories have none here. -/
def setMode (d : Disk) (path : String) (mode : Nat) : Except DiskFault Disk := do
  match ← d.resolve true path with
  | .found place (.file bytes _) => return d.put place (.file bytes mode)
  | .found _ _ => return d
  | .free _ _ => throw .noEntry

/-- Moves a file to another name, where it replaces what is no directory. -/
def rename (d : Disk) (source target : String) : Except DiskFault Disk := do
  match ← d.slot source, ← d.slot target with
  | .name start _, .name finish slash =>
    match d.find? start with
    | none => throw .noEntry
    | some entry =>
      if slash then throw .notDirectory
      else if d.find? finish = some .directory then throw .isDirectory
      else return (d.erase start).put finish entry
  | _, _ => throw .busy

/-- Removes a name that is no directory's. -/
def remove (d : Disk) (path : String) : Except DiskFault Disk := do
  match ← d.resolve false path with
  | .found _ .directory => throw .isDirectory
  | .found place _ => return d.erase place
  | .free _ _ => throw .noEntry

end CrudLayers.Disk
