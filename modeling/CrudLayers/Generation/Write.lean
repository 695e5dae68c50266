import CrudLayers.Disk.Basic
import CrudLayers.Disk.Path
import CrudLayers.Program.Basic
import CrudLayers.Text.Bytes

namespace CrudLayers

/-- A fault of the disk, and the path that it is reported for. -/
structure PathFault where
  path : String
  fault : DiskFault
deriving DecidableEq

def PathFault.message (e : PathFault) : String :=
  "I/O error on " ++ e.path ++ ": " ++ e.fault.message

namespace Write

/-- Makes directories, each in the one before it; those that are there already are left alone. -/
def makeEach : List String → Program (Except DiskFault Unit)
  | [] => return .ok ()
  | path :: rest => do
    match ← Program.call (.makeDirectory path) with
    | .ok () => makeEach rest
    | .error e => if ← Program.call (.isDirectory path) then makeEach rest else return .error e

/-- Goes from a path up through its parents to the first directory that is there or can be made,
and then makes those that are missing below it. -/
def makeMissing (missing : List String) : List String → Program (Except DiskFault Unit)
  | [] => makeEach missing
  | path :: parents => do
    match ← Program.call (.makeDirectory path) with
    | .ok () => makeEach missing
    | .error .noEntry => makeMissing (path :: missing) parents
    | .error e => if ← Program.call (.isDirectory path) then makeEach missing else return .error e

def makeDirectories (path : String) : Program (Except DiskFault Unit) :=
  makeMissing [] (Path.upward path)

/-- The text of a file, if there is one. -/
def readExisting (path : String) : Attempt PathFault (Option String) := do
  match ← ask (.read path) with
  | .ok bytes =>
    match Bytes.text? bytes with
    | some text => return some text
    | none => throw ⟨path, .notText⟩
  | .error .noEntry => return none
  | .error e => throw ⟨path, e⟩

def status (earlier : Option String) (text : String) : WriteStatus :=
  match earlier with
  | none => .created
  | some t => if t = text then .unchanged else .updated

/-- Adds bytes to a file until all are taken. -/
def appendAll (path : String) : List UInt8 → Program (Except DiskFault Unit)
  | [] => return .ok ()
  | byte :: rest => do
    match ← Program.call (.append path (byte :: rest)) with
    | .ok 0 => return .error .stuck
    | .ok (taken + 1) => appendAll path (rest.drop taken)
    | .error e => return .error e
termination_by bytes => bytes.length
decreasing_by rw [List.length_drop, List.length_cons]; omega

/-- Fills a temporary file and gives it its mode and the target's name. -/
def fillAndRename (temporary path text : String) (mode : Nat) : Attempt PathFault Unit := do
  attempt (appendAll temporary (Bytes.ofText text)) (⟨temporary, ·⟩)
  attempt (Program.call (.sync temporary)) (⟨temporary, ·⟩)
  attempt (Program.call (.setMode temporary mode)) (⟨temporary, ·⟩)
  attempt (Program.call (.rename temporary path)) (⟨path, ·⟩)

/-- Writes a text to a file, which need not exist and keeps its mode if it does. The directories
on the way to it are made. -/
def writeFile (path text : String) : Attempt PathFault WriteStatus := do
  let directory := Path.holder path
  attempt (makeDirectories directory) (⟨directory, ·⟩)
  let mode ← ask (.mode path)
  let earlier ← readExisting path
  let temporary ← attempt (Program.call (.makeTemporary directory)) (⟨directory, ·⟩)
  match ← ExceptT.lift (fillAndRename temporary path text (mode.getD Entry.defaultMode)).run with
  | .ok () =>
    ask (.note (.wroteFile path (status earlier text) text.utf8ByteSize))
    return status earlier text
  | .error e =>
    ask (.discard temporary)
    throw e

end Write

end CrudLayers
