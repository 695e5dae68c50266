import CrudLayers.CommandLine.LogLine
import CrudLayers.CommandLine.Run
import CrudLayers.Disk.Walk

namespace CrudLayers.Machine

/-- A fault by its number, which some calls give as a negative one in 32 bits. -/
def numbered (n : UInt32) (description : String) : DiskFault :=
  .ofNumber (if n.toNat < 0x80000000 then n.toNat else 0x100000000 - n.toNat) description

def faultOf : IO.Error → DiskFault
  | .alreadyExists _ n s => numbered n s
  | .otherError n s => numbered n s
  | .resourceBusy n s => numbered n s
  | .resourceVanished n s => numbered n s
  | .unsupportedOperation n s => numbered n s
  | .hardwareFault n s => numbered n s
  | .unsatisfiedConstraints n s => numbered n s
  | .illegalOperation n s => numbered n s
  | .protocolError n s => numbered n s
  | .timeExpired n s => numbered n s
  | .interrupted _ n s => numbered n s
  | .noFileOrDirectory _ n s => numbered n s
  | .invalidArgument _ n s => numbered n s
  | .permissionDenied _ n s => numbered n s
  | .resourceExhausted _ n s => numbered n s
  | .inappropriateType _ n s => numbered n s
  | .noSuchThing _ n s => numbered n s
  | .unexpectedEof => .device
  | .userError s => .other 0 s

/-- Makes a call of the system, unless the path is unfit for any. -/
def guarded {α : Type} (path : String) (act : IO α) : IO (Except DiskFault α) := do
  match Disk.pathFault? path with
  | some fault => return .error fault
  | none =>
    try
      return .ok (← act)
    catch e => return .error (faultOf e)

def typeOf? (path : String) : IO (Option IO.FS.FileType) := do
  match ← guarded path (do ((← IO.currentDir) / path).metadata) with
  | .ok data => return some data.type
  | .error _ => return none

def isType (type : IO.FS.FileType) (path : String) : IO Bool := do
  return (← typeOf? path) == some type

def rightsOf (bits : Nat) : IO.AccessRight :=
  ⟨bits / 4 % 2 == 1, bits / 2 % 2 == 1, bits % 2 == 1⟩

def setMode (path : String) (mode : Nat) : IO Unit :=
  IO.setAccessRights path ⟨rightsOf (mode / 64), rightsOf (mode / 8), rightsOf mode⟩

def letters : List Char :=
  "0123456789ABCDEFGHIJKLMNOPQRSTUVWXYZabcdefghijklmnopqrstuvwxyz".toList

def randomName : IO String := do
  let bytes ← IO.getRandomBytes 6
  return ".tmp" ++ String.ofList (bytes.toList.map (fun b => letters.getD (b.toNat % 62) '0'))

/-- Makes an empty file under a random name; names that are taken are passed over. -/
def makeTemporary (directory : String) : Nat → IO (Except DiskFault String)
  | 0 => return .error .occupied
  | attempts + 1 => do
    let path := Path.join directory (← randomName)
    match ← guarded path (IO.FS.Handle.mk path .writeNew) with
    | .ok handle =>
      handle.flush
      guarded path (do
        setMode path Entry.privateMode
        return path)
    | .error .occupied => makeTemporary directory attempts
    | .error e => return .error e

def append (path : String) (bytes : List UInt8) : IO (Except DiskFault Nat) :=
  guarded path (do
    let handle ← IO.FS.Handle.mk path .append
    handle.write (ByteArray.mk bytes.toArray)
    handle.flush
    return bytes.length)

/-- Answers one call; `shown` prints the events that are to be shown. -/
def answer (shown : Event → IO Unit) : (c : Call) → IO c.Reply
  | .makeDirectory path => guarded path (IO.FS.createDir path)
  | .isDirectory path => isType .dir path
  | .isFile path => isType .file path
  | .isPresent path => return (← typeOf? path).isSome
  | .mode path => return if ← isType .file path then some Entry.defaultMode else none
  | .read path => guarded path (do
    let bytes ← IO.FS.readBinFile path
    return bytes.data.toList)
  | .makeTemporary directory => makeTemporary directory 100
  | .append path bytes => append path bytes
  | .sync _ => return .ok ()
  | .setMode path mode => guarded path (setMode path mode)
  | .rename source target => guarded target (IO.FS.rename source target)
  | .discard path => do
    let _ ← guarded path (IO.FS.removeFile path)
  | .say text => do
    let out ← IO.getStdout
    out.putStr text
    out.flush
  | .note event => shown event

def perform {α : Type} (shown : Event → IO Unit) : Program α → IO α
  | .done a => return a
  | .ask c next => do
    let reply ← answer shown c
    perform shown (next reply)

def currentPath : IO (Except DiskFault String) := do
  try
    return .ok (← IO.currentDir).toString
  catch e => return .error (faultOf e)

def environment : IO (List (String × String)) := do
  let bytes ← IO.FS.readBinFile "/proc/self/environ"
  let pieces := bytes.data.toList.splitBy (fun a b => a != 0 && b != 0)
  let texts := pieces.filterMap Bytes.text?
  return texts.filterMap (fun t =>
    let name := t.toList.takeWhile (· != '=')
    match t.toList.drop name.length with
    | _ :: value => some (String.ofList name, String.ofList value)
    | [] => none)

def logger (given : Option String) (globals : CommandLine.Globals) (e : Event) : IO Unit := do
  if LogFilter.shows (LogFilter.ofEnvironment given globals.verbose) e then
    (← IO.getStderr).putStr (e.line globals.logFormat)

end CrudLayers.Machine

open CrudLayers in
def main (arguments : List String) : IO UInt32 := do
  let around : CommandLine.Surroundings :=
    ⟨← Machine.currentPath, ← Machine.environment⟩
  let shown : Event → IO Unit := match CommandLine.parse arguments with
    | .ok i => Machine.logger (around.environment.lookup "RUST_LOG") i.globals
    | .error _ => fun _ => pure ()
  let outcome ← Machine.perform shown (CommandLine.run around arguments)
  (← IO.getStderr).putStr outcome.complaint
  return outcome.code.toUInt32
