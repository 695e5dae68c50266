import CrudLayers.Disk.Fault
import CrudLayers.Program.Event

namespace CrudLayers

inductive Call where
  /-- Makes a directory in an existing one. -/
  | makeDirectory (path : String)
  | isDirectory (path : String)
  | isFile (path : String)
  | isPresent (path : String)
  /-- Asks for the mode of the file that a path leads to. -/
  | mode (path : String)
  | read (path : String)
  /-- Makes an empty file under a fresh name in a directory and replies with its path. -/
  | makeTemporary (directory : String)
  /-- Adds bytes at the end of a file and replies how many of them were taken. -/
  | append (path : String) (bytes : List UInt8)
  | sync (path : String)
  | setMode (path : String) (mode : Nat)
  | rename (source target : String)
  /-- Removes a temporary file that is not needed any more. -/
  | discard (path : String)
  | say (text : String)
  | note (event : Event)
deriving DecidableEq

abbrev Call.Reply : Call → Type
  | makeDirectory _ | sync _ | setMode _ _ | rename _ _ => Except DiskFault Unit
  | isDirectory _ | isFile _ | isPresent _ => Bool
  | mode _ => Option Nat
  | read _ => Except DiskFault (List UInt8)
  | makeTemporary _ => Except DiskFault String
  | append _ _ => Except DiskFault Nat
  | discard _ | say _ | note _ => Unit

end CrudLayers
