import CrudLayers.Config.Load
import CrudLayers.Generation.Generate

namespace CrudLayers.CommandLine

structure Failure where
  context : String
  causes : List String
deriving DecidableEq

namespace Failure

/-- A cause behind its number or margin; its further lines stand in the same column. -/
def indented (first further : String) (cause : String) : String :=
  first ++ String.ofList (cause.toList.flatMap
    (fun c => if c = '\n' then '\n' :: further.toList else [c]))

def numbered (n : Nat) : String :=
  let digits := toString n
  String.ofList (List.replicate (5 - digits.length) ' ') ++ digits ++ ": "

def causesText : List String → String
  | [] => ""
  | [cause] => "\n\nCaused by:\n" ++ indented "    " "    " cause
  | causes =>
    "\n\nCaused by:" ++ String.join (causes.zipIdx.map
      (fun c => "\n" ++ indented (numbered c.2) "       " c.1))

def text (f : Failure) : String :=
  "Error: " ++ f.context ++ causesText f.causes ++ "\n"

def nameMessage (entity : String) (e : NameFault) : String :=
  "Invalid entity name '" ++ entity ++ "': " ++ e.reason

def ofName (entity : String) (e : NameFault) : Failure :=
  ⟨"Invalid entity '" ++ entity ++ "'", [nameMessage entity e]⟩

def ofDirectory (entity : String) (e : DiskFault) : Failure :=
  ⟨"Invalid entity '" ++ entity ++ "'", [(PathFault.mk "." e).message, e.message]⟩

/-- A fault of the disk is its own last cause. -/
def generationCauses (e : GenerationFault) : List String :=
  match e with
  | .text fault => [e.message, fault.message]
  | .disk fault => [e.message, fault.fault.message]

def ofGeneration (verb entity : String) (e : GenerationFault) : Failure :=
  ⟨"Failed to " ++ verb ++ " '" ++ entity ++ "'", generationCauses e⟩

def configMessage (e : ConfigFault) : String :=
  "Configuration error: " ++ e.message

def ofConfig (path : String) (e : ConfigFault) : Failure :=
  ⟨"Failed to load configuration from " ++ path, [configMessage e, e.message]⟩

end Failure

end CrudLayers.CommandLine
