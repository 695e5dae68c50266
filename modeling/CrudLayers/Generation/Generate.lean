import CrudLayers.Generation.Write
import CrudLayers.Layer.File

namespace CrudLayers

inductive GenerationFault where
  | text (fault : PrintFault)
  | disk (fault : PathFault)
deriving DecidableEq

def GenerationFault.message : GenerationFault → String
  | text fault => "Render error: " ++ fault.message
  | disk fault => fault.message

structure GeneratedFile where
  layer : Layer
  path : String
  status : WriteStatus
deriving DecidableEq

/-- The layers whose files are new or have another text than before. -/
def changedLayers (files : List GeneratedFile) : List Layer :=
  (files.filter (·.status ≠ .unchanged)).map GeneratedFile.layer

structure FileCheck where
  layer : Layer
  path : String
  current : Option String
  expected : String
deriving DecidableEq

def FileCheck.isStale (c : FileCheck) : Bool :=
  c.current ≠ some c.expected

namespace Blueprint

/-- Tells which excludes match no field, and which fields the excludes remove. -/
def noteExcludes (b : Blueprint) : List Event :=
  b.unmatchedExcludes.map (.unmatchedExclude b.name.text) ++
    b.excludedFields.map (.excludedField b.name.text)

end Blueprint

def noteAll : List Event → Program Unit
  | [] => return ()
  | event :: rest => do
    Program.call (.note event)
    noteAll rest

namespace Blueprint

def buildEvents (b : Blueprint) : Layer → List Event
  | .resolver => b.noteExcludes
  | _ => []

def render (b : Blueprint) (names : ModuleNames) (l : Layer) : Attempt GenerationFault String := do
  ExceptT.lift (noteAll (b.buildEvents l))
  ExceptT.mk (.done ((b.text names l).mapError .text))

def generate (b : Blueprint) (names : ModuleNames) (l : Layer) :
    Attempt GenerationFault GeneratedFile := do
  let text ← b.render names l
  let path := b.filePath l
  let status ← (Write.writeFile path text).adapt .disk
  ask (.note (.generatedFile b.name.text l status path))
  return ⟨l, path, status⟩

def generateEach (b : Blueprint) (names : ModuleNames) :
    List Layer → Attempt GenerationFault (List GeneratedFile)
  | [] => return []
  | l :: rest => do
    let file ← b.generate names l
    let files ← b.generateEach names rest
    return file :: files

/-- Generates the selected layers, each once and in the order of layers. -/
def generateLayers (b : Blueprint) (names : ModuleNames) (selected : List Layer) :
    Attempt GenerationFault (List GeneratedFile) :=
  b.generateEach names (Layer.all.filter (· ∈ selected))

def checkLayer (b : Blueprint) (names : ModuleNames) (l : Layer) :
    Attempt GenerationFault FileCheck := do
  let expected ← b.render names l
  let path := b.filePath l
  let current ← (Write.readExisting path).adapt .disk
  let check : FileCheck := ⟨l, path, current, expected⟩
  if check.isStale then ask (.note (.staleFile b.name.text l path))
  return check

def checkEach (b : Blueprint) (names : ModuleNames) :
    List Layer → Attempt GenerationFault (List FileCheck)
  | [] => return []
  | l :: rest => do
    let check ← b.checkLayer names l
    let checks ← b.checkEach names rest
    return check :: checks

/-- Compares the files of all layers; nothing is written. -/
def check (b : Blueprint) (names : ModuleNames) : Attempt GenerationFault (List FileCheck) :=
  b.checkEach names Layer.all

end Blueprint

end CrudLayers
