import CrudLayers.Catalog.Table
import CrudLayers.CommandLine.Arguments
import CrudLayers.CommandLine.Failure
import CrudLayers.Diff.Lines
import CrudLayers.Generation.Generate
import CrudLayers.Source.DirectiveJson

namespace CrudLayers.CommandLine

/-- A path stands for the current directory that has it. -/
instance : Coe String (Except DiskFault String) :=
  ⟨.ok⟩

/-- What a run finds around it. The current directory may be one that cannot be read. -/
structure Surroundings where
  current : Except DiskFault String
  environment : List (String × String)

/-- The path of the current directory; it is empty if there is none to be read. -/
def Surroundings.path (s : Surroundings) : String :=
  s.current.toOption.getD ""

/-- How a run ends: its exit code, and what it prints to the error stream. -/
structure Outcome where
  code : Nat
  complaint : String
deriving DecidableEq

abbrev Run := Attempt Failure

def say (text : String) : Run Unit :=
  ask (.say text)

def blueprint (s : Surroundings) (c : Config) (flags : Overrides) (entity : String) :
    Except Failure Blueprint :=
  match EntityName.ofString entity with
  | .ok n => (Blueprint.resolve s.current n ((c.options entity).override flags)).mapError
      (.ofDirectory entity)
  | .error e => .error (.ofName entity e)

theorem blueprint_of_name {s : Surroundings} {c : Config} {flags : Overrides} {entity : String}
    {n : EntityName} (h : EntityName.ofString entity = .ok n) : blueprint s c flags entity =
      match ((c.options entity).override flags).directory s.current with
      | .ok dir => .ok (.ofOptions dir n ((c.options entity).override flags))
      | .error fault => .error (.ofDirectory entity fault) := by
  rw [blueprint, h]
  simp only [Blueprint.resolve]
  cases ((c.options entity).override flags).directory s.current <;> rfl

/-- The layers that are selected; naming none selects all. -/
def selectedLayers (only : List Layer) : List Layer :=
  if only = [] then Layer.all else only

def generatedLine (f : GeneratedFile) : String :=
  "  ✓ " ++ Help.padTo 10 f.layer.name ++ " " ++ Help.padTo 9 f.status.name ++ " " ++ f.path ++ "\n"

def generateEntity (s : Surroundings) (c : Config) (flags : Overrides) (only : List Layer)
    (entity : String) : Run Unit := do
  say ("\nGenerating CRUD layers for " ++ entity ++ "\n")
  let b ← ExceptT.mk (.done (blueprint s c flags entity))
  let files ← (b.generateLayers c.modules (selectedLayers only)).adapt
    (Failure.ofGeneration "generate" entity)
  say (String.join (files.map generatedLine))

def generate (s : Surroundings) (c : Config) (flags : Overrides) (only : List Layer) :
    List String → Run Unit
  | [] => return ()
  | entity :: rest => do
    generateEntity s c flags only entity
    generate s c flags only rest

def checkText (c : FileCheck) : String :=
  match c.current with
  | none => "✗ " ++ c.path ++ " (missing)\n"
  | some current =>
    if c.isStale then
      "✗ " ++ c.path ++ " (differs)\n" ++ Diff.text current c.expected ++ "\n"
    else "✓ " ++ c.path ++ "\n"

/-- Compares the files of an entity and returns the number of stale ones. -/
def checkEntity (s : Surroundings) (c : Config) (flags : Overrides) (entity : String) :
    Run Nat := do
  let b ← ExceptT.mk (.done (blueprint s c flags entity))
  let checks ← (b.check c.modules).adapt (Failure.ofGeneration "check" entity)
  say (String.join (checks.map checkText))
  return checks.countP FileCheck.isStale

def checkEach (s : Surroundings) (c : Config) (flags : Overrides) : List String → Run Nat
  | [] => return 0
  | entity :: rest => do
    let here ← checkEntity s c flags entity
    let there ← checkEach s c flags rest
    return here + there

def checkSummary (stale : Nat) : String :=
  if stale = 0 then "\nAll generated files are up to date\n"
  else
    "\nFound " ++ toString stale ++ " stale file(s); run crudgen generate to regenerate\n"

/-- Compares the files of entities; the run fails if one of them is stale. -/
def check (s : Surroundings) (c : Config) (flags : Overrides) (entities : List String) :
    Run Nat := do
  let stale ← checkEach s c flags entities
  say (checkSummary stale)
  return if stale = 0 then 0 else 1

def directives (s : Surroundings) (c : Config) (flags : Overrides) (entity : String) :
    Run (List Directive) := do
  let b ← ExceptT.mk (.done (blueprint s c flags entity))
  ExceptT.lift (noteAll b.noteExcludes)
  return b.directives

def bindings (s : Surroundings) (c : Config) (flags : Overrides) (entity : String) : Run Unit := do
  let ds ← directives s c flags entity
  say (Directive.listText ds ++ "\n")

def catalog (entity : String) : Run Unit := do
  match EntityName.ofString entity with
  | .ok n => say (CatalogTable.text n)
  | .error e => throw (.ofName entity e)

def perform (s : Surroundings) (c : Config) : Action → Run Nat
  | .generate entities flags only => do
    generate s c flags only entities
    return 0
  | .check entities flags => check s c flags entities
  | .bindings entity flags => do
    bindings s c flags entity
    return 0
  | .catalog entity => do
    catalog entity
    return 0

def invoke (s : Surroundings) (i : Invocation) : Run Nat := do
  let c ← (Config.load s.path s.environment i.globals.config).adapt
    (Failure.ofConfig i.globals.config)
  perform s c i.action

def usageText (e : UsageFault) : String :=
  "error: " ++ e.message ++ "\n\nFor more information, try '--help'.\n"

def conclude (s : Surroundings) (i : Invocation) : Program Outcome := do
  match ← (invoke s i).run with
  | .ok code => return ⟨code, ""⟩
  | .error f => return ⟨1, f.text⟩

/-- Ends a run that has no invocation. -/
def stop : Stop → Program Outcome
  | .fault e => return ⟨2, usageText e⟩
  | .shown text => do
    Program.call (.say text)
    return ⟨0, ""⟩
  | .idle text => return ⟨2, text⟩

def run (s : Surroundings) (arguments : List String) : Program Outcome :=
  match parse arguments with
  | .ok i => conclude s i
  | .error e => stop e

end CrudLayers.CommandLine
