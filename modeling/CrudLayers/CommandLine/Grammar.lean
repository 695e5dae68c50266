import CrudLayers.Config.Load

namespace CrudLayers.CommandLine

/-- What the value of an option may be; each value of a choice has a description. -/
inductive ValueKind where
  | text
  | path
  | choice (values : List (String × String))
deriving DecidableEq

/-- An option that takes a value has a name for it. -/
structure Switch where
  long : String
  short : Option Char
  value : Option (String × ValueKind)
  repeatable : Bool
  help : String
  standard : Option String
deriving DecidableEq

structure Operand where
  name : String
  required : Bool
  many : Bool
  help : String
  standard : Option String
deriving DecidableEq

structure Command where
  name : String
  about : String
  options : List Switch
  operand : Option Operand
deriving DecidableEq

namespace Switch

/-- An option as messages name it, such as `--base-dir <DIR>`. -/
def label (o : Switch) : String :=
  match o.value with
  | some (name, _) => "--" ++ o.long ++ " <" ++ name ++ ">"
  | none => "--" ++ o.long

def config : Switch :=
  ⟨"config", none, some ("FILE", .path), false, "Configuration file", some Config.standardFile⟩

def verbose : Switch :=
  ⟨"verbose", some 'v', none, false, "Log debug details (filtering decisions, skipped excludes)",
    none⟩

def logFormat : Switch :=
  ⟨"log-format", none,
    some ("LOG_FORMAT", .choice [("pretty", "Human-readable multi-line output"),
      ("json", "One JSON object per event")]),
    false, "Log output format", some "pretty"⟩

def baseDir : Switch :=
  ⟨"base-dir", none, some ("DIR", .path), false,
    "Output base directory [default: current directory]", none⟩

def exclude : Switch :=
  ⟨"exclude", none, some ("NAME", .text), true,
    "Resolver field to leave out, by exposed name (repeatable)", none⟩

def moduleDir : Switch :=
  ⟨"module-dir", none, some ("PREFIX", .text), false,
    "Module prefix of argument/input/aggregate types [default: @<entity>]", none⟩

def relations : Switch :=
  ⟨"relations", none, some ("EXPR", .text), false,
    "Relation eager-load expression, inserted verbatim [default: []]", none⟩

def only : Switch :=
  ⟨"only", none,
    some ("LAYER", .choice [(Layer.repository.name, "Data-access class"),
      (Layer.service.name, "Business-logic class"),
      (Layer.resolver.name, "GraphQL resolver class")]),
    true, "Generate only these layers (repeatable) [default: all]", none⟩

def everywhere : List Switch :=
  [config, verbose, logFormat]

def ofEntities : List Switch :=
  [baseDir, config, exclude, verbose, logFormat, moduleDir, relations]

end Switch

namespace Command

def generate : Command :=
  ⟨"generate", "Generate the CRUD layers for one or more entities",
    Switch.ofEntities ++ [Switch.only],
    some ⟨"ENTITY", true, true,
      "Entity object names (\x60lowerCamelCase\x60, e.g. \x60order\x60, \x60orderItem\x60)", none⟩⟩

def check : Command :=
  ⟨"check", "Fail if any generated file is missing or differs from a fresh render",
    Switch.ofEntities, some ⟨"ENTITY", true, true, "Entity object names", none⟩⟩

def bindings : Command :=
  ⟨"bindings", "Print resolver binding directives as JSON",
    Switch.ofEntities, some ⟨"ENTITY", true, false, "Entity object name", none⟩⟩

def catalog : Command :=
  ⟨"catalog", "Print the operation catalog",
    Switch.everywhere,
    some ⟨"ENTITY", false, false, "Entity whose names fill in the type patterns", some "entity"⟩⟩

def all : List Command :=
  [generate, check, bindings, catalog]

end Command

def programName : String :=
  "crudgen"

def programVersion : String :=
  "0.1.0-alpha.1"

def programAbout : String :=
  "Generate repository, service and GraphQL resolver classes for an entity"

def helpName : String :=
  "help"

def helpAbout : String :=
  "Print this message or the help of the given subcommand(s)"

end CrudLayers.CommandLine
