import CrudLayers.Config.Setting
import CrudLayers.Config.Settings
import CrudLayers.Number.Shortest
import CrudLayers.Text.Visible

namespace CrudLayers

/-- What a place in a configuration asks for. -/
inductive Shape where
  | path
  | text
  | list
  | map
  | modules
  | entity
deriving DecidableEq

def Shape.description : Shape → String
  | path => "path string"
  | text => "a string"
  | list => "a sequence"
  | map => "a map"
  | modules => "struct RuntimeModules"
  | entity => "struct EntitySettings"

def Setting.description : Setting → String
  | text s => "string " ++ Visible.quote s
  | signed n => "signed int \x60" ++ toString n ++ "\x60"
  | unsigned n => "unsigned int \x60" ++ toString n ++ "\x60"
  | float x => "float \x60" ++ x.text ++ "\x60"
  | flag b => if b then "bool true" else "bool false"
  | list _ => "sequence"
  | table _ => "map"

/-- A value that has not the shape that its place asks for. -/
structure ShapeFault where
  way : List String
  found : Setting
  expected : Shape

def ShapeFault.message (e : ShapeFault) : String :=
  "invalid type: found " ++ e.found.description ++ ", expected " ++ e.expected.description

def Setting.asText (shape : Shape) (way : List String) : Setting → Except ShapeFault String
  | .text s => .ok s
  | v => .error ⟨way, v, shape⟩

def readItems {α : Type} (read : List String → Setting → Except ShapeFault α) (way : List String) :
    Nat → List Setting → Except ShapeFault (List α)
  | _, [] => .ok []
  | i, v :: rest => do
    let a ← read (way ++ [toString i]) v
    let as ← readItems read way (i + 1) rest
    return a :: as

def readEntries {α : Type} (read : List String → Setting → Except ShapeFault α)
    (way : List String) : List (String × Setting) → Except ShapeFault (List (String × α))
  | [] => .ok []
  | (key, v) :: rest => do
    let a ← read (way ++ [key]) v
    let as ← readEntries read way rest
    return (key, a) :: as

/-- How one field of a record is read into it. -/
structure FieldReader (ρ : Type) where
  key : String
  read : List String → Setting → ρ → Except ShapeFault ρ

/-- Reads the entries that name a field. -/
def readKeyed {ρ : Type} (fields : List (FieldReader ρ)) (way : List String) :
    List (String × Setting) → ρ → Except ShapeFault ρ
  | [], r => .ok r
  | (key, v) :: rest, r =>
    match fields.find? (fun f => f.key == key) with
    | some f => do readKeyed fields way rest (← f.read (way ++ [key]) v r)
    | none => readKeyed fields way rest r

/-- Reads as many fields as there are items; more items than fields are passed over. -/
def readOrdered {ρ : Type} (way : List String) :
    Nat → List (FieldReader ρ) → List Setting → ρ → Except ShapeFault ρ
  | i, f :: fields, v :: rest, r => do
    readOrdered way (i + 1) fields rest (← f.read (way ++ [toString i]) v r)
  | _, _, _, r => .ok r

/-- Reads a record on top of one that holds the value of every field that is not given. -/
def readRecord {ρ : Type} (shape : Shape) (fields : List (FieldReader ρ)) (otherwise : ρ)
    (way : List String) : Setting → Except ShapeFault ρ
  | .table entries => readKeyed fields way entries otherwise
  | .list items => readOrdered way 0 fields items otherwise
  | v => .error ⟨way, v, shape⟩

def FieldReader.text {ρ : Type} (key : String) (set : ρ → String → ρ) : FieldReader ρ :=
  ⟨key, fun way v r => (v.asText .text way).map (set r)⟩

def readTexts (way : List String) : Setting → Except ShapeFault (List String)
  | .list items => readItems (fun way v => v.asText .text way) way 0 items
  | v => .error ⟨way, v, .list⟩

namespace ModuleNames

def fields : List (FieldReader ModuleNames) := [
  .text "injectable" (fun m s => { m with injectable := s }),
  .text "inject_repository" (fun m s => { m with injectRepository := s }),
  .text "exception" (fun m s => { m with exception := s }),
  .text "exception_class" (fun m s => { m with exceptionClass := s }),
  .text "orm" (fun m s => { m with orm := s }),
  .text "graphql" (fun m s => { m with graphql := s }),
  .text "entity_dir" (fun m s => { m with entityDir := s })]

def ofSetting : List String → Setting → Except ShapeFault ModuleNames :=
  readRecord .modules fields .standard

end ModuleNames

namespace EntitySettings

def fields : List (FieldReader EntitySettings) := [
  ⟨"excludes", fun way v s => (readTexts way v).map (fun l => { s with excludes := l })⟩,
  .text "module_dir" (fun s t => { s with moduleDir := some t }),
  .text "relations" (fun s t => { s with relations := some t })]

def ofSetting : List String → Setting → Except ShapeFault EntitySettings :=
  readRecord .entity fields .none

end EntitySettings

namespace Config

def readEntities (way : List String) :
    Setting → Except ShapeFault (List (String × EntitySettings))
  | .table entries => readEntries EntitySettings.ofSetting way entries
  | v => .error ⟨way, v, .map⟩

def fields : List (FieldReader Config) := [
  ⟨"base_dir", fun way v c => (v.asText .path way).map (fun s => { c with baseDir := some s })⟩,
  ⟨"runtime", fun way v c => (ModuleNames.ofSetting way v).map (fun m => { c with modules := m })⟩,
  ⟨"entities", fun way v c => (readEntities way v).map (fun es => { c with entities := es })⟩]

def ofEntries (entries : List (String × Setting)) : Except ShapeFault Config :=
  readKeyed fields [] entries .standard

end Config

end CrudLayers
