import CrudLayers.Config.Decode
import CrudLayers.Config.Environment
import CrudLayers.Config.Toml.Document
import CrudLayers.Disk.Path
import CrudLayers.Program.Basic
import CrudLayers.Text.Bytes

namespace CrudLayers

inductive ConfigSource where
  /-- A file, by the path it is shown under. -/
  | file (shown : String)
  | environment

namespace ConfigSource

def description : ConfigSource → String
  | file shown => shown ++ " TOML file"
  | environment => "\x60CRUDGEN_\x60 environment variable(s)"

/-- The name of a setting, as this source spells it. -/
def keyName (way : List String) : ConfigSource → String
  | file _ => ".".intercalate ("default" :: way)
  | environment =>
    ".".intercalate (way.map (fun key => String.ofList (key.toList.map Char.toUpper)))

end ConfigSource

inductive ConfigFault where
  /-- The file is no TOML. -/
  | document
  | unreadable (source : ConfigSource) (fault : DiskFault)
  | shape (source : ConfigSource) (fault : ShapeFault)

def ConfigFault.message : ConfigFault → String
  | document => "TOML parse error"
  | unreadable source fault => fault.message ++ "\n in " ++ source.description
  | shape source fault =>
    fault.message ++ " for key " ++ Visible.quote (source.keyName fault.way) ++ " in " ++
      source.description

namespace Config

/-- The source of the setting at a place: the uppermost that has one there. -/
def sourceOf (shown : String) (environment : List (String × Setting)) (way : List String) :
    ConfigSource :=
  if ((Setting.table environment).at? way).isSome then .environment else .file shown

def ofSettings (shown : String) (file environment : List (String × Setting)) :
    Except ConfigFault Config :=
  (ofEntries (Setting.layEntries file environment)).mapError
    (fun e => .shape (sourceOf shown environment e.way) e)

def standardFile : String :=
  "crudgen.toml"

/-- The paths that a configuration file may have, in the order in which they are tried. -/
def candidates (current path : String) : List String :=
  if Path.isAbsolute path then [path]
  else (Path.upward current).map (fun directory => Path.join directory path)

def firstFile : List String → Program (Option String)
  | [] => return none
  | path :: rest => do
    if ← Program.call (.isFile path) then return some path else firstFile rest

def readFile (shown path : String) : Attempt ConfigFault (List (String × Setting)) := do
  match ← ask (.read path) with
  | .error e => throw (.unreadable (.file shown) e)
  | .ok bytes =>
    match Bytes.text? bytes with
    | none => throw (.unreadable (.file shown) .notText)
    | some text =>
      match Toml.parse? text with
      | some entries => return entries
      | none => throw .document

def load (current : String) (environment : List (String × String)) (path : String) :
    Attempt ConfigFault Config := do
  ask (.note (.loadingConfig path (← ask (.isPresent path))))
  let upper := Environment.settings environment
  match ← ExceptT.lift (firstFile (candidates current path)) with
  | none => ExceptT.mk (.done (ofSettings path [] upper))
  | some found =>
    let shown := Path.shownFrom current found
    let lower ← readFile shown found
    ExceptT.mk (.done (ofSettings shown lower upper))

end Config

end CrudLayers
