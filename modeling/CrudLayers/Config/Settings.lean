import CrudLayers.Entity.Blueprint
import CrudLayers.Layer.Modules

namespace CrudLayers

structure EntitySettings where
  excludes : List String
  moduleDir : Option String
  relations : Option String
deriving DecidableEq

def EntitySettings.none : EntitySettings :=
  ⟨[], Option.none, Option.none⟩

/-- The keys of `entities` are distinct and ascend. -/
structure Config where
  baseDir : Option String
  modules : ModuleNames
  entities : List (String × EntitySettings)
deriving DecidableEq

namespace Config

def standard : Config :=
  ⟨none, .standard, []⟩

def sameIgnoringCase (s t : String) : Bool :=
  s.toList.map Char.toLower == t.toList.map Char.toLower

def settings? (c : Config) (name : String) : Option EntitySettings :=
  match c.entities.lookup name with
  | some s => some s
  | none => (c.entities.find? (fun e => sameIgnoringCase e.1 name)).map Prod.snd

/-- The options for an entity before the command line has its say. -/
def options (c : Config) (name : String) : Options :=
  let s := (c.settings? name).getD .none
  ⟨c.baseDir, s.excludes, s.moduleDir, s.relations⟩

end Config

abbrev Overrides := Options

namespace Options

def override (o : Options) (flags : Overrides) : Options where
  baseDir := flags.baseDir.or o.baseDir
  excludes := addNew o.excludes flags.excludes
  moduleDir := flags.moduleDir.or o.moduleDir
  relations := flags.relations.or o.relations

end Options

end CrudLayers
