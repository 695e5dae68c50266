import CrudLayers.Catalog.Entry
import CrudLayers.Entity.Blueprint
import CrudLayers.Layer.Modules
import CrudLayers.Source.Assembly

namespace CrudLayers

namespace Blueprint

/-- The symbols that the used types take from one place, in the order of the types. -/
def symbolsFrom (b : Blueprint) (used : List TypeRef) (home : TypeHome) : List String :=
  (TypeRef.all.filter (fun t => t ∈ used ∧ t.home = home)).filterMap (·.symbol? b.name)

def modelModule (b : Blueprint) (names : ModuleNames) : String :=
  names.entityDir ++ "/" ++ b.name.text ++ ".entity"

end Blueprint

namespace Assembly

/-- Imports the symbols of all used types, each from the place where it is defined. -/
def requireTypes (a : Assembly) (b : Blueprint) (names : ModuleNames) (used : List TypeRef) :
    Assembly :=
  (((a.require .entity (b.modelModule names) (b.symbolsFrom used .entity)).require
    .types (b.typesModule "type") (b.symbolsFrom used .types)).require
    .inputs (b.typesModule "input") (b.symbolsFrom used .inputs)).require
    .args (b.typesModule "args") (b.symbolsFrom used .args)

end Assembly

/-- What every body may say: the collaborator, the method to call on it, and the parameter. -/
def callValues (collaborator method param : String) : List (String × String) :=
  [("collaborator", collaborator), ("method", method), ("param", param)]

/-- The body that forwards the parameter to a method of the collaborator. -/
def forward (collaborator method param : String) : Body :=
  ⟨"delegate", callValues collaborator method param⟩

def paramsName : String :=
  "params"

def signatureTypes (entries : List CatalogEntry) : List TypeRef :=
  entries.flatMap (fun e => [e.param, e.result])

end CrudLayers
