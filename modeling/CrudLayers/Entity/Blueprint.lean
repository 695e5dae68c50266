import CrudLayers.Disk.Fault
import CrudLayers.Disk.Path
import CrudLayers.Entity.Name
import CrudLayers.Layer.Kind
import CrudLayers.Text.Distinct

namespace CrudLayers

/-- Options for one entity; what is absent takes its default in the blueprint. -/
structure Options where
  baseDir : Option String
  excludes : List String
  moduleDir : Option String
  relations : Option String
deriving DecidableEq

def Options.none : Options :=
  ⟨Option.none, [], Option.none, Option.none⟩

/-- The base directory: the one that is given, or else the current one. -/
def Options.directory (current : Except DiskFault String) (o : Options) :
    Except DiskFault String :=
  o.baseDir.elim current .ok

structure Blueprint where
  name : EntityName
  baseDir : String
  moduleDir : String
  relations : String
  excludes : List String
deriving DecidableEq

namespace Blueprint

def generatedDir : String :=
  "generated"

/-- The relation expression of an entity for which none is given. -/
def noRelations : String :=
  "[]"

/-- Gives every option its value; without a base directory the current one is taken. -/
def ofOptions (current : String) (n : EntityName) (o : Options) : Blueprint where
  name := n
  baseDir := o.baseDir.getD current
  moduleDir := o.moduleDir.getD ("@" ++ n.text)
  relations := o.relations.getD noRelations
  excludes := ascending o.excludes

/-- There is no blueprint if the current directory is needed and cannot be read. -/
def resolve (current : Except DiskFault String) (n : EntityName) (o : Options) :
    Except DiskFault Blueprint :=
  (o.directory current).map (fun dir => ofOptions dir n o)

def isExcluded (b : Blueprint) (field : String) : Bool :=
  b.excludes.contains field

def outputDir (b : Blueprint) : String :=
  Path.join (Path.join b.baseDir generatedDir) b.name.text

def filePath (b : Blueprint) (l : Layer) : String :=
  Path.join b.outputDir (l.fileName b.name.text)

/-- The module that holds types of one sort for the entity, such as `@order/order.input`. -/
def typesModule (b : Blueprint) (sort : String) : String :=
  b.moduleDir ++ "/" ++ b.name.text ++ "." ++ sort

end Blueprint

end CrudLayers
