import CrudLayers.Catalog.Operation
import CrudLayers.Layer.Kind

namespace CrudLayers

/-- The groups that imports are written in, in the order of the groups. -/
inductive Origin where
  | runtime
  | sibling
  | entity
  | types
  | inputs
  | args
deriving DecidableEq

def Origin.all : List Origin :=
  [runtime, sibling, entity, types, inputs, args]

theorem Origin.mem_all (o : Origin) : o ∈ Origin.all := by
  cases o <;> decide

/-- One import statement; the names stand in the order of their first use. -/
structure Import where
  origin : Origin
  source : String
  names : List String
deriving DecidableEq

structure Decorator where
  name : String
  arguments : List String
deriving DecidableEq

/-- The one object that a class is constructed with. -/
structure Collaborator where
  field : String
  typeName : String
  decorator : Option Decorator
deriving DecidableEq

/-- How a resolver method takes its argument: all of them as one bag, or one by its name. -/
inductive Intake where
  | bag
  | named (name : String)
deriving DecidableEq

/-- What exposes a resolver method as a field. -/
structure Directive where
  access : Access
  exposedName : String
  graphqlType : String
  description : String
  intake : Intake
  delegatesTo : String
deriving DecidableEq

structure Parameter where
  name : String
  typeName : String
deriving DecidableEq

/-- A method body: the name of a template and the values for its slots. -/
structure Body where
  template : String
  values : List (String × String)
deriving DecidableEq

structure Method where
  name : String
  parameter : Parameter
  returnType : String
  body : Body
  directive : Option Directive
deriving DecidableEq

structure ClassDecl where
  name : String
  decorators : List Decorator
  collaborator : Collaborator
  methods : List Method
deriving DecidableEq

structure SourceFile where
  layer : Layer
  path : String
  imports : List Import
  decl : ClassDecl
deriving DecidableEq

namespace SourceFile

def methodNames (f : SourceFile) : List String :=
  f.decl.methods.map Method.name

def importedNames (f : SourceFile) : List String :=
  f.imports.flatMap Import.names

def directives (f : SourceFile) : List Directive :=
  f.decl.methods.filterMap Method.directive

end SourceFile

end CrudLayers
