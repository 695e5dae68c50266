import CrudLayers.Catalog.Field
import CrudLayers.Layer.Types

namespace CrudLayers.Blueprint

def exposes (b : Blueprint) (f : ResolverField) : Bool :=
  !b.isExcluded (f.exposedName b.name)

/-- The fields that the excludes leave, in catalog order. -/
def fields (b : Blueprint) : List ResolverField :=
  ResolverField.all.filter b.exposes

def unmatchedExcludes (b : Blueprint) : List String :=
  b.excludes.filter (fun e => !ResolverField.all.any (fun f => f.exposedName b.name == e))

def excludedFields (b : Blueprint) : List String :=
  (ResolverField.all.map (·.exposedName b.name)).filter b.isExcluded

def argsName : String :=
  "args"

/-- A query takes all arguments in a bag, a mutation takes its `input`. -/
def intake : Access → Intake
  | .query => .bag
  | .mutation => .named "input"

def directive (b : Blueprint) (f : ResolverField) : Directive where
  access := f.operation.access
  exposedName := f.exposedName b.name
  graphqlType := f.operation.result.graphql b.name
  description := f.description
  intake := intake f.operation.access
  delegatesTo := f.operation.methodName

def directives (b : Blueprint) : List Directive :=
  b.fields.map b.directive

def resolverCollaborator (b : Blueprint) : Collaborator where
  field := b.name.derived .serviceField
  typeName := b.name.derived .serviceClass
  decorator := none

def resolverMethod (b : Blueprint) (f : ResolverField) : Method where
  name := f.exposedName b.name
  parameter := ⟨argsName, f.operation.param.text b.name⟩
  returnType := f.operation.result.text b.name
  body := forward (b.name.derived .serviceField) f.operation.methodName argsName
  directive := some (b.directive f)

def graphqlNames (fields : List ResolverField) : List String :=
  let queries := fields.any (fun f => f.operation.access == .query)
  let mutations := fields.any (fun f => f.operation.access == .mutation)
  ["Resolver"] ++ (if queries then ["Query"] else []) ++
    (if mutations then ["Mutation", "Arg"] else []) ++ (if queries then ["Args"] else [])

/-- The class decorator names the model, so the model is used even without fields. -/
def resolverFile (b : Blueprint) (names : ModuleNames) : SourceFile :=
  let start := Assembly.start .resolver (b.filePath .resolver)
    (b.name.derived .resolverClass) b.resolverCollaborator
  let assembly := ((start.decorate ⟨"Resolver", ["() => " ++ b.name.model]⟩).methods
    (b.fields.map b.resolverMethod)).require
    .runtime names.graphql (graphqlNames b.fields)
  ((assembly.require .sibling ("./" ++ b.name.text ++ ".service")
    [b.name.derived .serviceClass]).requireTypes b names
    (.model :: signatureTypes (b.fields.map (·.operation.entry)))).finish

end CrudLayers.Blueprint
