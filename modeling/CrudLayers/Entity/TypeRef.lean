import CrudLayers.Entity.Pattern

namespace CrudLayers

/-- A type of a generated signature. The order of the constructors is the order of imports. -/
inductive TypeRef where
  | model
  | modelList
  | number
  | boolean
  | aggregate
  | queryArgs
  | queryManyArgs
  | aggregateArgs
  | createInput
  | updateInput
  | upsertInput
  | deleteInput
deriving DecidableEq

inductive TypeHome where
  | builtin
  | entity
  | types
  | inputs
  | args
deriving DecidableEq

namespace TypeRef

def all : List TypeRef :=
  [model, modelList, number, boolean, aggregate, queryArgs, queryManyArgs, aggregateArgs,
    createInput, updateInput, upsertInput, deleteInput]

def home : TypeRef → TypeHome
  | number | boolean => .builtin
  | model | modelList => .entity
  | aggregate => .types
  | createInput | updateInput | upsertInput | deleteInput => .inputs
  | queryArgs | queryManyArgs | aggregateArgs => .args

/-- The derived name that a type is a spelling of; a list is spelled through its element. -/
def derived? : TypeRef → Option DerivedName
  | model | modelList => some .modelName
  | number | boolean => none
  | aggregate => some .aggregate
  | queryArgs => some .queryArgs
  | queryManyArgs => some .queryManyArgs
  | aggregateArgs => some .aggregateArgs
  | createInput => some .createInput
  | updateInput => some .updateInput
  | upsertInput => some .upsertInput
  | deleteInput => some .deleteInput

/-- The symbol to import for a type; builtin types need none. -/
def symbol? (t : TypeRef) (n : EntityName) : Option String :=
  t.derived?.map n.derived

def text (t : TypeRef) (n : EntityName) : String :=
  match t with
  | number => "number"
  | boolean => "boolean"
  | modelList => n.model ++ "[]"
  | t => (t.symbol? n).getD ""

/-- The type as a resolver decorator writes it after `() =>`. -/
def graphql (t : TypeRef) (n : EntityName) : String :=
  match t with
  | number => "Number"
  | boolean => "Boolean"
  | modelList => "[" ++ n.model ++ "]"
  | t => t.text n

theorem mem_all (t : TypeRef) : t ∈ all := by
  cases t <;> decide

end TypeRef

end CrudLayers
