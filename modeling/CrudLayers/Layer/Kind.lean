namespace CrudLayers

inductive Layer where
  | repository
  | service
  | resolver
deriving DecidableEq

namespace Layer

def all : List Layer :=
  [repository, service, resolver]

def name : Layer → String
  | repository => "repository"
  | service => "service"
  | resolver => "resolver"

/-- The name of a layer's file for an entity, such as `order.service.ts`. -/
def fileName (l : Layer) (object : String) : String :=
  object ++ "." ++ l.name ++ ".ts"

theorem mem_all (l : Layer) : l ∈ all := by
  cases l <;> decide

end Layer

end CrudLayers
