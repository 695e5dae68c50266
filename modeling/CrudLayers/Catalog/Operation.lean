namespace CrudLayers

inductive Access where
  | query
  | mutation
deriving DecidableEq

def Access.decorator : Access → String
  | query => "Query"
  | mutation => "Mutation"

inductive Operation where
  | findOne
  | findMany
  | count
  | aggregate
  | create
  | update
  | upsert
  | delete
deriving DecidableEq

namespace Operation

/-- The operations in the order in which methods are written. -/
def all : List Operation :=
  [findOne, findMany, count, aggregate, create, update, upsert, delete]

def methodName : Operation → String
  | findOne => "findOne"
  | findMany => "findMany"
  | count => "count"
  | aggregate => "aggregate"
  | create => "create"
  | update => "update"
  | upsert => "upsert"
  | delete => "delete"

def bodyName (o : Operation) : String :=
  "repository." ++ o.methodName

theorem mem_all (o : Operation) : o ∈ all := by
  cases o <;> decide

end Operation

end CrudLayers
