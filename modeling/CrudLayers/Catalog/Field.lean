import CrudLayers.Catalog.Entry

namespace CrudLayers

inductive ResolverField where
  | one
  | many
  | aggregate
  | create
  | update
  | updateMany
  | upsert
  | delete
deriving DecidableEq

namespace ResolverField

/-- The fields in the order in which they are exposed. -/
def all : List ResolverField :=
  [one, many, aggregate, create, update, updateMany, upsert, delete]

def pattern : ResolverField → NamePattern
  | one => ⟨.object, "", ""⟩
  | many => ⟨.object, "", "s"⟩
  | aggregate => ⟨.object, "", "Aggregate"⟩
  | create => ⟨.model, "create", ""⟩
  | update => ⟨.model, "update", ""⟩
  | updateMany => ⟨.model, "updateMany", "s"⟩
  | upsert => ⟨.model, "upsert", ""⟩
  | delete => ⟨.model, "delete", ""⟩

def operation : ResolverField → Operation
  | one => .findOne
  | many => .findMany
  | aggregate => .aggregate
  | create => .create
  | update | updateMany => .update
  | upsert => .upsert
  | delete => .delete

def description : ResolverField → String
  | updateMany => "Update many"
  | field => field.operation.description

def exposedName (f : ResolverField) (n : EntityName) : String :=
  f.pattern.fill n

theorem mem_all (f : ResolverField) : f ∈ all := by
  cases f <;> decide

end ResolverField

end CrudLayers
