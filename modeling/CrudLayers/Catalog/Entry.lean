import CrudLayers.Catalog.Body
import CrudLayers.Catalog.Operation
import CrudLayers.Entity.TypeRef

namespace CrudLayers

structure CatalogEntry where
  operation : Operation
  access : Access
  param : TypeRef
  result : TypeRef
  description : String
  body : Template

/-- One row for each operation, in the order in which methods are written. -/
def CatalogEntry.all : List CatalogEntry := [
  ⟨.findOne, .query, .queryArgs, .model, "Get one", Template.findOneBody⟩,
  ⟨.findMany, .query, .queryManyArgs, .modelList, "Get list", Template.findManyBody⟩,
  ⟨.count, .query, .aggregateArgs, .number, "Count", Template.countBody⟩,
  ⟨.aggregate, .query, .aggregateArgs, .aggregate, "Aggregate query", Template.aggregateBody⟩,
  ⟨.create, .mutation, .createInput, .model, "Create", Template.createBody⟩,
  ⟨.update, .mutation, .updateInput, .model, "Update one", Template.updateBody⟩,
  ⟨.upsert, .mutation, .upsertInput, .model, "Update or create", Template.upsertBody⟩,
  ⟨.delete, .mutation, .deleteInput, .boolean, "Delete one", Template.deleteBody⟩]

namespace Operation

def index : Operation → Nat
  | findOne => 0
  | findMany => 1
  | count => 2
  | aggregate => 3
  | create => 4
  | update => 5
  | upsert => 6
  | delete => 7

theorem index_lt (o : Operation) : o.index < CatalogEntry.all.length := by
  cases o <;> decide

def entry (o : Operation) : CatalogEntry :=
  CatalogEntry.all.get ⟨o.index, o.index_lt⟩

def access (o : Operation) : Access :=
  o.entry.access

def param (o : Operation) : TypeRef :=
  o.entry.param

def result (o : Operation) : TypeRef :=
  o.entry.result

def description (o : Operation) : String :=
  o.entry.description

def body (o : Operation) : Template :=
  o.entry.body

/-- The row at an operation's place is the operation's own. -/
@[simp] theorem operation_entry (o : Operation) : o.entry.operation = o := by
  cases o <;> rfl

end Operation

namespace CatalogEntry

/-- Going through the table and looking the operations up one by one see the same rows. -/
theorem all_eq_map_entry : all = Operation.all.map Operation.entry :=
  rfl

theorem mem_all_iff {e : CatalogEntry} : e ∈ all ↔ ∃ o : Operation, o.entry = e := by
  simp [all_eq_map_entry, Operation.mem_all]

/-- No row hides another: each is what its operation finds. -/
theorem entry_operation {e : CatalogEntry} (h : e ∈ all) : e.operation.entry = e := by
  obtain ⟨o, rfl⟩ := mem_all_iff.mp h
  rw [Operation.operation_entry]

end CatalogEntry

namespace Template

def bodies : List (String × Template) :=
  CatalogEntry.all.map (fun e => (e.operation.bodyName, e.body)) ++ [(delegateName, delegate)]

def registered : List (String × Template) :=
  [("file", file), ("method", method)] ++ bodies

end Template

end CrudLayers
