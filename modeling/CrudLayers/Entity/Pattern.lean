import CrudLayers.Entity.Name

namespace CrudLayers

/-- The part of an entity's name that a derived name is built around. -/
inductive Stem where
  | object
  | model
deriving DecidableEq

def EntityName.stem (n : EntityName) : Stem → String
  | .object => n.text
  | .model => n.model

/-- A name with a hole for a stem. -/
structure NamePattern where
  stem : Stem
  before : String
  after : String
deriving DecidableEq

def NamePattern.fill (p : NamePattern) (n : EntityName) : String :=
  p.before ++ n.stem p.stem ++ p.after

theorem NamePattern.toList_fill (p : NamePattern) (n : EntityName) :
    (p.fill n).toList = p.before.toList ++ (n.stem p.stem).toList ++ p.after.toList := by
  simp [fill]

inductive DerivedName where
  | objectName
  | modelName
  | queryArgs
  | queryManyArgs
  | aggregateArgs
  | createInput
  | updateInput
  | updateManyInput
  | upsertInput
  | deleteInput
  | aggregate
  | repositoryClass
  | serviceClass
  | resolverClass
  | repositoryField
  | serviceField
deriving DecidableEq

namespace DerivedName

def pattern : DerivedName → NamePattern
  | objectName => ⟨.object, "", ""⟩
  | modelName => ⟨.model, "", ""⟩
  | queryArgs => ⟨.model, "Query", "Args"⟩
  | queryManyArgs => ⟨.model, "Query", "sArgs"⟩
  | aggregateArgs => ⟨.model, "", "AggregateArgs"⟩
  | createInput => ⟨.model, "Create", "Input"⟩
  | updateInput => ⟨.model, "Update", "Input"⟩
  | updateManyInput => ⟨.model, "UpdateMany", "Input"⟩
  | upsertInput => ⟨.model, "Upsert", "Input"⟩
  | deleteInput => ⟨.model, "Delete", "Input"⟩
  | aggregate => ⟨.model, "", "Aggregate"⟩
  | repositoryClass => ⟨.model, "", "Repository"⟩
  | serviceClass => ⟨.model, "", "Service"⟩
  | resolverClass => ⟨.model, "", "CrudResolver"⟩
  | repositoryField => ⟨.object, "", "Repository"⟩
  | serviceField => ⟨.object, "", "Service"⟩

def all : List DerivedName :=
  [objectName, modelName, queryArgs, queryManyArgs, aggregateArgs, createInput, updateInput,
    updateManyInput, upsertInput, deleteInput, aggregate, repositoryClass, serviceClass,
    resolverClass, repositoryField, serviceField]

end DerivedName

def EntityName.derived (n : EntityName) (d : DerivedName) : String :=
  d.pattern.fill n

end CrudLayers
