import CrudLayers.Layer.Types

namespace CrudLayers.Blueprint

def repositoryCollaborator (b : Blueprint) : Collaborator where
  field := b.name.derived .repositoryField
  typeName := "Repository<" ++ b.name.model ++ ">"
  decorator := some ⟨"InjectRepository", [b.name.model]⟩

def repositoryValues (b : Blueprint) (names : ModuleNames) (o : Operation) :
    List (String × String) :=
  callValues (b.name.derived .repositoryField) o.methodName paramsName ++
    [("relations", b.relations), ("exception", names.exceptionClass), ("model", b.name.model)]

def repositoryMethod (b : Blueprint) (names : ModuleNames) (e : CatalogEntry) : Method where
  name := e.operation.methodName
  parameter := ⟨paramsName, e.param.text b.name⟩
  returnType := e.result.text b.name
  body := ⟨e.operation.bodyName, b.repositoryValues names e.operation⟩
  directive := none

/-- The handle's type names the model, so the model is used whatever the signatures say. -/
def repositoryFile (b : Blueprint) (names : ModuleNames) : SourceFile :=
  let start := Assembly.start .repository (b.filePath .repository)
    (b.name.derived .repositoryClass) b.repositoryCollaborator
  let assembly := ((((start.decorate ⟨"Injectable", []⟩).require
    .runtime names.injectable ["Injectable"]).require
    .runtime names.injectRepository ["InjectRepository"]).require
    .runtime names.exception [names.exceptionClass]).require
    .runtime names.orm ["Repository"]
  ((assembly.methods (CatalogEntry.all.map (b.repositoryMethod names))).requireTypes b names
    (.model :: signatureTypes CatalogEntry.all)).finish

end CrudLayers.Blueprint
