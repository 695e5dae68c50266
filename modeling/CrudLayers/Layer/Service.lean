import CrudLayers.Layer.Types

namespace CrudLayers.Blueprint

def serviceCollaborator (b : Blueprint) : Collaborator where
  field := b.name.derived .repositoryField
  typeName := b.name.derived .repositoryClass
  decorator := none

def serviceMethod (b : Blueprint) (e : CatalogEntry) : Method where
  name := e.operation.methodName
  parameter := ⟨paramsName, e.param.text b.name⟩
  returnType := e.result.text b.name
  body := forward (b.name.derived .repositoryField) e.operation.methodName paramsName
  directive := none

def serviceFile (b : Blueprint) (names : ModuleNames) : SourceFile :=
  let start := Assembly.start .service (b.filePath .service)
    (b.name.derived .serviceClass) b.serviceCollaborator
  let assembly := ((start.decorate ⟨"Injectable", []⟩).require
    .runtime names.injectable ["Injectable"]).require
    .sibling ("./" ++ b.name.text ++ ".repository") [b.name.derived .repositoryClass]
  ((assembly.methods (CatalogEntry.all.map b.serviceMethod)).requireTypes b names
    (signatureTypes CatalogEntry.all)).finish

end CrudLayers.Blueprint
