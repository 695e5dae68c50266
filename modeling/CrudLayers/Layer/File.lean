import CrudLayers.Layer.Repository
import CrudLayers.Layer.Resolver
import CrudLayers.Layer.Service
import CrudLayers.Source.Print

namespace CrudLayers.Blueprint

def sourceFile (b : Blueprint) (names : ModuleNames) : Layer → SourceFile
  | .repository => b.repositoryFile names
  | .service => b.serviceFile names
  | .resolver => b.resolverFile names

def text (b : Blueprint) (names : ModuleNames) (l : Layer) : Except PrintFault String :=
  (b.sourceFile names l).print

end CrudLayers.Blueprint
