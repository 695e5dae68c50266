import CrudLayers.Layer.Kind

namespace CrudLayers

/-- What a write did to its file. An unchanged file is written all the same. -/
inductive WriteStatus where
  | created
  | updated
  | unchanged
deriving DecidableEq

def WriteStatus.name : WriteStatus → String
  | created => "created"
  | updated => "updated"
  | unchanged => "unchanged"

inductive Event where
  | loadingConfig (path : String) (found : Bool)
  | wroteFile (path : String) (status : WriteStatus) (bytes : Nat)
  | generatedFile (entity : String) (layer : Layer) (status : WriteStatus) (path : String)
  | staleFile (entity : String) (layer : Layer) (path : String)
  | unmatchedExclude (entity exclude : String)
  | excludedField (entity field : String)
deriving DecidableEq

end CrudLayers
