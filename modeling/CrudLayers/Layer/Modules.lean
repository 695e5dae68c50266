namespace CrudLayers

/-- Module specifiers, the exception class, and the directory of the entity models. -/
structure ModuleNames where
  injectable : String
  injectRepository : String
  exception : String
  exceptionClass : String
  orm : String
  graphql : String
  entityDir : String
deriving DecidableEq

namespace ModuleNames

def standard : ModuleNames where
  injectable := "@tiejs/common"
  injectRepository := "@tiejs/typeorm"
  exception := "@tiejs/exception"
  exceptionClass := "BadRequest"
  orm := "typeorm"
  graphql := "type-graphql"
  entityDir := "@entity"

end ModuleNames

end CrudLayers
