import CrudLayers.Source.Basic
import CrudLayers.Text.Json

namespace CrudLayers

def Intake.json : Intake → Json
  | bag => .object [("style", .string "bag")]
  | named name => .object [("style", .string "named"), ("name", .string name)]

namespace Directive

def json (d : Directive) : Json :=
  .object [("kind", .string d.access.decorator), ("exposed_name", .string d.exposedName),
    ("graphql_type", .string d.graphqlType), ("description", .string d.description),
    ("argument", d.intake.json), ("delegates_to", .string d.delegatesTo)]

def listText (ds : List Directive) : String :=
  (Json.array (ds.map json)).text

end Directive

end CrudLayers
