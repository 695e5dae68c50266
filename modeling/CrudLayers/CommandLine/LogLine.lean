import CrudLayers.CommandLine.Arguments
import CrudLayers.CommandLine.LogFilter
import CrudLayers.Text.Json

namespace CrudLayers

def EventValue.json : EventValue → Json
  | text s => .string s
  | number n => .number n
  | flag b => .flag b

namespace Event

def levelText (e : Event) : String :=
  String.ofList (e.level.name.toList.map Char.toUpper)

def json (e : Event) : Json :=
  .object [("level", .string e.levelText),
    ("fields", .object (("message", .string e.message) :: e.fields.map (fun f => (f.1, f.2.json)))),
    ("target", .string e.target)]

def prettyLine (e : Event) : String :=
  "  " ++ e.levelText ++ " " ++ e.target ++ ": " ++
    ", ".intercalate (e.message :: e.fields.map (fun f => f.1 ++ ": " ++ f.2.json.line))

def line (format : CommandLine.LogFormat) (e : Event) : String :=
  (match format with
    | .json => e.json.line
    | .pretty => e.prettyLine) ++ "\n"

end Event

end CrudLayers
