import CrudLayers.Catalog.Entry
import CrudLayers.Source.Basic
import CrudLayers.Text.Lines
import CrudLayers.Text.Literal

namespace CrudLayers

inductive PrintFault where
  | unknownTemplate (name : String)
  | missingValue (template : String) (slot : MissingSlot)
deriving DecidableEq

def PrintFault.message : PrintFault → String
  | unknownTemplate name => "Template not found " ++ name
  | missingValue template slot =>
    "Error rendering \"" ++ template ++ "\" line " ++ toString slot.position.line ++ ", col " ++
      toString slot.position.column ++ ": Failed to access variable in strict mode Some(\"" ++
      slot.name ++ "\")"

def fillRegistered (template : String) (values : List (String × String)) :
    Except PrintFault String :=
  match Template.registered.lookup template with
  | none => .error (.unknownTemplate template)
  | some t => (t.fill (fun slot => values.lookup slot)).mapError (.missingValue template)

namespace Decorator

def text (d : Decorator) : String :=
  "@" ++ d.name ++ "(" ++ ", ".intercalate d.arguments ++ ")"

end Decorator

def Import.text (i : Import) : String :=
  "import \x7b " ++ ", ".intercalate i.names ++ " \x7d from " ++ quoted i.source

def Collaborator.text (c : Collaborator) : String :=
  let decorator := match c.decorator with
    | some d => d.text ++ " "
    | none => ""
  "  constructor(" ++ decorator ++ "private " ++ c.field ++ ": " ++ c.typeName ++ ") \x7b\x7d"

namespace Directive

/-- The decorator that exposes the method, such as `@Query(() => Order, …)`. -/
def decorator (d : Directive) : Decorator :=
  ⟨d.access.decorator,
    ["() => " ++ d.graphqlType, "\x7b description: " ++ quoted d.description ++ " \x7d"]⟩

end Directive

def Intake.decorator : Intake → Decorator
  | bag => ⟨"Args", []⟩
  | named name => ⟨"Arg", [quoted name]⟩

namespace Method

def decoratorText (m : Method) : String :=
  match m.directive with
  | some d => "  " ++ d.decorator.text ++ "\n"
  | none => ""

def parameterText (m : Method) : String :=
  let plain := m.parameter.name ++ ": " ++ m.parameter.typeName
  match m.directive with
  | some d => d.intake.decorator.text ++ " " ++ plain
  | none => plain

def skeletonValues (m : Method) (body : String) : List (String × String) :=
  [("decorators", m.decoratorText), ("name", m.name), ("parameter", m.parameterText),
    ("return_type", m.returnType),
    ("body", String.ofList (indent [' ', ' ', ' ', ' '] body.toList))]

def print (m : Method) : Except PrintFault String := do
  let body ← fillRegistered m.body.template m.body.values
  fillRegistered "method" (m.skeletonValues body)

end Method

/-- The methods' texts, up to the first that has none. -/
def printMethods : List Method → Except PrintFault (List String)
  | [] => .ok []
  | m :: rest => do
    let text ← m.print
    let texts ← printMethods rest
    return text :: texts

def endLine (s : String) : String :=
  if s.toList.getLast? = some '\n' then s else s ++ "\n"

namespace SourceFile

def skeletonValues (f : SourceFile) (methods : List String) : List (String × String) :=
  [("header", Template.header),
    ("imports", "\n".intercalate (f.imports.map Import.text)),
    ("decorators", String.join (f.decl.decorators.map (fun d => d.text ++ "\n"))),
    ("class_name", f.decl.name),
    ("members", "\n\n".intercalate (f.decl.collaborator.text :: methods))]

def print (f : SourceFile) : Except PrintFault String := do
  let methods ← printMethods f.decl.methods
  let text ← fillRegistered "file" (f.skeletonValues methods)
  return endLine text

end SourceFile

end CrudLayers
