import CrudLayers.Catalog.Field

namespace CrudLayers

def Operation.fields (o : Operation) : List ResolverField :=
  ResolverField.all.filter (·.operation = o)

namespace CatalogTable

structure Row where
  operation : String
  kind : String
  param : String
  result : String
  fields : String
deriving DecidableEq

def Row.cells (r : Row) : List String :=
  [r.operation, r.kind, r.param, r.result, r.fields]

/-- Several names in one cell; a cell without names shows a dash. -/
def cell : List String → String
  | [] => "-"
  | names => ", ".intercalate names

def row (n : EntityName) (e : CatalogEntry) : Row where
  operation := e.operation.methodName
  kind := e.access.decorator
  param := e.param.text n
  result := e.result.text n
  fields := cell (e.operation.fields.map (·.exposedName n))

def rows (n : EntityName) : List Row :=
  CatalogEntry.all.map (row n)

def heading : Row :=
  ⟨"operation", "kind", "parameter", "result", "resolver fields"⟩

def pad (width : Nat) (s : String) : String :=
  s ++ String.ofList (List.replicate (width - s.length) ' ')

def widths (rows : List Row) : List Nat :=
  [fun r : Row => r.operation, Row.kind, Row.param, Row.result, Row.fields].map
    (fun column => (rows.map (fun r => (column r).length)).foldl max 0)

/-- A row of padded cells, two spaces apart, without blanks at its end. -/
def line (widths : List Nat) (r : Row) : String :=
  let text := "  ".intercalate (List.zipWith pad widths r.cells)
  String.ofList (text.toList.reverse.dropWhile (· == ' ')).reverse

def text (n : EntityName) : String :=
  let all := heading :: rows n
  String.join (all.map (fun r => line (widths all) r ++ "\n"))

end CatalogTable

end CrudLayers
