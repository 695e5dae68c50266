namespace CrudLayers.Literal

def escape (c : Char) : List Char :=
  if c = '\\' ∨ c = '\'' then ['\\', c] else [c]

def quote (s : List Char) : List Char :=
  '\'' :: s.flatMap escape ++ ['\'']

end CrudLayers.Literal

namespace CrudLayers

def quoted (s : String) : String :=
  String.ofList (Literal.quote s.toList)

end CrudLayers
