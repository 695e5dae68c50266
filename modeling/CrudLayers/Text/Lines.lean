import CrudLayers.Text.Blank

namespace CrudLayers

/-- A line without the carriage return that belongs to its end; the line is given backwards. -/
def dropReturn : List Char → List Char
  | '\r' :: rest => rest
  | line => line

/-- The lines of a text of which the characters `seen`, backwards, have been read already. -/
def linesAfter (seen : List Char) : List Char → List (List Char)
  | [] => if seen = [] then [] else [seen.reverse]
  | c :: rest =>
    if c = '\n' then (dropReturn seen).reverse :: linesAfter [] rest
    else linesAfter (c :: seen) rest

def lines (s : List Char) : List (List Char) :=
  linesAfter [] s

/-- A line moved to the right; one that holds nothing but blanks becomes empty. -/
def indentLine (margin line : List Char) : List Char :=
  if line.all isBlank then [] else margin ++ line

/-- A block of text moved to the right, line by line. -/
def indent (margin s : List Char) : List Char :=
  List.intercalate ['\n'] ((lines s).map (indentLine margin))

end CrudLayers
