namespace CrudLayers

inductive Piece where
  | text (s : String)
  | slot (name : String)
deriving DecidableEq

abbrev Template := List Piece

/-- A place in the source text of a template; lines and columns count from one. -/
structure Position where
  line : Nat
  column : Nat
deriving DecidableEq

def Position.start : Position :=
  ⟨1, 1⟩

def Position.pass (p : Position) (c : Char) : Position :=
  if c = '\n' then ⟨p.line + 1, 1⟩ else ⟨p.line, p.column + 1⟩

def Position.advance (p : Position) (s : String) : Position :=
  s.toList.foldl Position.pass p

/-- A piece as it is written: a slot's name stands between double braces. -/
def Piece.source : Piece → String
  | .text s => s
  | .slot name => "\x7b\x7b" ++ name ++ "\x7d\x7d"

def Template.source (t : Template) : String :=
  String.join (t.map Piece.source)

structure MissingSlot where
  name : String
  position : Position
deriving DecidableEq

namespace Template

def fillFrom (value : String → Option String) (here : Position) :
    Template → Except MissingSlot String
  | [] => .ok ""
  | .text s :: rest => do
    let tail ← fillFrom value (here.advance s) rest
    return s ++ tail
  | .slot name :: rest =>
    match value name with
    | none => .error ⟨name, here⟩
    | some v => do
      let tail ← fillFrom value (here.advance (Piece.slot name).source) rest
      return v ++ tail

def fill (t : Template) (value : String → Option String) : Except MissingSlot String :=
  fillFrom value .start t

def slots : Template → List String
  | [] => []
  | .text _ :: rest => slots rest
  | .slot name :: rest => name :: slots rest

end Template

end CrudLayers
