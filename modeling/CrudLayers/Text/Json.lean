namespace CrudLayers

/-- A JSON value; an object keeps the order of its members. -/
inductive Json where
  | string (s : String)
  | number (n : Nat)
  | flag (b : Bool)
  | array (items : List Json)
  | object (members : List (String × Json))

namespace Json

def hexDigit (n : Nat) : Char :=
  if n < 10 then Char.ofNat (48 + n) else Char.ofNat (87 + n)

def escape (c : Char) : List Char :=
  if c = '\"' then ['\\', '\"']
  else if c = '\\' then ['\\', '\\']
  else if c = '\n' then ['\\', 'n']
  else if c = '\r' then ['\\', 'r']
  else if c = '\t' then ['\\', 't']
  else if c = '\x08' then ['\\', 'b']
  else if c = '\x0c' then ['\\', 'f']
  else if c.toNat < 0x20 then
    ['\\', 'u', '0', '0', hexDigit (c.toNat / 16), hexDigit (c.toNat % 16)]
  else [c]

def quote (s : String) : String :=
  String.ofList ('\"' :: s.toList.flatMap escape ++ ['\"'])

def newLine (depth : Nat) : String :=
  String.ofList ('\n' :: List.replicate (2 * depth) ' ')

mutual

/-- The text of a value that stands at some depth. -/
def print (depth : Nat) : Json → String
  | string s => quote s
  | number n => toString n
  | flag b => if b then "true" else "false"
  | array [] => "[]"
  | array (item :: rest) =>
    "[" ++ newLine (depth + 1) ++ print (depth + 1) item ++ printItems (depth + 1) rest ++
      newLine depth ++ "]"
  | object [] => "\x7b\x7d"
  | object ((key, v) :: rest) =>
    "\x7b" ++ newLine (depth + 1) ++ quote key ++ ": " ++ print (depth + 1) v ++
      printMembers (depth + 1) rest ++ newLine depth ++ "\x7d"

def printItems (depth : Nat) : List Json → String
  | [] => ""
  | item :: rest => "," ++ newLine depth ++ print depth item ++ printItems depth rest

def printMembers (depth : Nat) : List (String × Json) → String
  | [] => ""
  | (key, v) :: rest =>
    "," ++ newLine depth ++ quote key ++ ": " ++ print depth v ++ printMembers depth rest

end

def text (v : Json) : String :=
  print 0 v

mutual

def line : Json → String
  | string s => quote s
  | number n => toString n
  | flag b => if b then "true" else "false"
  | array items => "[" ++ lineItems items ++ "]"
  | object members => "\x7b" ++ lineMembers members ++ "\x7d"

def lineItems : List Json → String
  | [] => ""
  | [item] => line item
  | item :: rest => line item ++ "," ++ lineItems rest

def lineMembers : List (String × Json) → String
  | [] => ""
  | [(key, v)] => quote key ++ ":" ++ line v
  | (key, v) :: rest => quote key ++ ":" ++ line v ++ "," ++ lineMembers rest

end

end Json

end CrudLayers
