import CrudLayers.Text.Extending
import CrudLayers.Text.Unprintable

namespace CrudLayers.Visible

/-- A character by its number, in the least number of hexadecimal digits. -/
def numbered (c : Char) : List Char :=
  ['\\', 'u', '\x7b'] ++ Nat.toDigits 16 c.toNat ++ ['\x7d']

def escape (c : Char) : List Char :=
  if c = '\x00' then ['\\', '0']
  else if c = '\t' then ['\\', 't']
  else if c = '\r' then ['\\', 'r']
  else if c = '\n' then ['\\', 'n']
  else if c = '\"' ∨ c = '\\' then ['\\', c]
  else if isExtending c ∨ isUnprintable c then numbered c
  else [c]

def quote (s : String) : String :=
  String.ofList ('\"' :: s.toList.flatMap escape ++ ['\"'])

example : quote "a\u0301\x7f" = "\"a\\u\x7b301\x7d\\u\x7b7f\x7d\"" := by decide +kernel

end CrudLayers.Visible
