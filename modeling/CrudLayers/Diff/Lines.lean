import CrudLayers.Diff.Compact
import CrudLayers.Diff.Middle

namespace CrudLayers.Diff

def splitLines : List Char → List (List Char)
  | [] => []
  | '\n' :: rest => ['\n'] :: splitLines rest
  | '\r' :: '\n' :: rest => ['\r', '\n'] :: splitLines rest
  | '\r' :: rest => ['\r'] :: splitLines rest
  | c :: rest =>
    match splitLines rest with
    | [] => [[c]]
    | line :: lines => (c :: line) :: lines

section

variable {α : Type} [BEq α]

/-- Cuts the items off two lists that they have in common at both ends, looks for the middle of
what is left, and goes on with the halves on its two sides. -/
def divide : Nat → List α → List α → Script α
  | 0, old, new => Script.block .remove old ++ Script.block .add new
  | steps + 1, old, new =>
    let front := commonStart old new
    let oldRest := old.drop front
    let newRest := new.drop front
    let back := commonEnd oldRest newRest
    let oldInner := oldRest.take (oldRest.length - back)
    let newInner := newRest.take (newRest.length - back)
    let inner :=
      if oldInner.isEmpty || newInner.isEmpty then
        Script.block .remove oldInner ++ Script.block .add newInner
      else
        match middle? oldInner newInner with
        | some (x, y) =>
          divide steps (oldInner.take x) (newInner.take y) ++
            divide steps (oldInner.drop x) (newInner.drop y)
        | none => Script.block .remove oldInner ++ Script.block .add newInner
    Script.block .keep (old.take front) ++ inner ++
      Script.block .keep (oldRest.drop (oldRest.length - back))

structure Change (α : Type) where
  mark : Mark
  item : α
deriving DecidableEq

def marked (mark : Mark) (items : List α) : List (Change α) :=
  items.map (fun a => ⟨mark, a⟩)

/-- The changes of a script; between kept items all that is removed comes before all that is
added. -/
def changesAfter (removed added : List α) : Script α → List (Change α)
  | [] => marked .remove removed ++ marked .add added
  | e :: rest =>
    match e.mark with
    | .keep =>
      marked .remove removed ++ marked .add added ++ marked .keep e.block ++ changesAfter [] [] rest
    | .remove => changesAfter (removed ++ e.block) added rest
    | .add => changesAfter removed (added ++ e.block) rest

def changes (old new : List α) : List (Change α) :=
  changesAfter [] [] (compact (divide (old.length + new.length + 1) old new))

end

def lineChanges (old new : String) : List (Change (List Char)) :=
  changes (splitLines old.toList) (splitLines new.toList)

def Mark.sign : Mark → Char
  | .keep => ' '
  | .remove => '-'
  | .add => '+'

def isEnded (line : List Char) : Bool :=
  line.getLast? == some '\n' || line.getLast? == some '\r'

/-- A change as it is printed: its sign, its line, and a line feed if the line has no end. -/
def Change.text (c : Change (List Char)) : List Char :=
  c.mark.sign :: c.item ++ (if isEnded c.item then [] else ['\n'])

def text (old new : String) : String :=
  String.ofList ((lineChanges old new).flatMap Change.text)

end CrudLayers.Diff
