import CrudLayers.Diff.Script

namespace CrudLayers.Diff

variable {α : Type} [BEq α]

def commonStart : List α → List α → Nat
  | a :: l, b :: m => if a == b then commonStart l m + 1 else 0
  | _, _ => 0

def commonEnd (l m : List α) : Nat :=
  commonStart l.reverse m.reverse

/-- A block that is being moved, with the edits above it, the nearest first, and below it. -/
structure Focus (α : Type) where
  above : List (Edit α)
  edit : Edit α
  below : List (Edit α)

namespace Focus

def script (f : Focus α) : Script α :=
  f.above.reverse ++ f.edit :: f.below

def keepBefore (items : List α) : List (Edit α) → List (Edit α)
  | ⟨.keep, b⟩ :: rest => ⟨.keep, items ++ b⟩ :: rest
  | edits => ⟨.keep, items⟩ :: edits

/-- Puts kept items behind some edits, which are given backwards. -/
def keepAfter (items : List α) : List (Edit α) → List (Edit α)
  | ⟨.keep, b⟩ :: rest => ⟨.keep, b ++ items⟩ :: rest
  | edits => ⟨.keep, items⟩ :: edits

/-- The number of kept items above that the block may change places with. -/
def roomAbove (kept : List α) (e : Edit α) : Nat :=
  if e.mark = .add then commonEnd kept e.block else 0

def roomBelow (kept : List α) (e : Edit α) : Nat :=
  if e.mark = .add then commonStart kept e.block else 0

/-- Moves a block up; `steps` is at least the number of edits and items above it. -/
def up : Nat → Focus α → Focus α
  | 0, f => f
  | steps + 1, f =>
    match f.above with
    | [] => f
    | ⟨.keep, kept⟩ :: above =>
      let room := roomAbove kept f.edit
      if kept.isEmpty then up steps { f with above := above }
      else if room = 0 then f
      else
        let left := kept.take (kept.length - room)
        let moved := kept.drop (kept.length - room)
        let block := moved ++ f.edit.block.take (f.edit.block.length - room)
        up steps ⟨if left.isEmpty then above else ⟨.keep, left⟩ :: above, ⟨f.edit.mark, block⟩,
          keepBefore moved f.below⟩
    | e :: above =>
      if e.mark = f.edit.mark then up steps ⟨above, ⟨e.mark, e.block ++ f.edit.block⟩, f.below⟩
      else up steps ⟨above, f.edit, e :: f.below⟩

def down : Nat → Focus α → Focus α
  | 0, f => f
  | steps + 1, f =>
    match f.below with
    | [] => f
    | ⟨.keep, kept⟩ :: below =>
      let room := roomBelow kept f.edit
      if kept.isEmpty then down steps { f with below := below }
      else if room = 0 then f
      else
        let left := kept.drop room
        let moved := kept.take room
        let block := f.edit.block.drop room ++ moved
        down steps ⟨keepAfter moved f.above, ⟨f.edit.mark, block⟩,
          if left.isEmpty then below else ⟨.keep, left⟩ :: below⟩
    | e :: below =>
      if e.mark = f.edit.mark then down steps ⟨f.above, ⟨e.mark, f.edit.block ++ e.block⟩, below⟩
      else down steps ⟨e :: f.above, f.edit, below⟩

end Focus

/-- The number of edits in a script and items in its blocks. -/
def weight (s : Script α) : Nat :=
  s.foldr (fun e n => e.block.length + 1 + n) 0

/-- Moves every block with a mark in the edits `below`, from the first on. -/
def settle (mark : Mark) : Nat → List (Edit α) → List (Edit α) → Script α
  | 0, above, below => above.reverse ++ below
  | _, above, [] => above.reverse
  | steps + 1, above, e :: below =>
    if e.mark = mark then
      let size := weight above + weight (e :: below)
      let f := (Focus.mk above e below |>.up size).down size
      settle mark steps (f.edit :: f.above) f.below
    else settle mark steps (e :: above) below

/-- Moves the removed blocks, and then the added ones. -/
def compact (s : Script α) : Script α :=
  let size := weight s
  settle .add size [] (settle .remove size [] s)

end CrudLayers.Diff
