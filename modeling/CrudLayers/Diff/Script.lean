namespace CrudLayers.Diff

inductive Mark where
  | keep
  | remove
  | add
deriving DecidableEq

/-- A block of items that share a mark. -/
structure Edit (α : Type) where
  mark : Mark
  block : List α
deriving DecidableEq

abbrev Script (α : Type) := List (Edit α)

namespace Script

variable {α : Type}

def side (mark : Mark) : Script α → List α
  | [] => []
  | e :: rest =>
    if e.mark = .keep ∨ e.mark = mark then e.block ++ side mark rest else side mark rest

def source (s : Script α) : List α :=
  side .remove s

def target (s : Script α) : List α :=
  side .add s

/-- A block with its mark, unless it is empty. -/
def block (mark : Mark) (items : List α) : Script α :=
  if items.isEmpty then [] else [⟨mark, items⟩]

theorem side_append (mark : Mark) (s t : Script α) :
    side mark (s ++ t) = side mark s ++ side mark t := by
  induction s with
  | nil => rfl
  | cons e rest ih =>
    rw [List.cons_append, side, side, ih]
    split <;> simp

theorem side_block (mark m : Mark) (items : List α) :
    side mark (block m items) = if m = .keep ∨ m = mark then items else [] := by
  unfold block
  cases items <;> simp [side]

end Script

end CrudLayers.Diff
