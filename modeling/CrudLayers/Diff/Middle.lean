namespace CrudLayers.Diff

/-- The farthest reach of a search on each diagonal, diagonal `k` at position `k + half`. -/
structure Frontier where
  half : Nat
  reach : Array Nat

namespace Frontier

def start (half : Nat) : Frontier :=
  ⟨half, Array.replicate (2 * half + 1) 0⟩

def get (f : Frontier) (k : Int) : Nat :=
  f.reach.getD (k + f.half).toNat 0

def set (f : Frontier) (k : Int) (x : Nat) : Frontier :=
  { f with reach := f.reach.setIfInBounds (k + f.half).toNat x }

/-- Where a path with `d` edits that ends on diagonal `k` starts its last run of equal items. -/
def entry (f : Frontier) (d : Nat) (k : Int) : Nat :=
  if k = -(d : Int) ∨ (k ≠ d ∧ f.get (k - 1) < f.get (k + 1)) then f.get (k + 1)
  else f.get (k - 1) + 1

end Frontier

variable {α : Type} [BEq α]

/-- The number of equal items in two lists, from the positions `x` and `y` on. -/
def runLength (old new : Array α) : Nat → Nat → Nat → Nat
  | 0, _, _ => 0
  | steps + 1, x, y =>
    match old[x]?, new[y]? with
    | some a, some b => if a == b then runLength old new steps (x + 1) (y + 1) + 1 else 0
    | _, _ => 0

/-- The diagonals that paths with `d` edits end on, from the highest to the lowest. -/
def diagonals (d : Nat) : List Int :=
  (List.range (d + 1)).map (fun (i : Nat) => (d : Int) - 2 * i)

/-- Extends a search to the paths with `d` edits. It meets the other one where their reaches
together span the old list, on a diagonal that the other one has got to. -/
def extend (old new : Array α) (other : Frontier) (meets : Int → Bool) (d : Nat) :
    List Int → Frontier → Except (Nat × Nat × Nat) Frontier
  | [], f => .ok f
  | k :: rest, f =>
    let entry := f.entry d k
    let y : Int := entry - k
    let run := if 0 ≤ y then runLength old new old.size entry y.toNat else 0
    let x := entry + run
    let f := f.set k x
    let delta : Int := old.size - new.size
    if meets k && old.size ≤ x + other.get (delta - k) then .error (entry, y.toNat, run)
    else extend old new other meets d rest f

/-- Looks for the middle with `d`, `d + 1`, … edits from either side. -/
def searchMiddle (old new oldBack newBack : Array α) :
    Nat → Nat → Frontier → Frontier → Option (Nat × Nat)
  | 0, _, _, _ => none
  | steps + 1, d, forward, backward =>
    let delta : Int := old.size - new.size
    let odd := delta % 2 != 0
    match extend old new backward (fun k => odd && (k - delta).natAbs < d) d (diagonals d)
        forward with
    | .error (x, y, _) => some (x, y)
    | .ok forward =>
      match extend oldBack newBack forward (fun k => !odd && (k - delta).natAbs ≤ d) d
          (diagonals d) backward with
      | .error (x, y, run) => some (old.size - (x + run), new.size - (y + run))
      | .ok backward => searchMiddle old new oldBack newBack steps (d + 1) forward backward

/-- A point on a shortest path from the start to the end of the grid. -/
def middle? (old new : List α) : Option (Nat × Nat) :=
  let most := (old.length + new.length + 1) / 2 + 1
  searchMiddle old.toArray new.toArray old.reverse.toArray new.reverse.toArray most 0
    (.start (most + 1)) (.start (most + 1))

end CrudLayers.Diff
