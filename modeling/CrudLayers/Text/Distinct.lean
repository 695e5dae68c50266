namespace CrudLayers

/-- Adds each text that is not there yet, in order. -/
def addNew (known : List String) : List String → List String
  | [] => known
  | s :: rest => addNew (if s ∈ known then known else known ++ [s]) rest

/-- Puts a text into a strictly ascending list. -/
def insertAscending (s : String) : List String → List String
  | [] => [s]
  | t :: rest =>
    if s < t then s :: t :: rest
    else if s = t then t :: rest
    else t :: insertAscending s rest

def ascending (l : List String) : List String :=
  l.foldr insertAscending []

theorem mem_addNew {s : String} {known l : List String} :
    s ∈ addNew known l ↔ s ∈ known ∨ s ∈ l := by
  induction l generalizing known with
  | nil => simp [addNew]
  | cons t rest ih =>
    rw [addNew, ih]
    split <;> grind

theorem mem_insertAscending {s t : String} {l : List String} :
    s ∈ insertAscending t l ↔ s = t ∨ s ∈ l := by
  induction l with
  | nil => simp [insertAscending]
  | cons u rest ih =>
    rw [insertAscending]
    split
    · simp
    · split <;> grind

theorem mem_ascending {s : String} {l : List String} : s ∈ ascending l ↔ s ∈ l := by
  induction l with
  | nil => simp [ascending]
  | cons t rest ih =>
    rw [List.mem_cons, ← ih]
    exact mem_insertAscending

end CrudLayers
