import CrudLayers.Catalog.Entry
import CrudLayers.Proofs.Runs

namespace CrudLayers

def Piece.filled (value : String → String) : Piece → String
  | .text s => s
  | .slot name => value name

namespace Template

/-- Replaces the placeholders of a text, each by its value. While the name of a placeholder is
read, its beginning is kept backwards. -/
def replace (value : String → String) : Option (List Char) → List Char → List Char
  | none, '\x7b' :: '\x7b' :: rest => replace value (some []) rest
  | none, c :: rest => c :: replace value none rest
  | none, [] => []
  | some seen, '\x7d' :: '\x7d' :: rest =>
    (value (String.ofList seen.reverse)).toList ++ replace value none rest
  | some seen, c :: rest => replace value (some (c :: seen)) rest
  | some seen, [] => '\x7b' :: '\x7b' :: seen.reverse

/-- Whether no two braces open a placeholder in a text that is followed by another one. -/
def apart : List Char → List Char → Bool
  | [], _ => true
  | c :: rest, next => !(c == '\x7b' && (rest ++ next).head? == some '\x7b') && apart rest next

def characters : Template → List Char
  | [] => []
  | .text s :: rest => s.toList ++ characters rest
  | .slot name :: rest => '\x7b' :: '\x7b' :: (name.toList ++ '\x7d' :: '\x7d' :: characters rest)

/-- Whether the placeholders that stand in the template's text are its slots. -/
def readable : Template → Bool
  | [] => true
  | .text s :: rest => apart s.toList (characters rest) && readable rest
  | .slot name :: rest => !name.toList.contains '\x7d' && readable rest

section Replace

variable {value : String → String}

theorem replace_cons {c : Char} {rest : List Char}
    (h : c = '\x7b' → rest.head? ≠ some '\x7b') :
    replace value none (c :: rest) = c :: replace value none rest := by
  rw [replace]
  rintro rest' rfl rfl
  exact h rfl rfl

theorem replace_text {s next : List Char} (h : apart s next = true) :
    replace value none (s ++ next) = s ++ replace value none next := by
  induction s with
  | nil => rfl
  | cons c rest ih =>
    simp only [apart, Bool.and_eq_true, Bool.not_eq_true', Bool.and_eq_false_iff] at h
    obtain ⟨hhead, hrest⟩ := h
    rw [List.cons_append, replace_cons, ih hrest, List.cons_append]
    intro hc
    rcases hhead with hne | hne
    · simp [hc] at hne
    · simpa using hne

theorem replace_name {seen name rest : List Char} (h : '\x7d' ∉ name) :
    replace value (some seen) (name ++ '\x7d' :: '\x7d' :: rest) =
      (value (String.ofList (seen.reverse ++ name))).toList ++ replace value none rest := by
  induction name generalizing seen with
  | nil => simp [replace]
  | cons c name ih =>
    rw [List.mem_cons, not_or] at h
    rw [List.cons_append, replace, ih h.2, List.reverse_cons, List.append_assoc]
    · rfl
    · rintro rest' rfl
      exact absurd rfl h.1

theorem source_cons (p : Piece) (t : Template) : source (p :: t) = p.source ++ source t := by
  simp [source, String.join_cons]

theorem toList_source (t : Template) : (source t).toList = t.characters := by
  induction t with
  | nil => simp [source, characters]
  | cons p rest ih =>
    rw [source_cons, String.toList_append, ih]
    cases p <;> simp [characters, Piece.source]

/-- In the text of a template, every slot is replaced by its value and nothing else is changed. -/
theorem replace_source {t : Template} (h : t.readable = true) :
    replace value none (source t).toList = (String.join (t.map (Piece.filled value))).toList := by
  rw [toList_source]
  induction t with
  | nil => simp [characters, replace]
  | cons p rest ih =>
    rw [List.map_cons, String.join_cons, String.toList_append]
    cases p with
    | text s =>
      simp only [readable, Bool.and_eq_true] at h
      rw [characters, replace_text h.1, ih h.2]
      rfl
    | slot name =>
      simp only [readable, Bool.and_eq_true, Bool.not_eq_true', List.contains_eq_mem,
        decide_eq_false_iff_not] at h
      rw [characters, replace, replace_name h.1, ih h.2]
      simp [Piece.filled]

/-- Every template that a body may name can be filled in its text. -/
theorem readable_of_registered : ∀ e ∈ registered, e.2.readable = true := by
  decide +kernel

end Replace

section Fill

variable {value : String → Option String} {t before after : Template} {name : String}

theorem fillFrom_ok (h : ∀ slot ∈ t.slots, (value slot).isSome) (here : Position) :
    fillFrom value here t =
      .ok (String.join (t.map (Piece.filled (fun slot => (value slot).getD "")))) := by
  induction t generalizing here with
  | nil => rfl
  | cons p rest ih =>
    cases p with
    | text s =>
      rw [fillFrom, ih h, List.map_cons, String.join_cons]
      rfl
    | slot name =>
      obtain ⟨hname, hrest⟩ := List.forall_mem_cons.mp h
      obtain ⟨v, hv⟩ := Option.isSome_iff_exists.mp hname
      rw [fillFrom, hv, List.map_cons, String.join_cons, Piece.filled, hv]
      simp only [ih hrest]
      rfl

theorem advance_append (p : Position) (s t : String) :
    p.advance (s ++ t) = (p.advance s).advance t := by
  simp [Position.advance]

/-- The first slot without a value is the fault, at the place where it stands in the text. -/
theorem fillFrom_error (hbefore : ∀ slot ∈ slots before, (value slot).isSome)
    (hname : value name = none) (here : Position) :
    fillFrom value here (before ++ .slot name :: after) =
      .error ⟨name, here.advance (source before)⟩ := by
  induction before generalizing here with
  | nil => simp [fillFrom, hname, source, Position.advance]
  | cons p rest ih =>
    rw [source_cons, advance_append]
    cases p with
    | text s =>
      rw [List.cons_append, fillFrom, ih hbefore]
      rfl
    | slot other =>
      obtain ⟨hother, hrest⟩ := List.forall_mem_cons.mp hbefore
      obtain ⟨v, hv⟩ := Option.isSome_iff_exists.mp hother
      rw [List.cons_append, fillFrom, hv]
      simp only [ih hrest]
      rfl

end Fill

end Template

end CrudLayers
