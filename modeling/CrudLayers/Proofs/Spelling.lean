import CrudLayers.Disk.Path

namespace CrudLayers.Path

theorem split_eq_splitOn (s : List Char) : split s = s.splitOn '/' := by
  induction s with
  | nil => rfl
  | cons c rest ih =>
    rw [split, List.splitOn_cons_eq_if_modifyHead, ih]
    by_cases hc : c = '/'
    · simp [hc]
    · cases hs : rest.splitOn '/' with
      | nil => exact absurd hs (List.splitOn_ne_nil _ _)
      | cons piece pieces => simp [hc]

theorem split_ne_nil (s : List Char) : split s ≠ [] := by
  rw [split_eq_splitOn]
  exact List.splitOn_ne_nil _ _

theorem split_append_slash (s t : List Char) : split (s ++ '/' :: t) = split s ++ split t := by
  simp only [split_eq_splitOn]
  exact List.splitOn_append_cons_self _ _

theorem split_of_no_slash {s : List Char} (h : '/' ∉ s) : split s = [s] := by
  rw [split_eq_splitOn]
  exact List.splitOn_eq_singleton h

theorem intercalate_split (s : List Char) : ['/'].intercalate (split s) = s := by
  rw [split_eq_splitOn]
  exact List.intercalate_splitOn _

theorem split_intercalate {body : List (List Char)} (h : ∀ piece ∈ body, '/' ∉ piece)
    (hne : body ≠ []) : split (['/'].intercalate body) = body := by
  rw [split_eq_splitOn]
  exact List.splitOn_intercalate '/' h hne

theorem no_slash_of_mem_split {s : List Char} : ∀ piece ∈ split s, '/' ∉ piece := by
  induction s with
  | nil =>
    intro piece hp
    rw [split, List.mem_singleton] at hp
    rw [hp]
    exact List.not_mem_nil
  | cons c rest ih =>
    intro piece hp
    rw [split] at hp
    split at hp
    · rcases List.mem_cons.mp hp with rfl | hp
      · exact List.not_mem_nil
      · exact ih piece hp
    · rename_i hc
      cases hs : split rest with
      | nil => exact absurd hs (split_ne_nil rest)
      | cons first others =>
        simp only [hs] at hp ih
        rcases List.mem_cons.mp hp with rfl | hp
        · intro hm
          rcases List.mem_cons.mp hm with heq | hm
          · exact hc heq.symm
          · exact ih first List.mem_cons_self hm
        · exact ih piece (List.mem_cons_of_mem _ hp)

/-- Which parts a path has, read off its pieces. -/
inductive Spelled : List (List Char) → Parts → Prop where
  | rooted (second : List Char) (rest : List (List Char)) :
      Spelled ([] :: second :: rest) ⟨true, false, second :: rest⟩
  | dotted (rest : List (List Char)) : Spelled (['.'] :: rest) ⟨false, true, rest⟩
  | plain (first : List Char) (rest : List (List Char)) (he : first = [] → rest = [])
      (hd : first ≠ ['.']) : Spelled (first :: rest) ⟨false, false, first :: rest⟩

theorem spelled (s : List Char) : Spelled (split s) (parts s) := by
  unfold parts
  split
  · rename_i second rest heq
    rw [heq]
    exact .rooted second rest
  · rename_i rest heq
    rw [heq]
    exact .dotted rest
  · rename_i hr hd
    cases hs : split s with
    | nil => exact absurd hs (split_ne_nil s)
    | cons first rest =>
      refine .plain first rest ?_ ?_
      · rintro rfl
        cases rest with
        | nil => rfl
        | cons second rest => exact absurd hs (hr second rest)
      · rintro rfl
        exact hd rest hs

section Parts

variable {s : List Char} {body front : List (List Char)} {p q : Parts}

theorem Spelled.unique (h : Spelled body p) (h' : Spelled body q) : p = q := by
  cases h <;> cases h' <;> simp_all

theorem parts_of_spelled (h : Spelled (split s) p) : parts s = p :=
  (spelled s).unique h

theorem Spelled.not_both (h : Spelled body p) (hr : p.rooted = true) : p.dotted = false := by
  cases h with
  | rooted second rest => rfl
  | dotted rest => cases hr
  | plain first rest he hd => rfl

theorem Spelled.exists_append (h : Spelled body p) : ∃ start, body = start ++ p.body := by
  cases h with
  | rooted second rest => exact ⟨[[]], rfl⟩
  | dotted rest => exact ⟨[['.']], rfl⟩
  | plain first rest he hd => exact ⟨[], rfl⟩

/-- One more piece is one more piece of the body, unless there is nothing in front of it. -/
theorem Spelled.concat (h : Spelled body p) (hne : p.body ≠ [[]]) (piece : List Char) :
    Spelled (body ++ [piece]) { p with body := p.body ++ [piece] } := by
  cases h with
  | rooted second rest => exact .rooted second (rest ++ [piece])
  | dotted rest => exact .dotted (rest ++ [piece])
  | plain first rest he hd =>
    refine .plain first (rest ++ [piece]) ?_ hd
    rintro rfl
    rw [he rfl] at hne
    exact absurd rfl hne

/-- Fewer pieces are spelled with the same start. -/
theorem Spelled.shorten (h : Spelled body p) (hne : front ≠ []) (hfront : front <+: p.body) :
    ∃ shorter, shorter <+: body ∧ Spelled shorter { p with body := front } := by
  cases front with
  | nil => exact absurd rfl hne
  | cons head tail =>
    cases h with
    | rooted second rest => exact ⟨[] :: head :: tail, by simpa using hfront, .rooted head tail⟩
    | dotted rest => exact ⟨['.'] :: head :: tail, by simpa using hfront, .dotted (head :: tail)⟩
    | plain first rest he hd =>
      obtain ⟨rfl, htail⟩ := List.cons_prefix_cons.mp hfront
      refine ⟨head :: tail, hfront, .plain head tail ?_ hd⟩
      intro hhead
      rw [he hhead] at htail
      exact List.prefix_nil.mp htail

def Parts.text (p : Parts) : List Char :=
  (if p.rooted then ['/'] else if p.dotted then ['.', '/'] else []) ++ ['/'].intercalate p.body

theorem Spelled.intercalate_eq (h : Spelled body p) (hne : p.body ≠ []) :
    ['/'].intercalate body = p.text := by
  cases h with
  | rooted second rest => simp [Parts.text, List.intercalate_cons_cons]
  | dotted rest =>
    cases rest with
    | nil => exact absurd rfl hne
    | cons first rest => simp [Parts.text, List.intercalate_cons_cons]
  | plain first rest he hd => simp [Parts.text]

theorem text_parts (h : (parts s).body ≠ []) : (parts s).text = s := by
  rw [← (spelled s).intercalate_eq h, intercalate_split]

theorem parts_text (hne : front ≠ []) (hfront : front <+: (parts s).body) :
    parts (Parts.text { parts s with body := front }) = { parts s with body := front } := by
  obtain ⟨shorter, hstart, hspelled⟩ := (spelled s).shorten hne hfront
  have hslash : ∀ piece ∈ shorter, '/' ∉ piece :=
    fun piece hp => no_slash_of_mem_split piece (hstart.subset hp)
  have hshorter : shorter ≠ [] := by
    rintro rfl
    cases hspelled
  apply parts_of_spelled
  rwa [← hspelled.intercalate_eq hne, split_intercalate hslash hshorter]

end Parts

section Filler

theorem isFiller_iff (piece : String) :
    isFiller piece.toList = true ↔ piece = "" ∨ piece = "." := by
  rw [isFiller, Bool.or_eq_true, beq_iff_eq, beq_iff_eq]
  constructor
  · rintro (h | h)
    · exact Or.inl (String.toList_injective h)
    · exact Or.inr (String.toList_injective h)
  · rintro (rfl | rfl)
    · exact Or.inl rfl
    · exact Or.inr rfl

theorem Spelled.filter_eq {body : List (List Char)} {p : Parts} (h : Spelled body p) :
    body.filter (fun piece => !isFiller piece) = p.body.filter (fun piece => !isFiller piece) := by
  cases h with
  | rooted second rest => rw [List.filter_cons_of_neg (by decide)]
  | dotted rest => rw [List.filter_cons_of_neg (by decide)]
  | plain first rest he hd => rfl

def bare (pieces : List String) : List String :=
  pieces.filter (fun piece => !isFiller piece.toList)

theorem bare_filler {piece : String} (h : piece = "" ∨ piece = ".") (rest : List String) :
    bare (piece :: rest) = bare rest := by
  apply List.filter_cons_of_neg
  simp [(isFiller_iff piece).mpr h]

theorem bare_name {piece : String} (h : ¬(piece = "" ∨ piece = ".")) (rest : List String) :
    bare (piece :: rest) = piece :: bare rest := by
  apply List.filter_cons_of_pos
  simpa using fun hf => h ((isFiller_iff piece).mp hf)

theorem bare_append (ps qs : List String) : bare (ps ++ qs) = bare ps ++ bare qs :=
  List.filter_append ..

theorem bare_bare (ps : List String) : bare (bare ps) = bare ps := by
  rw [bare, bare, List.filter_filter]
  simp only [Bool.and_self]

/-- The components of a path are the pieces that are no filler. -/
theorem components_eq (path : String) : components path = bare (pieces path) := by
  rw [components, bare, pieces, List.filter_map, ← (spelled path.toList).filter_eq]
  congr 2
  funext piece
  simp

end Filler

theorem isAbsolute_eq (path : String) : isAbsolute path = (parts path.toList).rooted := by
  have hs := spelled path.toList
  have hslash := no_slash_of_mem_split (s := path.toList)
  have hjoin := intercalate_split path.toList
  rw [isAbsolute]
  generalize split path.toList = body at hs hslash hjoin
  generalize path.toList = s at hjoin hs ⊢
  subst hjoin
  generalize parts (['/'].intercalate body) = p at hs
  cases hs with
  | rooted second rest => rfl
  | dotted rest => cases rest <;> rfl
  | plain first rest he hd =>
    cases first with
    | nil =>
      rw [he rfl]
      rfl
    | cons c cs =>
      have hc : c ≠ '/' := by
        rintro rfl
        exact hslash _ List.mem_cons_self List.mem_cons_self
      cases rest <;> simp [hc]

/-- The path does not end in filler. -/
def Ends (path : String) : Prop :=
  ∃ front last, split path.toList = front ++ [last] ∧ isFiller last = false

instance (path : String) : Decidable (Ends path) :=
  decidable_of_iff ((split path.toList).getLast?.any (fun last => !isFiller last) = true) (by
    rw [Option.any_eq_true]
    constructor
    · rintro ⟨last, hs, hl⟩
      obtain ⟨front, hfront⟩ := List.getLast?_eq_some_iff.mp hs
      exact ⟨front, last, hfront, by simpa using hl⟩
    · rintro ⟨front, last, hs, hl⟩
      exact ⟨last, by simp [hs], by simp [hl]⟩)

section Ends

variable {path : String}

theorem Ends.not_filler (h : Ends path) {front : List (List Char)} {piece : List Char}
    (hf : isFiller piece = true) : split path.toList ≠ front ++ [piece] := by
  obtain ⟨front, last, hs, hl⟩ := h
  intro he
  have hlast := congrArg List.getLast? (he.symm.trans hs)
  simp only [List.getLast?_append, List.getLast?_singleton, Option.some_or,
    Option.some.injEq] at hlast
  rw [hlast, hl] at hf
  cases hf

theorem Ends.ne_empty (h : Ends path) : path ≠ "" := by
  rintro rfl
  exact @Ends.not_filler _ h [] [] rfl rfl

/-- A path that does not end in filler has a body that does not. -/
theorem Ends.body_eq (h : Ends path) :
    ∃ front last, (parts path.toList).body = front ++ [last] ∧ isFiller last = false := by
  obtain ⟨front, last, hsplit, hl⟩ := id h
  have hs := spelled path.toList
  rw [hsplit] at hs
  generalize parts path.toList = p at hs
  generalize hbody : front ++ [last] = body at hs
  cases hs with
  | rooted second rest =>
    cases front with
    | nil => cases hbody
    | cons head tail => exact ⟨tail, last, (List.cons.inj hbody).2.symm, hl⟩
  | dotted rest =>
    cases front with
    | nil =>
      cases hbody
      cases hl
    | cons head tail => exact ⟨tail, last, (List.cons.inj hbody).2.symm, hl⟩
  | plain first rest he hd => exact ⟨front, last, hbody.symm, hl⟩

end Ends

end CrudLayers.Path
