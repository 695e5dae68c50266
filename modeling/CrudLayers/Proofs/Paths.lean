import CrudLayers.Entity.Blueprint
import CrudLayers.Proofs.Names
import CrudLayers.Proofs.Spelling

namespace CrudLayers.Path

/-- A text that stands for one component and names it. -/
structure IsName (name : String) : Prop where
  no_slash : '/' ∉ name.toList
  no_filler : isFiller name.toList = false
  no_parent : name ≠ ".."

section Names

variable {name : String}

theorem IsName.not_filler (h : IsName name) : ¬(name = "" ∨ name = ".") := by
  intro he
  have hf := h.no_filler
  rw [(isFiller_iff name).mpr he] at hf
  cases hf

theorem IsName.ne_empty (h : IsName name) : name ≠ "" :=
  fun he => h.not_filler (Or.inl he)

theorem IsName.not_dots (h : IsName name) : ¬(name = "." ∨ name = "..") := by
  rintro (hd | hp)
  · exact h.not_filler (Or.inr hd)
  · exact h.no_parent hp

theorem IsName.split_append (h : IsName name) (s : List Char) :
    split (s ++ '/' :: name.toList) = split s ++ [name.toList] := by
  rw [split_append_slash, split_of_no_slash h.no_slash]

/-- Joining a name makes it the last piece, whatever the path is, and only filler may be lost. -/
theorem IsName.split_join (h : IsName name) (base : String) :
    ∃ front, split (Path.join base name).toList = front ++ [name.toList] ∧
      front.filter (fun piece => !isFiller piece) =
        (split base.toList).filter (fun piece => !isFiller piece) := by
  unfold Path.join
  split
  · rename_i hb
    rcases hb with rfl | hb
    · exact ⟨[], by simpa using split_of_no_slash h.no_slash, rfl⟩
    · obtain ⟨s, hs⟩ := List.getLast?_eq_some_iff.mp hb
      refine ⟨split s, ?_, ?_⟩
      · rw [← h.split_append]
        simp [hs]
      · rw [hs, split_append_slash, List.filter_append]
        simp [split, isFiller]
  · refine ⟨split base.toList, ?_, rfl⟩
    rw [← h.split_append]
    simp

theorem components_join (h : IsName name) (base : String) :
    components (Path.join base name) = components base ++ [name] := by
  obtain ⟨front, hsplit, hfront⟩ := h.split_join base
  rw [components, components, ← (spelled _).filter_eq, ← (spelled base.toList).filter_eq, hsplit,
    List.filter_append, hfront]
  simp [h.no_filler]

theorem isAbsolute_join (h : IsName name) (base : String) :
    isAbsolute (Path.join base name) = isAbsolute base := by
  unfold Path.join
  cases hb : base.toList with
  | nil =>
    have he : base = "" := String.toList_injective hb
    subst he
    cases hl : name.toList with
    | nil => exact absurd (String.toList_injective hl) h.ne_empty
    | cons c rest =>
      have hc : c ≠ '/' := by
        rintro rfl
        exact h.no_slash (hl ▸ List.mem_cons_self)
      simp [isAbsolute, hl, hc]
  | cons c rest =>
    split
    · simp [isAbsolute, hb]
    · simp [isAbsolute, hb]

/-- The last component of a path, if it is a name. -/
def fileName? (path : String) : Option String :=
  (components path).getLast?.filter (· ≠ "..")

theorem fileName?_join (h : IsName name) (base : String) :
    fileName? (Path.join base name) = some name := by
  rw [fileName?, components_join h]
  simp [h.no_parent]

end Names

/-- A path that ends in a name, so that nothing has to be cut off behind it. -/
def EndsInName (path : String) : Prop :=
  ∃ front name, IsName name ∧ split path.toList = front ++ [name.toList]

theorem endsInName_of_pieces {path name : String} {front : List String}
    (hp : pieces path = front ++ [name]) (hfiller : ¬(name = "" ∨ name = "."))
    (hup : name ≠ "..") : EndsInName path := by
  obtain ⟨before, last, hsplit, _, hlast⟩ := List.map_eq_append_iff.mp hp
  obtain ⟨piece, rfl, rfl⟩ := List.map_eq_singleton_iff.mp hlast
  refine ⟨before, String.ofList piece, ⟨?_, ?_, hup⟩, by rw [hsplit, String.toList_ofList]⟩
  · rw [String.toList_ofList]
    exact no_slash_of_mem_split piece (by rw [hsplit]; exact List.mem_append_right _ (by simp))
  · exact eq_false_of_ne_true (fun hf => hfiller ((isFiller_iff _).mp hf))

theorem EndsInName.ends {path : String} (h : EndsInName path) : Ends path := by
  obtain ⟨front, name, hn, hs⟩ := h
  exact ⟨front, name.toList, hs, hn.no_filler⟩

theorem EndsInName.pieces_eq {path : String} (h : EndsInName path) :
    ∃ front name, IsName name ∧ pieces path = front ++ [name] := by
  obtain ⟨front, name, hn, hs⟩ := h
  exact ⟨front.map String.ofList, name, hn, by simp [pieces, hs]⟩

theorem IsName.endsInName_join {name : String} (h : IsName name) (base : String) :
    EndsInName (Path.join base name) := by
  obtain ⟨front, hsplit, _⟩ := h.split_join base
  exact ⟨front, name, h, hsplit⟩

/-- A path that does not end in filler is not empty and does not end in a slash. -/
theorem Ends.join {path : String} (h : Ends path) (name : String) :
    Path.join path name = path ++ "/" ++ name := by
  have hslash : path.toList.getLast? ≠ some '/' := by
    intro he
    obtain ⟨s, hs⟩ := List.getLast?_eq_some_iff.mp he
    have hsplit : split path.toList = split s ++ [[]] := by
      rw [hs, split_append_slash]
      rfl
    exact h.not_filler rfl hsplit
  rw [Path.join, if_neg (by simp [h.ne_empty, hslash])]

theorem Ends.split_join {path name : String} (h : Ends path) (hn : IsName name) :
    split (Path.join path name).toList = split path.toList ++ [name.toList] := by
  rw [h.join, ← hn.split_append]
  simp

theorem Ends.pieces_join {path name : String} (h : Ends path) (hn : IsName name) :
    pieces (Path.join path name) = pieces path ++ [name] := by
  rw [pieces, pieces, h.split_join hn]
  simp

end CrudLayers.Path

namespace CrudLayers

theorem Path.isName_of_first {s : String} {first : Char} {rest : List Char}
    (hs : s.toList = first :: rest) (hf : first ≠ '.') (hn : '/' ∉ s.toList) : Path.IsName s := by
  refine ⟨hn, ?_, ?_⟩
  · simp [hs, Path.isFiller, hf]
  · intro he
    rw [he] at hs
    cases hs
    contradiction

theorem not_slash_of_isNameChar {c : Char} (h : isNameChar c = true) : c ≠ '/' := by
  rintro rfl
  revert h
  decide

theorem EntityName.isName (n : EntityName) : Path.IsName n.text := by
  obtain ⟨first, rest, ht, hl, _⟩ := n.shape
  refine Path.isName_of_first ht ?_ ?_
  · rintro rfl
    revert hl
    decide
  · intro hs
    exact not_slash_of_isNameChar (n.text_chars _ hs) rfl

/-- A layer's file name is a component of its own. -/
theorem Layer.isName_fileName (l : Layer) (n : EntityName) : Path.IsName (l.fileName n.text) := by
  obtain ⟨first, rest, ht, hl, _⟩ := n.shape
  have hf : (l.fileName n.text).toList = first :: (rest ++ ("." ++ l.name ++ ".ts").toList) := by
    simp [Layer.fileName, ht]
  refine Path.isName_of_first hf ?_ ?_
  · rintro rfl
    revert hl
    decide
  · intro hs
    have hl : '/' ∉ ("." ++ l.name ++ ".ts").toList := by cases l <;> decide
    rw [hf, ← List.cons_append, List.mem_append, ← ht] at hs
    rcases hs with hs | hs
    · exact not_slash_of_isNameChar (n.text_chars _ hs) rfl
    · exact hl hs

/-- Layers have different files. -/
theorem Layer.fileName_injective {l k : Layer} {object : String}
    (h : l.fileName object = k.fileName object) : l = k := by
  have hr := congrArg (fun s : String => s.toList.reverse) h
  cases l <;> cases k <;> simp [Layer.fileName, Layer.name] at hr ⊢

namespace Blueprint

theorem endsInName_outputDir (b : Blueprint) : Path.EndsInName b.outputDir :=
  b.name.isName.endsInName_join _

theorem fileName?_filePath (b : Blueprint) (l : Layer) :
    Path.fileName? (b.filePath l) = some (l.fileName b.name.text) :=
  Path.fileName?_join (l.isName_fileName b.name) b.outputDir

end Blueprint

end CrudLayers
