import CrudLayers.Entity.TypeRef
import CrudLayers.Proofs.Names

namespace CrudLayers

/-- The identifiers of a text: its longest runs of name characters. -/
def identifiers (s : String) : List String :=
  ((s.toList.splitOnP (fun c => !isNameChar c)).filter (· ≠ [])).map String.ofList

/-- The symbols that a type expression mentions; builtin types are none. -/
def typeSymbols (typeText : String) : List String :=
  (identifiers typeText).filter (· ∉ ["number", "boolean"])

theorem identifiers_word {s : String} (hs : s ≠ "") (h : ∀ c ∈ s.toList, isNameChar c = true) :
    identifiers s = [s] := by
  have hn : s.toList ≠ [] := by simpa using hs
  rw [identifiers, List.splitOnP_eq_singleton (by simpa using h)]
  simp [hn]

/-- A character that belongs to no name ends the identifier before it. -/
theorem identifiers_append {s t : String} {c : Char} (hs : s ≠ "")
    (h : ∀ c ∈ s.toList, isNameChar c = true) (hc : isNameChar c = false) :
    identifiers (s ++ String.ofList (c :: t.toList)) = s :: identifiers t := by
  have hn : s.toList ≠ [] := by simpa using hs
  have ht : (s ++ String.ofList (c :: t.toList)).toList = s.toList ++ c :: t.toList := by simp
  rw [identifiers, ht,
    List.splitOnP_append_cons_of_forall_mem (by simpa using h) c (by simpa using hc)]
  simp [hn, identifiers]

namespace EntityName

/-- Derived names are made of name characters only. -/
theorem derived_chars (n : EntityName) (d : DerivedName) :
    ∀ c ∈ (n.derived d).toList, isNameChar c = true := by
  have hp : ∀ c ∈ d.pattern.before.toList ++ d.pattern.after.toList, isNameChar c = true := by
    apply List.all_eq_true.mp
    cases d <;> decide
  have hs : ∀ c ∈ (n.stem d.pattern.stem).toList, isNameChar c = true := by
    cases d.pattern.stem with
    | object => exact n.text_chars
    | model => exact n.model_chars
  intro c hc
  rw [derived, NamePattern.toList_fill] at hc
  simp only [List.mem_append] at hc hp
  rcases hc with (hb | hm) | ha
  · exact hp c (Or.inl hb)
  · exact hs c hm
  · exact hp c (Or.inr ha)

end EntityName

theorem derived?_stem {t : TypeRef} {d : DerivedName} (h : t.derived? = some d) :
    d.pattern.stem = .model := by
  cases t <;> simp only [TypeRef.derived?, Option.some.injEq, reduceCtorEq] at h <;> subst h <;> rfl

/-- A name built on the model holds its capital, which neither builtin type has. -/
theorem derived_not_builtin (n : EntityName) {d : DerivedName} (h : d.pattern.stem = .model) :
    n.derived d ≠ "" ∧ n.derived d ∉ ["number", "boolean"] := by
  obtain ⟨first, rest, hm, hu⟩ := n.model_shape
  have hc : first ∈ (n.derived d).toList := by
    rw [EntityName.derived, NamePattern.toList_fill, h]
    simp [EntityName.stem, hm]
  constructor
  · intro he
    simp [he] at hc
  · intro he
    have hl : ∀ c ∈ "number".toList ++ "boolean".toList, (!c.isUpper) = true :=
      List.all_eq_true.mp (by decide)
    have hf : (!first.isUpper) = true := by
      apply hl
      simp only [List.mem_cons, List.not_mem_nil, or_false] at he
      rcases he with he | he
      · exact List.mem_append_left _ (he ▸ hc)
      · exact List.mem_append_right _ (he ▸ hc)
    rw [hu] at hf
    cases hf

theorem typeSymbols_derived (n : EntityName) {d : DerivedName} (h : d.pattern.stem = .model) :
    typeSymbols (n.derived d) = [n.derived d] := by
  obtain ⟨hne, hb⟩ := derived_not_builtin n h
  rw [typeSymbols, identifiers_word hne (n.derived_chars d)]
  simpa using hb

theorem derived_model (n : EntityName) : n.derived .modelName = n.model := by
  simp [EntityName.derived, DerivedName.pattern, NamePattern.fill, EntityName.stem]

/-- A list mentions its element. -/
theorem typeSymbols_list (n : EntityName) {d : DerivedName} (h : d.pattern.stem = .model) :
    typeSymbols (n.derived d ++ "[]") = [n.derived d] := by
  obtain ⟨hne, hb⟩ := derived_not_builtin n h
  have hl := identifiers_append (t := "]") (c := '[') hne (n.derived_chars d) (by decide)
  have hr : identifiers "]" = [] := by decide +kernel
  have hi : identifiers (n.derived d ++ "[]") = n.derived d :: identifiers "]" := hl
  rw [typeSymbols, hi, hr]
  simpa using hb

/-- A handle mentions itself and, in its brackets, the model. -/
theorem typeSymbols_handle (n : EntityName) :
    typeSymbols ("Repository<" ++ n.model ++ ">") = ["Repository", n.model] := by
  obtain ⟨hne, hb⟩ := derived_not_builtin n (d := .modelName) rfl
  rw [derived_model] at hne hb
  have hin : identifiers (n.model ++ ">") = n.model :: identifiers "" :=
    identifiers_append (t := "") hne n.model_chars (by decide)
  have hout : identifiers ("Repository" ++ String.ofList ('<' :: (n.model ++ ">").toList)) =
      "Repository" :: identifiers (n.model ++ ">") :=
    identifiers_append (by decide) (List.all_eq_true.mp (by decide)) (by decide)
  have ht : "Repository<" ++ n.model ++ ">" =
      "Repository" ++ String.ofList ('<' :: (n.model ++ ">").toList) := by
    apply String.toList_injective
    simp
  have he : identifiers "" = [] := by decide +kernel
  rw [typeSymbols, ht, hout, hin, he]
  simpa using hb

/-- A type is spelled as its derived name, and a list with brackets behind it. -/
theorem text_of_derived {t : TypeRef} {d : DerivedName} (n : EntityName)
    (h : t.derived? = some d) :
    t.text n = n.derived d ++ (if t = .modelList then "[]" else "") := by
  cases t <;> simp only [TypeRef.derived?, Option.some.injEq, reduceCtorEq] at h <;> subst h <;>
    simp [TypeRef.text, TypeRef.derived?, TypeRef.symbol?, EntityName.derived,
      DerivedName.pattern, NamePattern.fill, EntityName.stem]

/-- The symbols of a type's text are the one that the type is imported by, if it is imported. -/
theorem typeSymbols_text (t : TypeRef) (n : EntityName) :
    typeSymbols (t.text n) = (t.symbol? n).toList := by
  cases hs : t.symbol? n with
  | none =>
    have ht : t = .number ∨ t = .boolean := by
      cases t <;> simp [TypeRef.symbol?, TypeRef.derived?] at hs ⊢
    have hb : ∀ s ∈ ["number", "boolean"], typeSymbols s = [] := by decide +kernel
    rcases ht with rfl | rfl
    · exact hb "number" (by simp)
    · exact hb "boolean" (by simp)
  | some symbol =>
    obtain ⟨d, hd, rfl⟩ := Option.map_eq_some_iff.mp hs
    rw [text_of_derived n hd]
    split
    · exact typeSymbols_list n (derived?_stem hd)
    · simpa using typeSymbols_derived n (derived?_stem hd)

end CrudLayers
