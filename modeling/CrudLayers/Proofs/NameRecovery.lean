import CrudLayers.Entity.TypeRef
import CrudLayers.Proofs.NamesApart
import Mathlib

namespace CrudLayers

namespace EntityName

def uncapitalize : List Char → List Char
  | [] => []
  | first :: rest => first.toLower :: rest

/-- A small letter in front is the same letter for both stems. -/
theorem uncapitalize_stem (n : EntityName) (k : Stem) :
    uncapitalize (n.stem k).toList = n.text.toList := by
  obtain ⟨first, rest, ht, hl, _⟩ := n.shape
  cases k with
  | object =>
    have hsmall : first.toLower = first :=
      Char.toLower_eq_of_not_isUpper (not_isUpper_of_isLower hl)
    simp [stem, ht, uncapitalize, hsmall]
  | model => simp [stem, toList_model, ht, capitalize, uncapitalize, toLower_toUpper hl]

theorem ext_text {n m : EntityName} (h : n.text = m.text) : n = m := by
  cases n
  cases m
  simpa using h

end EntityName

namespace NamePattern

/-- The object name that is left of a name without what the pattern writes around its stem. -/
def objectOf (p : NamePattern) (name : String) : String :=
  String.ofList (EntityName.uncapitalize
    ((name.toList.drop p.before.toList.length).rdrop p.after.toList.length))

theorem objectOf_fill (p : NamePattern) (n : EntityName) : p.objectOf (p.fill n) = n.text := by
  unfold objectOf
  rw [toList_fill, List.append_assoc, List.drop_left, List.rdrop_append_length,
    EntityName.uncapitalize_stem, String.ofList_toList]

/-- A pattern makes one name of two entities only if they are the same. -/
theorem fill_inj {p : NamePattern} {n m : EntityName} : p.fill n = p.fill m ↔ n = m := by
  constructor
  · intro h
    have htext := congrArg p.objectOf h
    rw [objectOf_fill, objectOf_fill] at htext
    exact EntityName.ext_text htext
  · intro h
    rw [h]

end NamePattern

namespace TypeRef

/-- Types that share a derived name are the same, or they are the model and its list. -/
theorem derived?_eq_iff : ∀ t ∈ all, ∀ u ∈ all,
    (t.derived?.isSome ∧ t.derived? = u.derived?) ↔ t ∉ [number, boolean] ∧ u ∉ [number, boolean] ∧
      (t = u ∨ t ∈ [model, modelList] ∧ u ∈ [model, modelList]) := by
  decide +kernel

/-- Types of one entity import the same symbol only if they are spelled through one name. -/
theorem same_symbol_iff (t u : TypeRef) (n : EntityName) :
    (∃ symbol, t.symbol? n = some symbol ∧ u.symbol? n = some symbol) ↔
      t.derived?.isSome ∧ t.derived? = u.derived? := by
  unfold symbol?
  cases ht : t.derived? with
  | none => simp
  | some d =>
    cases hu : u.derived? with
    | none => simp
    | some e =>
      have hname : n.derived e = n.derived d ↔ e = d := n.derived_injective.eq_iff
      simpa [eq_comm] using hname

end TypeRef

namespace EntityName

/-- A derived name leads back to the object name, so two entities have the same name of a kind only
if they are one entity. The sixteen names of an entity are all different; and two types that import
a symbol import the same one only if they are the same type, or the model and its list. -/
theorem names_lead_back :
    (∀ (d : DerivedName) (n : EntityName), d.pattern.objectOf (n.derived d) = n.text) ∧
    (∀ (d : DerivedName) (n m : EntityName), n.derived d = m.derived d ↔ n = m) ∧
    (∀ n : EntityName, (DerivedName.all.map n.derived).Nodup ∧ DerivedName.all.length = 16 ∧
      ∀ d e : DerivedName, n.derived d = n.derived e ↔ d = e) ∧
    ∀ (n : EntityName) (t u : TypeRef),
      (∃ symbol, t.symbol? n = some symbol ∧ u.symbol? n = some symbol) ↔
        t ∉ [.number, .boolean] ∧ u ∉ [.number, .boolean] ∧
          (t = u ∨ t ∈ [.model, .modelList] ∧ u ∈ [.model, .modelList]) := by
  refine ⟨fun d n => d.pattern.objectOf_fill n, fun _ _ _ => NamePattern.fill_inj, ?_, ?_⟩
  · intro n
    have hnodup : DerivedName.all.Nodup := by decide
    exact ⟨List.Nodup.map n.derived_injective hnodup, rfl, fun _ _ => n.derived_injective.eq_iff⟩
  · intro n t u
    rw [TypeRef.same_symbol_iff, TypeRef.derived?_eq_iff t t.mem_all u u.mem_all]

end EntityName

end CrudLayers
