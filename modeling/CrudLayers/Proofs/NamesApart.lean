import CrudLayers.Proofs.Names
import Mathlib.Data.List.Basic

namespace CrudLayers

namespace EntityName

variable {n : EntityName}

/-- A model is called like another name's model exactly if the names are the same. -/
theorem model_eq_iff {m : EntityName} : n.model = m.model ↔ n.text = m.text := by
  obtain ⟨first, rest, hn, hl, _⟩ := n.shape
  obtain ⟨first', rest', hm, hl', _⟩ := m.shape
  rw [← String.toList_inj, ← String.toList_inj, toList_model, toList_model, hn, hm, capitalize,
    capitalize, List.cons.injEq, List.cons.injEq]
  refine and_congr_left' ⟨?_, congrArg Char.toUpper⟩
  intro h
  rw [← toLower_toUpper hl, h, toLower_toUpper hl']

/-- Among words with a capital is the model exactly if the entity is among the words without it. -/
theorem model_mem_iff {plain words : List String} (hplain : ∀ s ∈ plain, nameFault? s.toList = none)
    (hwords : words = plain.map fun s => String.ofList (capitalize s.toList)) :
    n.model ∈ words ↔ n.text ∈ plain := by
  subst hwords
  rw [List.mem_map]
  constructor
  · rintro ⟨s, hs, hmodel⟩
    have htext : n.text = s := (model_eq_iff (m := ⟨s, hplain s hs⟩)).mp hmodel.symm
    rwa [htext]
  · intro h
    exact ⟨n.text, h, rfl⟩

theorem length_stem (n : EntityName) (k : Stem) :
    (n.stem k).toList.length = n.text.toList.length := by
  cases k with
  | object => rfl
  | model => exact n.length_model

theorem text_ne_model (n : EntityName) (s t : List Char) :
    n.text.toList ++ s ≠ n.model.toList ++ t := by
  obtain ⟨first, rest, ht, hl, _⟩ := n.shape
  obtain ⟨capital, rest', hm, hu⟩ := n.model_shape
  rw [ht, hm]
  intro h
  rw [List.cons_append, List.cons_append, List.cons.injEq] at h
  rw [← h.1] at hu
  exact not_isUpper_of_isLower hl hu

end EntityName

namespace NamePattern

/-- What tells two patterns apart: their lengths, their ends, their beginnings, or the case of the
letter that both start with. -/
def Apart (p q : NamePattern) : Prop :=
  p.before.toList.length + p.after.toList.length ≠ q.before.toList.length + q.after.toList.length ∨
  (¬ p.after.toList <:+ q.after.toList ∧ ¬ q.after.toList <:+ p.after.toList) ∨
  (¬ p.before.toList <+: q.before.toList ∧ ¬ q.before.toList <+: p.before.toList) ∨
  (p.before.toList = [] ∧ q.before.toList = [] ∧ p.stem ≠ q.stem)

instance (p q : NamePattern) : Decidable (p.Apart q) :=
  inferInstanceAs (Decidable (_ ∨ _ ∨ _ ∨ _))

variable {p q : NamePattern} {n : EntityName}

/-- Patterns that are told apart make different names of one entity. -/
theorem fill_ne (h : p.Apart q) : p.fill n ≠ q.fill n := by
  intro he
  have hchars := congrArg String.toList he
  rw [toList_fill, toList_fill] at hchars
  rcases h with hlength | ⟨hl, hr⟩ | ⟨hl, hr⟩ | ⟨hp, hq, hstem⟩
  · have hsame := congrArg List.length hchars
    simp only [List.length_append, n.length_stem] at hsame
    omega
  · have hsuffix : q.after.toList <:+ p.before.toList ++ (n.stem p.stem).toList ++ p.after.toList :=
      hchars ▸ List.suffix_append _ _
    rcases List.suffix_or_suffix_of_suffix (List.suffix_append _ _) hsuffix with hs | hs
    · exact hl hs
    · exact hr hs
  · rw [List.append_assoc, List.append_assoc] at hchars
    have hprefix : q.before.toList <+: p.before.toList ++ ((n.stem p.stem).toList ++
        p.after.toList) := hchars ▸ List.prefix_append _ _
    rcases List.prefix_or_prefix_of_prefix (List.prefix_append _ _) hprefix with hs | hs
    · exact hl hs
    · exact hr hs
  · rw [hp, hq, List.nil_append, List.nil_append] at hchars
    cases hps : p.stem <;> cases hqs : q.stem <;> rw [hps, hqs] at hchars hstem
    · exact hstem rfl
    · exact n.text_ne_model _ _ hchars
    · exact n.text_ne_model _ _ hchars.symm
    · exact hstem rfl

/-- A name that ends with the end of a pattern has something in front of it, which a word may not
have. -/
theorem fill_ne_word {word : String} (h : ¬ p.after.toList <:+ word.toList.tail) :
    p.fill n ≠ word := by
  rintro rfl
  apply h
  rw [toList_fill, List.append_assoc]
  have hstem : (n.stem p.stem).toList ≠ [] := by
    obtain ⟨first, rest, ht, _⟩ := n.shape
    have hlength := n.length_stem p.stem
    rw [ht] at hlength
    intro hnil
    rw [hnil] at hlength
    cases hlength
  cases hfront : p.before.toList ++ (n.stem p.stem).toList with
  | nil => exact absurd (List.append_eq_nil_iff.mp hfront).2 hstem
  | cons first rest =>
    rw [← List.append_assoc, hfront, List.cons_append, List.tail_cons]
    exact List.suffix_append _ _

end NamePattern

namespace DerivedName

theorem mem_all (d : DerivedName) : d ∈ all := by
  cases d <;> decide

theorem apart_of_ne : ∀ d ∈ all, ∀ e ∈ all, d ≠ e → d.pattern.Apart e.pattern := by
  decide +kernel

end DerivedName

/-- The names that generated code takes from one entity are pairwise distinct. -/
theorem EntityName.derived_injective (n : EntityName) : Function.Injective n.derived := by
  intro d e h
  by_contra hne
  exact NamePattern.fill_ne (DerivedName.apart_of_ne d d.mem_all e e.mem_all hne) h

end CrudLayers
