import CrudLayers.Entity.Pattern

namespace CrudLayers

theorem code_of_isLower {c : Char} (h : c.isLower = true) : c.toNat ∈ List.range' 97 26 := by
  have hcodes : 'a'.val ≤ c.val ∧ c.val ≤ 'z'.val := by
    change (decide ('a'.val ≤ c.val) && decide (c.val ≤ 'z'.val)) = true at h
    simpa using h
  rw [UInt32.le_iff_toNat_le, UInt32.le_iff_toNat_le] at hcodes
  rw [List.mem_range'_1]
  exact ⟨hcodes.1, Nat.lt_of_le_of_lt hcodes.2 (by decide)⟩

theorem upper_of_code : ∀ n ∈ List.range' 97 26, (Char.ofNat n).toUpper.isUpper = true := by
  decide

/-- The capital of a lowercase letter is an uppercase letter: there are twenty-six of them. -/
theorem isUpper_toUpper {c : Char} (h : c.isLower = true) : c.toUpper.isUpper = true := by
  have hu := upper_of_code c.toNat (code_of_isLower h)
  rwa [Char.ofNat_toNat] at hu

theorem lower_of_upper_of_code :
    ∀ n ∈ List.range' 97 26, (Char.ofNat n).toUpper.toLower = Char.ofNat n := by
  decide

/-- A lowercase letter can be read back from its capital. -/
theorem toLower_toUpper {c : Char} (h : c.isLower = true) : c.toUpper.toLower = c := by
  have hl := lower_of_upper_of_code c.toNat (code_of_isLower h)
  rwa [Char.ofNat_toNat] at hl

theorem not_isUpper_of_isLower {c : Char} (h : c.isLower = true) : ¬ c.isUpper = true := by
  have hcode := List.mem_range'_1.mp (code_of_isLower h)
  intro hu
  have hcodes : 'A'.val ≤ c.val ∧ c.val ≤ 'Z'.val := of_decide_eq_true hu
  have hlast : c.toNat ≤ 90 := UInt32.le_iff_toNat_le.mp hcodes.2
  omega

theorem isNameChar_of_isLower {c : Char} (h : c.isLower = true) : isNameChar c = true := by
  change ((c.isUpper || c.isLower) || c.isDigit || c == '_') = true
  simp [h]

theorem isNameChar_of_isUpper {c : Char} (h : c.isUpper = true) : isNameChar c = true := by
  change ((c.isUpper || c.isLower) || c.isDigit || c == '_') = true
  simp [h]

namespace EntityName

/-- A name is a lowercase letter and then name characters. -/
theorem shape (n : EntityName) : ∃ first rest, n.text.toList = first :: rest ∧
    first.isLower = true ∧ ∀ c ∈ rest, isNameChar c = true := by
  have hv := n.valid
  cases ht : n.text.toList with
  | nil => simp [ht, nameFault?] at hv
  | cons first rest =>
    simp only [ht, nameFault?] at hv
    split at hv
    · rename_i hl
      split at hv
      · rename_i ha
        exact ⟨first, rest, rfl, hl, List.all_eq_true.mp ha⟩
      · cases hv
    · cases hv

theorem text_chars (n : EntityName) : ∀ c ∈ n.text.toList, isNameChar c = true := by
  obtain ⟨first, rest, ht, hl, hr⟩ := n.shape
  rw [ht]
  intro c hc
  rcases List.mem_cons.mp hc with rfl | hc
  · exact isNameChar_of_isLower hl
  · exact hr c hc

theorem model_chars (n : EntityName) : ∀ c ∈ n.model.toList, isNameChar c = true := by
  obtain ⟨first, rest, ht, hl, hr⟩ := n.shape
  rw [toList_model, ht, capitalize]
  intro c hc
  rcases List.mem_cons.mp hc with rfl | hc
  · exact isNameChar_of_isUpper (isUpper_toUpper hl)
  · exact hr c hc

theorem length_model (n : EntityName) :
    n.model.toList.length = n.text.toList.length := by
  obtain ⟨first, rest, ht, _, _⟩ := n.shape
  rw [toList_model, ht, capitalize, List.length_cons, List.length_cons]

/-- The model's name starts with a capital, so it is no word that starts with a small letter. -/
theorem model_shape (n : EntityName) :
    ∃ first rest, n.model.toList = first :: rest ∧ first.isUpper = true := by
  obtain ⟨first, rest, ht, hl, _⟩ := n.shape
  exact ⟨first.toUpper, rest, by rw [toList_model, ht, capitalize], isUpper_toUpper hl⟩

end EntityName

end CrudLayers
