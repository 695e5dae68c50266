import CrudLayers.Config.Settings
import CrudLayers.Proofs.Names
import Mathlib

namespace CrudLayers

def capitals (s : String) : String :=
  String.ofList (s.toList.map Char.toUpper)

def small (s : String) : String :=
  String.ofList (s.toList.map Char.toLower)

@[simp]
theorem toList_small (s : String) : (small s).toList = s.toList.map Char.toLower :=
  String.toList_ofList

@[simp]
theorem small_small (s : String) : small (small s) = small s := by
  simp [small, Function.comp_def]

theorem isNameChar_toUpper {c : Char} (h : isNameChar c = true) : isNameChar c.toUpper = true := by
  by_cases hl : c.isLower = true
  · exact isNameChar_of_isUpper (isUpper_toUpper hl)
  · rwa [Char.toUpper_eq_of_not_isLower hl]

theorem toUpper_eq_underscore {c : Char} (h : c.toUpper = '_') : c = '_' := by
  by_cases hl : c.isLower = true
  · have hu := isUpper_toUpper hl
    rw [h] at hu
    cases hu
  · rwa [Char.toUpper_eq_of_not_isLower hl] at h

/-- Capitals stand before small letters. -/
theorem le_toLower (c : Char) : c ≤ c.toLower := by
  by_cases hu : c.isUpper = true
  · have hcode : c.toNat ≤ 90 := by
      simp only [Char.isUpper, UInt32.le_iff_toNat_le, decide_eq_true_eq] at hu
      exact hu.2
    have hvalid : (c.toNat + 32).isValidChar := .inl (by omega)
    rw [Char.toLower_eq_of_isUpper hu, Char.le_def, UInt32.le_iff_toNat_le]
    change c.toNat ≤ (Char.ofNat (c.toNat + 32)).toNat
    rw [Char.toNat_ofNat, if_pos hvalid]
    omega
  · rw [Char.toLower_eq_of_not_isUpper hu]

theorem map_toLower_eq_or_lex (s : List Char) :
    s.map Char.toLower = s ∨ List.Lex (· < ·) s (s.map Char.toLower) := by
  induction s with
  | nil => exact .inl rfl
  | cons c rest ih =>
    rw [List.map_cons]
    rcases lt_or_eq_of_le (le_toLower c) with hlt | heq
    · exact .inr (.rel hlt)
    · rw [← heq]
      exact ih.imp (congrArg (c :: ·)) .cons

theorem le_small (s : String) : s ≤ small s := by
  rcases map_toLower_eq_or_lex s.toList with heq | hlt
  · rw [small, heq, String.ofList_toList]
  · refine le_of_lt (String.lt_iff_toList_lt.mpr ?_)
    rw [toList_small]
    exact hlt

namespace Config

theorem sameIgnoringCase_iff {s t : String} : sameIgnoringCase s t = true ↔ small s = small t := by
  rw [sameIgnoringCase, beq_iff_eq, ← toList_small, ← toList_small, String.toList_inj]

end Config

end CrudLayers
