import CrudLayers.Disk.Calls
import CrudLayers.Proofs.Paths
import Mathlib.Data.List.Nodup
import Mathlib.Data.List.Perm.Subperm

namespace CrudLayers.Disk

variable {d : Disk}

theorem current_put (d : Disk) (l : Location) (e : Entry) : (d.put l e).current = d.current := rfl

theorem erase_put (d : Disk) (l : Location) (e : Entry) : (d.put l e).erase l = d.erase l := by
  simp [put, erase, List.filter_filter]

theorem put_put (d : Disk) (l : Location) (e f : Entry) : (d.put l e).put l f = d.put l f := by
  rw [put, erase_put, put]
  rfl

/-- Nothing is erased at a place where nothing is found. -/
theorem erase_of_free {l : Location} (hl : l ≠ []) (h : d.find? l = none) : d.erase l = d := by
  have hall : d.entries.filter (fun e => e.1 != l) = d.entries := by
    rw [List.filter_eq_self]
    intro e he
    rw [find?, if_neg hl, List.lookup_eq_none_iff] at h
    have hne := h e he
    rw [bne_iff_ne]
    rintro rfl
    simp at hne
  rw [erase, hall]

def putAll (d : Disk) (writes : List (Location × Entry)) : Disk :=
  writes.foldl (fun d w => d.put w.1 w.2) d

@[simp]
theorem putAll_nil (d : Disk) : d.putAll [] = d := rfl

@[simp]
theorem putAll_cons (d : Disk) (w : Location × Entry) (rest : List (Location × Entry)) :
    d.putAll (w :: rest) = (d.put w.1 w.2).putAll rest := rfl

theorem current_putAll (d : Disk) (writes : List (Location × Entry)) :
    (d.putAll writes).current = d.current := by
  induction writes generalizing d with
  | nil => rfl
  | cons w rest ih => rw [putAll_cons, ih, current_put]

/-- Writes to different places stand in front of the other entries, the last one first. -/
theorem entries_putAll (d : Disk) {writes : List (Location × Entry)}
    (h : (writes.map Prod.fst).Nodup) : (d.putAll writes).entries =
      writes.reverse ++ d.entries.filter (fun e => !(writes.map Prod.fst).contains e.1) := by
  induction writes generalizing d with
  | nil =>
    rw [putAll_nil, List.reverse_nil, List.nil_append]
    exact (List.filter_eq_self.mpr (fun e _ => rfl)).symm
  | cons w rest ih =>
    obtain ⟨hw, hrest⟩ := List.nodup_cons.mp h
    have hcontains : (rest.map Prod.fst).contains w.1 = false := by simpa using hw
    rw [putAll_cons, ih _ hrest]
    rw [put, List.filter_cons_of_pos (by rw [hcontains]; rfl), List.reverse_cons, List.append_assoc,
      List.singleton_append, erase, List.filter_filter]
    congr 3
    funext e
    rw [List.map_cons, List.contains_cons, Bool.not_or, Bool.and_comm]
    rfl

/-- Putting the same entries on a disk again leaves it as it is, down to the order in which its
entries are listed. -/
theorem putAll_again (d : Disk) {writes : List (Location × Entry)}
    (h : (writes.map Prod.fst).Nodup) : (d.putAll writes).putAll writes = d.putAll writes := by
  have hentries : ((d.putAll writes).putAll writes).entries = (d.putAll writes).entries := by
    have hnone : writes.reverse.filter (fun e => !(writes.map Prod.fst).contains e.1) = [] := by
      rw [List.filter_eq_nil_iff]
      intro e he
      simp only [Bool.not_eq_true', Bool.not_eq_false, List.contains_iff_mem]
      exact List.mem_map_of_mem (List.mem_reverse.mp he)
    rw [entries_putAll _ h, entries_putAll _ h, List.filter_append, hnone, List.filter_filter,
      List.nil_append]
    simp only [Bool.and_self]
  have hcurrent := current_putAll (d.putAll writes) writes
  cases hd : (d.putAll writes).putAll writes with
  | mk entries current =>
    rw [hd] at hentries hcurrent
    subst hentries hcurrent
    rfl

theorem find?_putAll_other {writes : List (Location × Entry)} {l : Location}
    (h : l ∉ writes.map Prod.fst) : (d.putAll writes).find? l = d.find? l := by
  induction writes generalizing d with
  | nil => rfl
  | cons w rest ih =>
    rw [List.map_cons, List.mem_cons, not_or] at h
    rw [putAll_cons, ih h.2, find?_put_other d w.2 h.1]

theorem find?_putAll_mem {writes : List (Location × Entry)} {w : Location × Entry}
    (h : (writes.map Prod.fst).Nodup) (hw : w ∈ writes) (hl : w.1 ≠ []) :
    (d.putAll writes).find? w.1 = some w.2 := by
  induction writes generalizing d with
  | nil => cases hw
  | cons first rest ih =>
    obtain ⟨hfirst, hrest⟩ := List.nodup_cons.mp h
    rw [putAll_cons]
    rcases List.mem_cons.mp hw with rfl | hmem
    · rw [find?_putAll_other hfirst, find?_put_self d w.2 hl]
    · exact ih hrest hmem

section Temporaries

theorem temporaryName_injective : Function.Injective temporaryName := by
  intro n m h
  have hl := congrArg String.toList h
  simp only [temporaryName, String.toList_append] at hl
  have hdigits := congrArg (Nat.ofDigitChars 10 · 0) (List.append_cancel_left hl)
  simpa [Nat.toString_eq_ofList_toDigits] using hdigits

theorem isName_temporaryName (n : Nat) : Path.IsName (temporaryName n) := by
  have hl : (temporaryName n).toList = '.' :: 't' :: 'm' :: 'p' :: (Nat.toDigits 10 n) := by
    simp [temporaryName]
  refine ⟨?_, ?_, ?_⟩
  · intro hs
    have hmem : '/' ∈ Nat.toDigits 10 n := by simpa [hl] using hs
    have hdigit := Nat.isDigit_of_mem_toDigits (by decide) (by decide) hmem
    revert hdigit
    decide
  · simp [hl, Path.isFiller]
  · intro he
    rw [he] at hl
    cases hl

/-- The names for temporary files that are taken in a directory are no more than the entries. -/
theorem taken_le {place : Location} {n : Nat}
    (h : ∀ m < n, d.find? (place ++ [temporaryName m]) ≠ none) : n ≤ d.entries.length := by
  have hsub : (List.range n).map (fun m => place ++ [temporaryName m]) ⊆
      d.entries.map Prod.fst := by
    intro l hl
    obtain ⟨m, hm, rfl⟩ := List.mem_map.mp hl
    have hfound := h m (List.mem_range.mp hm)
    rw [find?, if_neg (by simp), Ne, List.lookup_eq_none_iff] at hfound
    push Not at hfound
    obtain ⟨e, he, heq⟩ := hfound
    have hkey : place ++ [temporaryName m] = e.1 := by simpa using heq
    rw [hkey]
    exact List.mem_map_of_mem he
  have hnodup : ((List.range n).map (fun m => place ++ [temporaryName m])).Nodup := by
    refine List.Nodup.map ?_ List.nodup_range
    intro a b hab
    exact temporaryName_injective (by simpa using hab)
  have hle := (List.subperm_of_subset hnodup hsub).length_le
  simpa using hle

/-- The first free name is found however many are taken. -/
theorem freeTemporary?_iff {place : Location} {name : String} :
    d.freeTemporary? place = some name ↔ ∃ n, name = temporaryName n ∧
      d.find? (place ++ [temporaryName n]) = none ∧
      ∀ m < n, d.find? (place ++ [temporaryName m]) ≠ none := by
  have hfind : ∀ n, (List.range (d.entries.length + 1)).find?
      (fun m => (d.find? (place ++ [temporaryName m])).isNone) = some n ↔
      d.find? (place ++ [temporaryName n]) = none ∧
        ∀ m < n, d.find? (place ++ [temporaryName m]) ≠ none := by
    intro n
    rw [List.find?_range_eq_some]
    constructor
    · rintro ⟨hn, hm, hlt⟩
      refine ⟨by simpa using hn, ?_⟩
      intro m hm'
      simpa [Option.isSome_iff_ne_none] using hlt m hm'
    · rintro ⟨hn, hlt⟩
      refine ⟨by simpa using hn, ?_, ?_⟩
      · rw [List.mem_range]
        have hle := taken_le hlt
        omega
      · intro m hm
        simpa [Option.isSome_iff_ne_none] using hlt m hm
  rw [freeTemporary?, List.find?_map, Option.map_eq_some_iff]
  constructor
  · rintro ⟨n, hn, rfl⟩
    exact ⟨n, rfl, (hfind n).mp hn⟩
  · rintro ⟨n, rfl, hn⟩
    exact ⟨n, (hfind n).mpr hn, rfl⟩

end Temporaries

end CrudLayers.Disk
