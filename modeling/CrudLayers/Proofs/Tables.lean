import CrudLayers.Config.Setting
import Mathlib.Data.String.Basic

namespace CrudLayers.Setting

/-- In every table of the setting, at whatever depth, the keys ascend. -/
inductive Ordered : Setting → Prop
  | text (s : String) : Ordered (.text s)
  | signed (n : Int) : Ordered (.signed n)
  | unsigned (n : Nat) : Ordered (.unsigned n)
  | float (x : Binary64) : Ordered (.float x)
  | flag (b : Bool) : Ordered (.flag b)
  | list {items : List Setting} (h : ∀ v ∈ items, Ordered v) : Ordered (.list items)
  | table {entries : List (String × Setting)} (keys : (entries.map Prod.fst).Pairwise (· < ·))
      (values : ∀ e ∈ entries, Ordered e.2) : Ordered (.table entries)

section Ordered

variable {entries : List (String × Setting)} {v : Setting}

theorem Ordered.keys (h : (Setting.table entries).Ordered) :
    (entries.map Prod.fst).Pairwise (· < ·) := by
  cases h with
  | table keys _ => exact keys

theorem Ordered.values (h : (Setting.table entries).Ordered) : ∀ e ∈ entries, e.2.Ordered := by
  cases h with
  | table _ values => exact values

theorem ordered_empty : (table []).Ordered :=
  .table .nil (fun _ he => nomatch he)

end Ordered

section Put

variable {α : Type} {key k : String} {v w : Setting} {entries lower upper : List (String × Setting)}

theorem mem_of_lookup {entries : List (String × α)} {a : α}
    (h : entries.lookup key = some a) : (key, a) ∈ entries := by
  obtain ⟨l, r, hl, _⟩ := List.lookup_eq_some_iff.mp h
  rw [hl]
  simp

/-- Keys that ascend are met once each. -/
theorem lookup_of_mem {entries : List (String × α)} {a : α}
    (hkeys : (entries.map Prod.fst).Pairwise (· < ·)) (h : (key, a) ∈ entries) :
    entries.lookup key = some a := by
  induction entries with
  | nil => cases h
  | cons e rest ih =>
    obtain ⟨hfirst, hrest⟩ := List.pairwise_cons.mp hkeys
    rcases List.mem_cons.mp h with rfl | h
    · rw [List.lookup_cons, beq_self_eq_true]
    · have hlt : e.1 < key := hfirst key (List.mem_map.mpr ⟨_, h, rfl⟩)
      rw [List.lookup_cons, beq_false_of_ne hlt.ne']
      exact ih hrest h

theorem lookup_eq_none_iff {entries : List (String × α)} :
    entries.lookup key = none ↔ key ∉ entries.map Prod.fst := by
  rw [List.lookup_eq_none_iff]
  constructor
  · intro h hkey
    obtain ⟨e, he, rfl⟩ := List.mem_map.mp hkey
    exact absurd (h e he) (by simp)
  · exact fun h e he => bne_iff_ne.mpr (fun heq => h (heq ▸ List.mem_map_of_mem he))

@[simp]
theorem lookup_put : (put key v entries).lookup key = some v := by
  induction entries with
  | nil => simp [put]
  | cons e rest ih =>
    rw [put]
    split
    · simp
    · split
      · simp
      · rename_i hne
        rw [List.lookup_cons, beq_false_of_ne hne]
        exact ih

theorem lookup_put_of_ne (hne : k ≠ key) : (put key v entries).lookup k = entries.lookup k := by
  induction entries with
  | nil => simp [put, hne]
  | cons e rest ih =>
    rw [put]
    split
    · rw [List.lookup_cons, beq_false_of_ne hne]
    · split
      · rename_i heq
        rw [List.lookup_cons, List.lookup_cons, ← heq, beq_false_of_ne hne]
      · rw [List.lookup_cons, List.lookup_cons, ih]

theorem mem_put {e : String × Setting} (h : e ∈ put key v entries) :
    e = (key, v) ∨ e ∈ entries := by
  induction entries with
  | nil => simpa [put] using h
  | cons first rest ih =>
    rw [put] at h
    split at h
    · simpa using h
    · split at h
      · simp only [List.mem_cons] at h ⊢
        tauto
      · rcases List.mem_cons.mp h with rfl | h
        · simp
        · exact (ih h).imp id (List.mem_cons_of_mem _)

theorem keys_put (h : (entries.map Prod.fst).Pairwise (· < ·)) :
    ((put key v entries).map Prod.fst).Pairwise (· < ·) := by
  induction entries with
  | nil => simp [put]
  | cons e rest ih =>
    obtain ⟨hfirst, hrest⟩ := List.pairwise_cons.mp h
    rw [put]
    split
    · rename_i hlt
      refine List.pairwise_cons.mpr ⟨fun k hk => ?_, h⟩
      rcases List.mem_cons.mp hk with rfl | hk
      · exact hlt
      · exact hlt.trans (hfirst k hk)
    · split
      · rename_i heq
        exact List.pairwise_cons.mpr ⟨heq ▸ hfirst, hrest⟩
      · rename_i hge hne
        refine List.pairwise_cons.mpr ⟨fun k hk => ?_, ih hrest⟩
        obtain ⟨e', he', rfl⟩ := List.mem_map.mp hk
        rcases mem_put he' with rfl | he'
        · exact lt_of_le_of_ne (not_lt.mp hge) (Ne.symm hne)
        · exact hfirst _ (List.mem_map.mpr ⟨_, he', rfl⟩)

theorem Ordered.put (h : (Setting.table entries).Ordered) (hv : v.Ordered) :
    (Setting.table (Setting.put key v entries)).Ordered := by
  refine .table (keys_put h.keys) (fun e he => ?_)
  rcases mem_put he with rfl | he
  · exact hv
  · exact h.values e he

end Put

/-- The entries of the table under a key; there are none if no table stands there. -/
def under (key : String) (entries : List (String × Setting)) : List (String × Setting) :=
  match entries.lookup key with
  | some (table inner) => inner
  | _ => []

section Under

variable {key k : String} {v : Setting} {entries : List (String × Setting)}

theorem Ordered.under (h : (Setting.table entries).Ordered) :
    (Setting.table (Setting.under key entries)).Ordered := by
  rw [Setting.under]
  split
  · rename_i inner hlookup
    exact h.values _ (mem_of_lookup hlookup)
  · exact ordered_empty

/-- One entry laid over a table takes the place under its key, joined to a table that stands there
if it is a table itself. -/
theorem layEntries_single (hv : ∀ inner, v ≠ table inner) :
    layEntries entries [(key, v)] = put key v entries := by
  have htop : ∀ lower, layOver lower v = v := by
    intro lower
    cases v with
    | table inner => exact absurd rfl (hv inner)
    | _ => simp [layOver]
  rw [layEntries]
  split <;> simp [layEntries, htop]

theorem layEntries_table : layEntries entries [(key, table [(k, v)])] =
    put key (table (layEntries (under key entries) [(k, v)])) entries := by
  have hempty : layEntries [] [(k, v)] = [(k, v)] := by simp [layEntries, put]
  rw [layEntries, under]
  split
  · rename_i w hlookup
    rw [layEntries, hlookup]
    cases w with
    | table inner => simp [layOver]
    | _ => simp [layOver, hempty]
  · rename_i hlookup
    rw [layEntries, hlookup, hempty]

end Under

end CrudLayers.Setting
