import CrudLayers.Proofs.Casing
import CrudLayers.Proofs.Tables

namespace CrudLayers.Config

variable {c : Config} {keys : List String} {name key : String}

/-- The key that a name takes its settings from. -/
structure Chosen (keys : List String) (name key : String) : Prop where
  mem : key ∈ keys
  same : small key = small name
  own : name ∈ keys → key = name
  least : name ∉ keys → ∀ k ∈ keys, small k = small name → key ≤ k

/-- In ascending keys, the first of a kind is the least. -/
theorem find?_of_least {α : Type} {entries : List (String × α)} {a : α} {p : String → Bool}
    (hkeys : (entries.map Prod.fst).Pairwise (· < ·)) (hmem : (key, a) ∈ entries)
    (hp : p key = true) (hleast : ∀ k ∈ entries.map Prod.fst, p k = true → key ≤ k) :
    entries.find? (fun e => p e.1) = some (key, a) := by
  induction entries with
  | nil => cases hmem
  | cons e rest ih =>
    obtain ⟨hfirst, hrest⟩ := List.pairwise_cons.mp hkeys
    rcases List.mem_cons.mp hmem with rfl | hmem
    · exact List.find?_cons_of_pos hp
    · have hlt : e.1 < key := hfirst key (List.mem_map_of_mem hmem)
      have hnot : p e.1 = false := Bool.eq_false_iff.mpr (fun he =>
        absurd (hleast e.1 List.mem_cons_self he) (not_le.mpr hlt))
      rw [List.find?_cons, hnot]
      exact ih hrest hmem (fun k hk => hleast k (List.mem_cons_of_mem _ hk))

theorem settings?_of_chosen (hkeys : (c.entities.map Prod.fst).Pairwise (· < ·))
    (h : Chosen (c.entities.map Prod.fst) name key) :
    c.settings? name = c.entities.lookup key := by
  obtain ⟨⟨k, s⟩, hs, hk⟩ := List.mem_map.mp h.mem
  change k = key at hk
  rw [hk] at hs
  have hlookup : c.entities.lookup key = some s := Setting.lookup_of_mem hkeys hs
  by_cases hname : name ∈ c.entities.map Prod.fst
  · rw [settings?, ← h.own hname, hlookup]
  · have hnone : c.entities.lookup name = none := Setting.lookup_eq_none_iff.mpr hname
    have hfind : c.entities.find? (fun e => sameIgnoringCase e.1 name) = some (key, s) :=
      find?_of_least (p := fun k => sameIgnoringCase k name) hkeys hs
        (sameIgnoringCase_iff.mpr h.same)
        (fun k hk hsame => h.least hname k hk (sameIgnoringCase_iff.mp hsame))
    rw [settings?, hnone, hfind, hlookup]
    rfl

/-- There is a key to take settings from as soon as one spells the name in any letters. -/
theorem exists_chosen {k : String} (hk : k ∈ keys) (hsame : small k = small name) :
    ∃ key, Chosen keys name key := by
  by_cases hname : name ∈ keys
  · exact ⟨name, hname, rfl, fun _ => rfl, fun hnot => absurd hname hnot⟩
  · obtain ⟨key, hkey, hleast⟩ := Finset.exists_min_image
      (keys.toFinset.filter (fun k => small k = small name)) id
      ⟨k, Finset.mem_filter.mpr ⟨List.mem_toFinset.mpr hk, hsame⟩⟩
    obtain ⟨hkey, hkeysame⟩ := Finset.mem_filter.mp hkey
    exact ⟨key, List.mem_toFinset.mp hkey, hkeysame, fun h => absurd h hname, fun _ k hk hsame =>
      hleast k (Finset.mem_filter.mpr ⟨List.mem_toFinset.mpr hk, hsame⟩)⟩

end CrudLayers.Config
