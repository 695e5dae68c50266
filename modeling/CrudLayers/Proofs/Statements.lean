import CrudLayers.Proofs.Assembly
import Mathlib.Data.List.Lattice
import Mathlib.Data.List.Nodup
import Mathlib.Data.List.Pairwise

namespace CrudLayers

theorem nodup_addNew {known l : List String} (h : known.Nodup) : (addNew known l).Nodup := by
  induction l generalizing known with
  | nil => exact h
  | cons s rest ih =>
    rw [addNew]
    apply ih
    split
    · exact h
    · rename_i hs
      rw [← List.concat_eq_append, List.nodup_concat]
      exact ⟨hs, h⟩

namespace Import

/-- Each module has one statement, and no statement has a name twice. -/
structure Tidy (imports : List Import) : Prop where
  sources : (imports.map Import.source).Nodup
  names : ∀ i ∈ imports, i.names.Nodup

theorem tidy_nil : Tidy [] :=
  ⟨List.nodup_nil, List.forall_mem_nil _⟩

theorem mem_sources_merge {origin : Origin} {source s : String} {names : List String}
    {imports : List Import} :
    s ∈ (merge origin source names imports).map Import.source ↔
      s = source ∨ s ∈ imports.map Import.source := by
  induction imports with
  | nil => simp [merge]
  | cons i rest ih =>
    rw [merge]
    split
    · rename_i hi
      simp [hi]
    · rw [List.map_cons, List.mem_cons, ih, List.map_cons, List.mem_cons, or_left_comm]

variable {imports : List Import}

/-- Names go to the module's statement if there is one, so no module gets a second. -/
theorem Tidy.merge (h : Tidy imports) (origin : Origin) (source : String) (names : List String) :
    Tidy (merge origin source names imports) := by
  induction imports with
  | nil =>
    refine ⟨List.nodup_singleton _, ?_⟩
    intro i hi
    rw [List.mem_singleton.mp hi]
    exact nodup_addNew List.nodup_nil
  | cons i rest ih =>
    obtain ⟨hi, hrest⟩ := List.forall_mem_cons.mp h.names
    obtain ⟨hnew, hsources⟩ := List.nodup_cons.mp h.sources
    rw [Import.merge]
    split
    · exact ⟨h.sources, List.forall_mem_cons.mpr ⟨nodup_addNew hi, hrest⟩⟩
    · rename_i hother
      have htidy := ih ⟨hsources, hrest⟩
      refine ⟨List.nodup_cons.mpr ⟨?_, htidy.sources⟩, List.forall_mem_cons.mpr ⟨hi, htidy.names⟩⟩
      rw [mem_sources_merge]
      exact not_or.mpr ⟨hother, hnew⟩

theorem Tidy.add (h : Tidy imports) (origin : Origin) (source : String) (names : List String) :
    Tidy (add imports origin source names) := by
  unfold Import.add
  split
  · exact h
  · exact h.merge origin source names

/-- Grouping moves statements around: each stands in the group of its origin, and in no other. -/
theorem grouped_perm (imports : List Import) : (grouped imports).Perm imports := by
  rw [List.perm_iff_count]
  intro i
  have hgroup : ∀ o : Origin, (imports.filter (fun j => j.origin = o)).count i =
      if i.origin = o then imports.count i else 0 := by
    intro o
    split
    · rename_i ho
      exact List.count_filter (by simpa using ho)
    · rename_i ho
      rw [List.count_eq_zero, List.mem_filter]
      exact fun hi => ho (by simpa using hi.2)
  simp only [grouped, Origin.all, List.flatMap_cons, List.flatMap_nil, List.count_append, hgroup]
  cases i.origin <;> simp

theorem Tidy.grouped (h : Tidy imports) : Tidy (grouped imports) := by
  refine ⟨((grouped_perm imports).map _).nodup_iff.mpr h.sources, ?_⟩
  intro i hi
  exact h.names i (mem_grouped.mp hi)

/-- Among tidy statements a symbol stands twice only if two modules have it. -/
theorem Tidy.nodup_names_iff (h : Tidy imports) : (imports.flatMap Import.names).Nodup ↔
    ∀ home home' symbol, (home, symbol) ∈ pairs imports → (home', symbol) ∈ pairs imports →
      home = home' := by
  have hsources : imports.Pairwise (fun i j => i.source ≠ j.source) :=
    List.pairwise_map.mp h.sources
  rw [List.nodup_flatMap]
  constructor
  · rintro ⟨_, hpairwise⟩ home home' symbol hl hr
    obtain ⟨i, hi, rfl, his⟩ := mem_pairs.mp hl
    obtain ⟨j, hj, rfl, hjs⟩ := mem_pairs.mp hr
    by_contra hne
    have hij : i ≠ j := fun he => hne (congrArg Import.source he)
    have hsymm : Std.Symm (Function.onFun List.Disjoint Import.names) :=
      ⟨fun _ _ hd => List.Disjoint.symm hd⟩
    have hdisjoint := hpairwise.forall hi hj hij
    exact hdisjoint his hjs
  · intro hone
    refine ⟨h.names, hsources.imp_of_mem ?_⟩
    intro i j hi hj hne symbol his hjs
    exact hne (hone i.source j.source symbol (mem_pairs.mpr ⟨i, hi, rfl, his⟩)
      (mem_pairs.mpr ⟨j, hj, rfl, hjs⟩))

end Import

namespace Assembly

variable {a : Assembly}

theorem tidy_start {layer : Layer} {path className : String} {c : Collaborator} :
    Import.Tidy (start layer path className c).imports :=
  Import.tidy_nil

theorem tidy_decorate (h : Import.Tidy a.imports) (d : Decorator) :
    Import.Tidy (a.decorate d).imports :=
  h

theorem tidy_require (h : Import.Tidy a.imports) (origin : Origin) (source : String)
    (names : List String) : Import.Tidy (a.require origin source names).imports :=
  h.add origin source names

theorem tidy_methods (h : Import.Tidy a.imports) (ms : List Method) :
    Import.Tidy (a.methods ms).imports := by
  rwa [imports_methods]

theorem tidy_requireTypes (h : Import.Tidy a.imports) (b : Blueprint) (names : ModuleNames)
    (used : List TypeRef) : Import.Tidy (a.requireTypes b names used).imports := by
  unfold requireTypes
  apply tidy_require
  apply tidy_require
  apply tidy_require
  exact tidy_require h _ _ _

theorem tidy_finish (h : Import.Tidy a.imports) : Import.Tidy a.finish.imports :=
  h.grouped

end Assembly

end CrudLayers
