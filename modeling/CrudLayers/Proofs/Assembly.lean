import CrudLayers.Layer.Types

namespace CrudLayers

namespace Import

/-- Each imported symbol with the module that it comes from. -/
def pairs (imports : List Import) : List (String × String) :=
  imports.flatMap (fun i => i.names.map (fun symbol => (i.source, symbol)))

theorem mem_pairs {home symbol : String} {imports : List Import} :
    (home, symbol) ∈ pairs imports ↔ ∃ i ∈ imports, i.source = home ∧ symbol ∈ i.names := by
  simp only [pairs, List.mem_flatMap, List.mem_map, Prod.mk.injEq]
  constructor
  · rintro ⟨i, hi, s, hs, rfl, rfl⟩
    exact ⟨i, hi, rfl, hs⟩
  · rintro ⟨i, hi, rfl, hs⟩
    exact ⟨i, hi, symbol, hs, rfl, rfl⟩

/-- Merging finds the module's statement or makes one; either way exactly the names come in. -/
theorem mem_pairs_merge {origin : Origin} {source home symbol : String} {names : List String}
    {imports : List Import} :
    (home, symbol) ∈ pairs (merge origin source names imports) ↔
      (home, symbol) ∈ pairs imports ∨ home = source ∧ symbol ∈ names := by
  induction imports with
  | nil => simp [merge, mem_pairs, mem_addNew, eq_comm]
  | cons i rest ih =>
    simp only [mem_pairs, List.mem_cons, exists_eq_or_imp] at ih ⊢
    by_cases hm : i.source = source
    · simp only [merge, hm, if_true, List.mem_cons, exists_eq_or_imp, mem_addNew]
      grind
    · simp only [merge, hm, if_false, List.mem_cons, exists_eq_or_imp, ih]
      grind

theorem mem_pairs_add {origin : Origin} {source home symbol : String} {names : List String}
    {imports : List Import} :
    (home, symbol) ∈ pairs (add imports origin source names) ↔
      (home, symbol) ∈ pairs imports ∨ home = source ∧ symbol ∈ names := by
  unfold add
  split
  · rename_i hn
    simp [hn]
  · exact mem_pairs_merge

/-- Every origin has its group, so that grouping keeps every statement. -/
theorem mem_grouped {i : Import} {imports : List Import} :
    i ∈ grouped imports ↔ i ∈ imports := by
  simp only [grouped, List.mem_flatMap, List.mem_filter, decide_eq_true_eq]
  constructor
  · rintro ⟨_, _, hi, _⟩
    exact hi
  · intro hi
    exact ⟨i.origin, i.origin.mem_all, hi, rfl⟩

theorem mem_pairs_grouped {home symbol : String} {imports : List Import} :
    (home, symbol) ∈ pairs (grouped imports) ↔ (home, symbol) ∈ pairs imports := by
  simp only [mem_pairs, mem_grouped]

end Import

namespace SourceFile

def importPairs (f : SourceFile) : List (String × String) :=
  Import.pairs f.imports

end SourceFile

namespace Assembly

/-- The symbols imported so far, with their modules. -/
def pairs (a : Assembly) : List (String × String) :=
  Import.pairs a.imports

@[simp]
theorem pairs_start (layer : Layer) (path className : String) (c : Collaborator) :
    (start layer path className c).pairs = [] :=
  rfl

@[simp]
theorem pairs_decorate (a : Assembly) (d : Decorator) : (a.decorate d).pairs = a.pairs :=
  rfl

@[simp]
theorem mem_pairs_require {a : Assembly} {origin : Origin} {source home symbol : String}
    {names : List String} :
    (home, symbol) ∈ (a.require origin source names).pairs ↔
      (home, symbol) ∈ a.pairs ∨ home = source ∧ symbol ∈ names :=
  Import.mem_pairs_add

theorem methods_eq (a : Assembly) (ms : List Method) :
    a.methods ms = { a with decl := { a.decl with methods := a.decl.methods ++ ms } } := by
  induction ms generalizing a with
  | nil => simp [methods]
  | cons m rest ih =>
    have hstep : a.methods (m :: rest) = (a.method m).methods rest := rfl
    rw [hstep, ih]
    simp [method]

@[simp]
theorem pairs_methods (a : Assembly) (ms : List Method) : (a.methods ms).pairs = a.pairs := by
  rw [methods_eq]
  rfl

@[simp]
theorem mem_pairs_finish {a : Assembly} {home symbol : String} :
    (home, symbol) ∈ a.finish.importPairs ↔ (home, symbol) ∈ a.pairs :=
  Import.mem_pairs_grouped

@[simp]
theorem decl_start (layer : Layer) (path className : String) (c : Collaborator) :
    (start layer path className c).decl = ⟨className, [], c, []⟩ :=
  rfl

@[simp]
theorem decl_decorate (a : Assembly) (d : Decorator) :
    (a.decorate d).decl = { a.decl with decorators := a.decl.decorators ++ [d] } :=
  rfl

@[simp]
theorem decl_require (a : Assembly) (origin : Origin) (source : String) (names : List String) :
    (a.require origin source names).decl = a.decl :=
  rfl

@[simp]
theorem decl_requireTypes (a : Assembly) (b : Blueprint) (names : ModuleNames)
    (used : List TypeRef) : (a.requireTypes b names used).decl = a.decl :=
  rfl

@[simp]
theorem decl_methods (a : Assembly) (ms : List Method) :
    (a.methods ms).decl = { a.decl with methods := a.decl.methods ++ ms } := by
  rw [methods_eq]

@[simp]
theorem decl_finish (a : Assembly) : a.finish.decl = a.decl :=
  rfl

@[simp]
theorem imports_start (layer : Layer) (path className : String) (c : Collaborator) :
    (start layer path className c).imports = [] :=
  rfl

@[simp]
theorem imports_decorate (a : Assembly) (d : Decorator) : (a.decorate d).imports = a.imports :=
  rfl

@[simp]
theorem imports_require (a : Assembly) (origin : Origin) (source : String) (names : List String) :
    (a.require origin source names).imports = Import.add a.imports origin source names :=
  rfl

@[simp]
theorem imports_methods (a : Assembly) (ms : List Method) :
    (a.methods ms).imports = a.imports := by
  rw [methods_eq]

@[simp]
theorem imports_finish (a : Assembly) : a.finish.imports = Import.grouped a.imports :=
  rfl

@[simp]
theorem path_start (layer : Layer) (path className : String) (c : Collaborator) :
    (start layer path className c).path = path :=
  rfl

@[simp]
theorem path_decorate (a : Assembly) (d : Decorator) : (a.decorate d).path = a.path :=
  rfl

@[simp]
theorem path_require (a : Assembly) (origin : Origin) (source : String) (names : List String) :
    (a.require origin source names).path = a.path :=
  rfl

@[simp]
theorem path_requireTypes (a : Assembly) (b : Blueprint) (names : ModuleNames)
    (used : List TypeRef) : (a.requireTypes b names used).path = a.path :=
  rfl

@[simp]
theorem path_finish (a : Assembly) : a.finish.path = a.path :=
  rfl

@[simp]
theorem path_methods (a : Assembly) (ms : List Method) : (a.methods ms).path = a.path := by
  rw [methods_eq]

end Assembly

end CrudLayers
