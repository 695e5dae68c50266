import CrudLayers.Config.Settings
import CrudLayers.Proofs.Layering
import CrudLayers.Proofs.Variables

namespace CrudLayers

/-- One of the names that generated code takes from its surroundings. -/
inductive ModuleField where
  | injectable
  | injectRepository
  | exception
  | exceptionClass
  | orm
  | graphql
  | entityDir
deriving DecidableEq

namespace ModuleField

def all : List ModuleField :=
  [injectable, injectRepository, exception, exceptionClass, orm, graphql, entityDir]

def key : ModuleField → String
  | injectable => "injectable"
  | injectRepository => "inject_repository"
  | exception => "exception"
  | exceptionClass => "exception_class"
  | orm => "orm"
  | graphql => "graphql"
  | entityDir => "entity_dir"

def get : ModuleField → ModuleNames → String
  | injectable => ModuleNames.injectable
  | injectRepository => ModuleNames.injectRepository
  | exception => ModuleNames.exception
  | exceptionClass => ModuleNames.exceptionClass
  | orm => ModuleNames.orm
  | graphql => ModuleNames.graphql
  | entityDir => ModuleNames.entityDir

theorem mem_all (f : ModuleField) : f ∈ all := by
  cases f <;> simp [all]

theorem key_injective {f g : ModuleField} (h : f.key = g.key) : f = g := by
  cases f <;> cases g <;> simp [key] at h ⊢

end ModuleField

namespace Setting

def text? : Setting → Option String
  | text s => some s
  | _ => none

def texts? : Setting → Option (List String)
  | list items => items.mapM text?
  | _ => none

theorem text?_eq_some {v : Setting} {s : String} : v.text? = some s ↔ v = text s := by
  cases v <;> simp [text?]

theorem texts?_eq_some {v : Setting} {l : List String} :
    v.texts? = some l ↔ v = list (l.map text) := by
  have hitems : ∀ items : List Setting, items.mapM text? = some l ↔ items = l.map text := by
    intro items
    induction items generalizing l with
    | nil => cases l <;> simp
    | cons v rest ih =>
      cases l with
      | nil => simp [Option.bind_eq_some_iff]
      | cons s l => simp [Option.bind_eq_some_iff, text?_eq_some, ih]
  cases v with
  | list items => simp [texts?, hitems]
  | _ => simp [texts?]

end Setting

/-- A single setting that a configuration has a value for. -/
inductive Leaf where
  | baseDir
  | moduleName (f : ModuleField)
  | excludes (entity : String)
  | moduleDir (entity : String)
  | relations (entity : String)

namespace Leaf

open Setting

def way : Leaf → List String
  | baseDir => ["base_dir"]
  | moduleName f => ["runtime", f.key]
  | excludes entity => ["entities", entity, "excludes"]
  | moduleDir entity => ["entities", entity, "module_dir"]
  | relations entity => ["entities", entity, "relations"]

abbrev Content : Leaf → Type
  | moduleName _ => String
  | excludes _ => List String
  | baseDir | moduleDir _ | relations _ => Option String

def read : (l : Leaf) → Setting → Option l.Content
  | moduleName _, v => v.text?
  | excludes _, v => v.texts?
  | baseDir, v | moduleDir _, v | relations _, v => v.text?.map some

def get : (l : Leaf) → Config → l.Content
  | baseDir, c => c.baseDir
  | moduleName f, c => f.get c.modules
  | excludes entity, c => ((c.entities.lookup entity).getD .none).excludes
  | moduleDir entity, c => ((c.entities.lookup entity).getD .none).moduleDir
  | relations entity, c => ((c.entities.lookup entity).getD .none).relations

/-- No leaf lies behind another one. -/
theorem way_of_prefix {l l' : Leaf} (h : l.way <+: l'.way) : l'.way = l.way := by
  cases l <;> cases l' <;> simp [way] at h ⊢ <;> simp [h]

theorem way_injective {l l' : Leaf} (h : l.way = l'.way) : l = l' := by
  cases l <;> cases l' <;> simp [way] at h ⊢ <;> first | exact h | exact ModuleField.key_injective h

theorem exists_way (l : Leaf) : ∃ key rest, l.way = key :: rest := by
  cases l <;> exact ⟨_, _, rfl⟩

variable {l : Leaf} {v : Setting}

/-- A setting that a leaf takes is a text or a list of texts. -/
theorem shape_of_read (h : (l.read v).isSome) :
    (∃ s, v = text s) ∨ ∃ texts : List String, v = list (texts.map text) := by
  obtain ⟨x, hx⟩ := Option.isSome_iff_exists.mp h
  cases l with
  | moduleName f => exact .inl ⟨x, text?_eq_some.mp hx⟩
  | excludes entity => exact .inr ⟨x, texts?_eq_some.mp hx⟩
  | baseDir | moduleDir entity | relations entity =>
    obtain ⟨s, hs, _⟩ := Option.map_eq_some_iff.mp hx
    exact .inl ⟨s, text?_eq_some.mp hs⟩

theorem ordered_of_read (h : (l.read v).isSome) : v.Ordered := by
  rcases shape_of_read h with ⟨s, rfl⟩ | ⟨texts, rfl⟩
  · exact .text s
  · apply Ordered.list
    intro item hitem
    obtain ⟨s, _, rfl⟩ := List.mem_map.mp hitem
    exact .text s

theorem not_table_of_read (h : (l.read v).isSome) (inner : List (String × Setting)) :
    v ≠ table inner := by
  rintro rfl
  rcases shape_of_read h with ⟨s, hs⟩ | ⟨texts, hs⟩ <;> cases hs

end Leaf

/-- Every leaf can be reached in the settings, and has the type that it expects where it is set. -/
structure WellTyped (entries : List (String × Setting)) : Prop where
  tables : ∀ l : Leaf, Setting.Passable entries l.way
  leaves : ∀ (l : Leaf) (v : Setting), Setting.said entries l.way = some v → (l.read v).isSome

namespace WellTyped

open Setting

variable {l : Leaf} {v : Setting} {key : String} {rest : List String}
  {lower upper : List (String × Setting)}

theorem nil : WellTyped [] where
  tables l := passable_nil l.way
  leaves l v hv := by
    rw [said_nil] at hv
    cases hv

/-- Each entity that the settings speak of stands for a table. -/
theorem table_of_lookup (h : WellTyped lower) {entity : String} {v : Setting}
    (hv : (under "entities" lower).lookup entity = some v) :
    v = table (under entity (under "entities" lower)) := by
  obtain ⟨inner, rfl⟩ := (h.tables (.excludes entity)).2.1 v hv
  rw [under_of_lookup hv]

/-- One leaf by itself says nothing of the others. -/
theorem said_single (hway : l.way = key :: rest) (hv : (l.read v).isSome) (l' : Leaf) :
    said [(key, v.nested rest)] l'.way = if l'.way = l.way then some v else none := by
  split
  · rename_i heq
    rw [heq, hway, said_nested_self]
  · rename_i hne
    apply said_nested_of_not_prefix (Leaf.not_table_of_read hv)
    intro hprefix
    rw [← hway] at hprefix
    exact hne (Leaf.way_of_prefix hprefix).symm

theorem single (hway : l.way = key :: rest) (hv : (l.read v).isSome) :
    WellTyped [(key, v.nested rest)] where
  tables l' := by
    apply passable_nested
    rw [← hway]
    exact Leaf.way_of_prefix
  leaves l' w hw := by
    rw [said_single hway hv] at hw
    split at hw
    · rename_i heq
      cases hw
      exact Leaf.way_injective heq ▸ hv
    · cases hw

/-- Laid over one another, well-typed settings say of each leaf what the upper ones say of it, or
else the lower ones. -/
theorem said_layEntries (hlower : WellTyped lower) (hupper : WellTyped upper)
    (hordered : (table upper).Ordered) (l : Leaf) : said (Setting.layEntries lower upper) l.way =
      (said upper l.way).or (said lower l.way) :=
  Setting.said_layEntries hordered (hlower.tables l) (hupper.tables l)
    (fun v hv => Leaf.not_table_of_read (hupper.leaves l v hv))

theorem layEntries (hlower : WellTyped lower) (hupper : WellTyped upper)
    (hordered : (table upper).Ordered) : WellTyped (Setting.layEntries lower upper) where
  tables l := (hlower.tables l).layEntries hordered (hupper.tables l)
  leaves l v hv := by
    rw [hlower.said_layEntries hupper hordered] at hv
    rcases Option.or_eq_some_iff.mp hv with hv | ⟨_, hv⟩
    · exact hupper.leaves l v hv
    · exact hlower.leaves l v hv

/-- The entities that settings speak of, by their keys. -/
theorem mem_entities_layEntries (hlower : WellTyped lower) (hupper : WellTyped upper)
    (hordered : (table upper).Ordered) {entity : String} :
    entity ∈ (under "entities" (Setting.layEntries lower upper)).map Prod.fst ↔
      entity ∈ (under "entities" lower).map Prod.fst ∨
        entity ∈ (under "entities" upper).map Prod.fst := by
  have hlow := (hlower.tables (.excludes entity)).1
  have hhigh := (hupper.tables (.excludes entity)).1
  rw [under_layEntries hordered hlow hhigh]
  exact mem_keys_layEntries hordered.under.keys

end WellTyped

namespace Environment

open Setting

/-- The keys in the name of a variable, in the letters of the name. -/
def spelledKeys (name : String) : List String :=
  (segments (trimBlank (dotted ((trimBlank name.toList).drop variableStart.toList.length)))).map
    String.ofList

/-- A variable leads to the place that its name spells, in small letters. -/
theorem way_eq_small {name : String} {way : List String} (h : way? name = some way) :
    way = (spelledKeys name).map small := by
  unfold way? at h
  simp only at h
  split at h
  · split at h
    · cases h
    · simp only [Option.some.injEq] at h
      rw [← h, spelledKeys, List.map_map]
      apply List.map_congr_left
      intro piece _
      simp [small]
  · cases h

/-- The entity that a variable speaks of, in the letters of its name. -/
def entityKey? (name : String) : Option String :=
  match way? name with
  | some ["entities", _, _] => (spelledKeys name)[1]?
  | _ => none

theorem small_entityKey? {name entity last : String}
    (h : way? name = some ["entities", entity, last]) :
    (entityKey? name).map small = some entity := by
  have hsmall := congrArg (fun way : List String => way[1]?) (way_eq_small h)
  simpa [entityKey?, h] using hsmall.symm

theorem entityKey?_eq_none {name : String} {way : List String} (h : way? name = some way)
    (hhead : way.head? ≠ some "entities") : entityKey? name = none := by
  rw [entityKey?, h]
  split
  · rename_i heq
    cases heq
    exact absurd rfl hhead
  · rfl

/-- What a variable puts under the entities is the entity that its name spells. -/
theorem mem_entities_single {name key entity : String} {rest : List String} {l : Leaf} {v : Setting}
    (hway : way? name = some l.way) (hl : l.way = key :: rest) :
    entity ∈ (under "entities" [(key, v.nested rest)]).map Prod.fst ↔
      (entityKey? name).map small = some entity := by
  cases l with
  | baseDir | moduleName f =>
    have hne : "entities" ≠ key := by
      rw [← (List.cons.inj hl).1]
      simp
    rw [under_nested_of_ne hne, entityKey?_eq_none hway (by simp [Leaf.way])]
    simp
  | excludes other | moduleDir other | relations other =>
    rw [small_entityKey? hway, ← (List.cons.inj hl).1, ← (List.cons.inj hl).2, under_nested]
    simp [eq_comm]

/-- What the last of the variables for a place says. -/
def given (environment : List (String × String)) (way : List String) : Option Setting :=
  (environment.reverse.find? (fun e => way? e.1 = some way)).map (fun e => value e.2)

theorem given_concat (environment : List (String × String)) (e : String × String)
    (way : List String) : given (environment ++ [e]) way =
      if way? e.1 = some way then some (value e.2) else given environment way := by
  rw [given, List.reverse_append, List.reverse_singleton, List.singleton_append, List.find?_cons]
  split <;> simp_all [given]

/-- Every variable of the configuration is one for a leaf, and holds what the leaf takes. -/
def SetsLeaves (environment : List (String × String)) : Prop :=
  ∀ e ∈ environment, way? e.1 = none ∨
    ∃ l : Leaf, way? e.1 = some l.way ∧ (l.read (value e.2)).isSome

/-- What settings made from variables are like. -/
structure Reflects (environment : List (String × String)) (entries : List (String × Setting)) :
    Prop where
  ordered : (table entries).Ordered
  wellTyped : WellTyped entries
  leaves : ∀ l : Leaf, said entries l.way = given environment l.way
  entities : ∀ entity, entity ∈ (under "entities" entries).map Prod.fst ↔
    entity ∈ (environment.filterMap (fun e => entityKey? e.1)).map small

theorem reflects_nil : Reflects [] [] where
  ordered := ordered_empty
  wellTyped := .nil
  leaves l := said_nil l.way
  entities entity := by simp [under]

/-- One more variable has its say on its own leaf. -/
theorem Reflects.add {environment : List (String × String)} {entries : List (String × Setting)}
    {e : String × String} {l : Leaf} (h : Reflects environment entries)
    (hway : way? e.1 = some l.way) (hv : (l.read (value e.2)).isSome) :
    Reflects (environment ++ [e]) (addVariable entries e) := by
  obtain ⟨key, rest, hl⟩ := l.exists_way
  have hsingle : WellTyped [(key, (value e.2).nested rest)] := .single hl hv
  have hordered : (table [(key, (value e.2).nested rest)]).Ordered :=
    ordered_nested (key :: rest) (Leaf.ordered_of_read hv)
  have hadd : addVariable entries e = layEntries entries [(key, (value e.2).nested rest)] := by
    rw [addVariable, hway, hl]
  rw [hadd]
  refine ⟨h.ordered.layEntries hordered, h.wellTyped.layEntries hsingle hordered, ?_, ?_⟩
  · intro l'
    rw [h.wellTyped.said_layEntries hsingle hordered, WellTyped.said_single hl hv, given_concat,
      hway, h.leaves]
    by_cases heq : l'.way = l.way
    · simp [heq]
    · simp [heq, Ne.symm heq]
  · intro entity
    rw [h.wellTyped.mem_entities_layEntries hsingle hordered, h.entities, List.filterMap_append,
      List.map_append, List.mem_append]
    apply or_congr_right
    rw [mem_entities_single hway hl]
    simp [Option.map_eq_some_iff]

/-- A variable that is none of the configuration has no say. -/
theorem Reflects.skip {environment : List (String × String)} {entries : List (String × Setting)}
    {e : String × String} (h : Reflects environment entries) (hway : way? e.1 = none) :
    Reflects (environment ++ [e]) (addVariable entries e) := by
  have hadd : addVariable entries e = entries := by
    rw [addVariable, hway]
  rw [hadd]
  refine ⟨h.ordered, h.wellTyped, ?_, ?_⟩
  · intro l
    rw [h.leaves, given_concat, hway]
    simp
  · intro entity
    rw [h.entities]
    simp [entityKey?, hway]

theorem reflects_settings {environment : List (String × String)} (h : SetsLeaves environment) :
    Reflects environment (settings environment) := by
  induction environment using List.reverseRecOn with
  | nil => exact reflects_nil
  | append_singleton rest e ih =>
    obtain ⟨hrest, he⟩ := List.forall_mem_append.mp h
    have hstep : settings (rest ++ [e]) = addVariable (settings rest) e := by
      rw [settings_eq, List.foldl_append, ← settings_eq]
      rfl
    rw [hstep]
    rcases he e (List.mem_singleton.mpr rfl) with hnone | ⟨l, hway, hv⟩
    · exact (ih hrest).skip hnone
    · exact (ih hrest).add hway hv

end Environment

end CrudLayers
