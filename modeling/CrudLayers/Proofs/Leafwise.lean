import CrudLayers.Proofs.Leaves
import CrudLayers.Proofs.Loading
import CrudLayers.Proofs.Reading

namespace CrudLayers

open Attempt Setting

section Success

variable {ρ α : Type} {fields : List (FieldReader ρ)} {key : String} {π : ρ → α}
  {g : List String → Setting → Except ShapeFault α} {way : List String}
  {entries : List (String × Setting)} {r r' : ρ}

/-- Reading succeeds if every entry that names a field can be read into it. -/
theorem readKeyed_ok (h : ∀ e ∈ entries, ∀ f ∈ fields, f.key = e.1 →
    ∀ r, ∃ r', f.read (way ++ [e.1]) e.2 r = .ok r') :
    ∃ r', readKeyed fields way entries r = .ok r' := by
  induction entries generalizing r with
  | nil => exact ⟨r, rfl⟩
  | cons e rest ih =>
    obtain ⟨he, hrest⟩ := List.forall_mem_cons.mp h
    rw [readKeyed]
    split
    · rename_i f hf
      have hkey : f.key = e.1 := by simpa using List.find?_some hf
      obtain ⟨m, hm⟩ := he f (List.mem_of_find?_eq_some hf) hkey r
      obtain ⟨r', hr'⟩ := ih hrest (r := m)
      exact ⟨r', except_bind_eq_ok.mpr ⟨m, hm, hr'⟩⟩
    · exact ih hrest

theorem readEntries_ok {read : List String → Setting → Except ShapeFault α}
    (h : ∀ e ∈ entries, ∃ a, read (way ++ [e.1]) e.2 = .ok a) :
    ∃ as, readEntries read way entries = .ok as := by
  induction entries with
  | nil => exact ⟨[], rfl⟩
  | cons e rest ih =>
    obtain ⟨⟨a, ha⟩, hrest⟩ := List.forall_mem_cons.mp h
    obtain ⟨as, has⟩ := ih hrest
    exact ⟨(e.1, a) :: as, except_bind_eq_ok.mpr ⟨a, ha, except_bind_eq_ok.mpr ⟨as, has, rfl⟩⟩⟩

/-- A part of a record is what stands under its key, or else what it was before. -/
theorem Reads.value (h : Reads fields key π g) (hkeys : (entries.map Prod.fst).Pairwise (· < ·))
    (hread : CrudLayers.readKeyed fields way entries r = .ok r') {t : Setting → Option α}
    (ht : ∀ way v x, t v = some x → g way v = .ok x)
    (hsome : ∀ v, entries.lookup key = some v → (t v).isSome) :
    π r' = ((entries.lookup key).bind t).getD (π r) := by
  have hunder := h.readKeyed hkeys hread
  rw [readUnder] at hunder
  cases hlookup : entries.lookup key with
  | none =>
    rw [hlookup] at hunder
    exact (Except.ok.inj hunder).symm
  | some v =>
    obtain ⟨x, hx⟩ := Option.isSome_iff_exists.mp (hsome v hlookup)
    rw [hlookup] at hunder
    have hvalue : g (way ++ [key]) v = .ok (π r') := hunder
    rw [ht _ _ _ hx] at hvalue
    simp [hx, Except.ok.inj hvalue]

theorem asText_of_text? {v : Setting} {s : String} (shape : Shape) (h : v.text? = some s) :
    v.asText shape way = .ok s := by
  rw [text?_eq_some.mp h]
  rfl

theorem asText_map_of_text? {v : Setting} {x : Option String} (shape : Shape)
    (h : v.text?.map some = some x) : (v.asText shape way).map some = .ok x := by
  obtain ⟨s, hs, rfl⟩ := Option.map_eq_some_iff.mp h
  rw [asText_of_text? shape hs]
  rfl

theorem readTexts_of_texts? {v : Setting} {l : List String} (h : v.texts? = some l) :
    readTexts way v = .ok l := by
  have hitems : ∀ (texts : List String) (i : Nat),
      readItems (fun way v => v.asText .text way) way i (texts.map text) = .ok texts := by
    intro texts
    induction texts with
    | nil => exact fun i => rfl
    | cons s rest ih =>
      intro i
      exact except_bind_eq_ok.mpr ⟨s, rfl, except_bind_eq_ok.mpr ⟨rest, ih (i + 1), rfl⟩⟩
  rw [texts?_eq_some.mp h]
  exact hitems l 0

end Success

namespace ModuleField

def set : ModuleField → ModuleNames → String → ModuleNames
  | injectable, m, s => { m with injectable := s }
  | injectRepository, m, s => { m with injectRepository := s }
  | exception, m, s => { m with exception := s }
  | exceptionClass, m, s => { m with exceptionClass := s }
  | orm, m, s => { m with orm := s }
  | graphql, m, s => { m with graphql := s }
  | entityDir, m, s => { m with entityDir := s }

theorem get_set (f : ModuleField) (m : ModuleNames) (s : String) : f.get (f.set m s) = s := by
  cases f <;> rfl

theorem get_set_of_ne {f g : ModuleField} (h : f ≠ g) (m : ModuleNames) (s : String) :
    f.get (g.set m s) = f.get m := by
  cases f <;> cases g <;> first | exact absurd rfl h | rfl

theorem fields_eq : ModuleNames.fields = all.map (fun f => .text f.key f.set) := rfl

theorem reads (f : ModuleField) :
    Reads ModuleNames.fields f.key f.get (fun way v => v.asText .text way) where
  known := by
    rw [fields_eq]
    exact ⟨_, List.mem_map_of_mem f.mem_all, rfl⟩
  each := by
    intro reader hreader
    rw [fields_eq] at hreader
    obtain ⟨g, _, rfl⟩ := List.mem_map.mp hreader
    by_cases h : f = g
    · subst h
      exact .inl ⟨rfl, FieldReader.gives_of_set (fun way v r s hs => by rw [hs, get_set])⟩
    · exact .inr ⟨fun hkey => h (key_injective hkey).symm,
        FieldReader.keeps_of_set (fun r s => get_set_of_ne h r s)⟩

end ModuleField

/-- Module names are read field by field. -/
theorem ModuleNames.exists_ofSetting {entries : List (String × Setting)} {way : List String}
    (hkeys : (entries.map Prod.fst).Pairwise (· < ·))
    (h : ∀ (f : ModuleField) (v : Setting), entries.lookup f.key = some v → v.text?.isSome) :
    ∃ m, ofSetting way (table entries) = .ok m ∧
      ∀ f : ModuleField, f.get m = ((entries.lookup f.key).bind text?).getD (f.get standard) := by
  have hfields : ∀ e ∈ entries, ∀ reader ∈ fields, reader.key = e.1 →
      ∀ r, ∃ r', reader.read (way ++ [e.1]) e.2 r = .ok r' := by
    intro e he reader hreader hkey r
    rw [ModuleField.fields_eq] at hreader
    obtain ⟨f, _, rfl⟩ := List.mem_map.mp hreader
    change f.key = e.1 at hkey
    have hlookup : entries.lookup f.key = some e.2 := lookup_of_mem hkeys (hkey ▸ he)
    obtain ⟨s, hs⟩ := Option.isSome_iff_exists.mp (h f e.2 hlookup)
    exact ⟨f.set r s, except_map_eq_ok.mpr ⟨s, asText_of_text? .text hs, rfl⟩⟩
  obtain ⟨m, hm⟩ := readKeyed_ok hfields (r := standard)
  refine ⟨m, hm, fun f => ?_⟩
  exact f.reads.value hkeys hm (fun way v s hs => asText_of_text? .text hs) (h f)

namespace EntitySettings

theorem reads_excludes : Reads fields "excludes" EntitySettings.excludes readTexts where
  known := ⟨_, List.mem_cons_self, rfl⟩
  each := by
    intro f hf
    simp only [fields, List.mem_cons, List.not_mem_nil, or_false] at hf
    rcases hf with rfl | rfl | rfl
    · exact .inl ⟨rfl, FieldReader.gives_of_set (fun _ _ _ _ h => h)⟩
    · exact .inr ⟨by simp [FieldReader.text], FieldReader.keeps_of_set (fun _ _ => rfl)⟩
    · exact .inr ⟨by simp [FieldReader.text], FieldReader.keeps_of_set (fun _ _ => rfl)⟩

theorem reads_relations : Reads fields "relations" EntitySettings.relations
    (fun way v => (v.asText .text way).map some) where
  known := ⟨_, List.mem_cons_of_mem _ (List.mem_cons_of_mem _ List.mem_cons_self), rfl⟩
  each := by
    intro f hf
    simp only [fields, List.mem_cons, List.not_mem_nil, or_false] at hf
    rcases hf with rfl | rfl | rfl
    · exact .inr ⟨by simp, FieldReader.keeps_of_set (fun _ _ => rfl)⟩
    · exact .inr ⟨by simp [FieldReader.text], FieldReader.keeps_of_set (fun _ _ => rfl)⟩
    · exact .inl ⟨rfl, FieldReader.gives_of_set (fun _ _ _ _ h => by rw [h]; rfl)⟩

/-- The leaves of an entity are read from its own table. -/
theorem exists_ofSetting {entries : List (String × Setting)} {way : List String}
    (hkeys : (entries.map Prod.fst).Pairwise (· < ·))
    (hexcludes : ∀ v, entries.lookup "excludes" = some v → v.texts?.isSome)
    (hmoduleDir : ∀ v, entries.lookup "module_dir" = some v → (v.text?.map some).isSome)
    (hrelations : ∀ v, entries.lookup "relations" = some v → (v.text?.map some).isSome) :
    ∃ s, ofSetting way (table entries) = .ok s ∧
      s.excludes = ((entries.lookup "excludes").bind texts?).getD [] ∧
      s.moduleDir = ((entries.lookup "module_dir").bind (·.text?.map some)).getD Option.none ∧
      s.relations = ((entries.lookup "relations").bind (·.text?.map some)).getD Option.none := by
  have hfields : ∀ e ∈ entries, ∀ f ∈ fields, f.key = e.1 →
      ∀ r, ∃ r', f.read (way ++ [e.1]) e.2 r = .ok r' := by
    intro e he f hf hkey r
    have hlookup : entries.lookup f.key = some e.2 := lookup_of_mem hkeys (hkey ▸ he)
    simp only [fields, List.mem_cons, List.not_mem_nil, or_false] at hf
    rcases hf with rfl | rfl | rfl
    · obtain ⟨l, hl⟩ := Option.isSome_iff_exists.mp (hexcludes e.2 hlookup)
      exact ⟨_, except_map_eq_ok.mpr ⟨l, readTexts_of_texts? hl, rfl⟩⟩
    · obtain ⟨s, hs⟩ := Option.isSome_iff_exists.mp (hmoduleDir e.2 hlookup)
      obtain ⟨t, ht, _⟩ := Option.map_eq_some_iff.mp hs
      exact ⟨_, except_map_eq_ok.mpr ⟨t, asText_of_text? .text ht, rfl⟩⟩
    · obtain ⟨s, hs⟩ := Option.isSome_iff_exists.mp (hrelations e.2 hlookup)
      obtain ⟨t, ht, _⟩ := Option.map_eq_some_iff.mp hs
      exact ⟨_, except_map_eq_ok.mpr ⟨t, asText_of_text? .text ht, rfl⟩⟩
  obtain ⟨s, hs⟩ := readKeyed_ok hfields (r := none)
  refine ⟨s, hs, ?_, ?_, ?_⟩
  · exact reads_excludes.value hkeys hs (fun _ _ _ => readTexts_of_texts?) hexcludes
  · exact reads_moduleDir.value hkeys hs (fun _ _ _ => asText_map_of_text? .text) hmoduleDir
  · exact reads_relations.value hkeys hs (fun _ _ _ => asText_map_of_text? .text) hrelations

end EntitySettings

namespace Config

theorem reads_modules : Reads fields "runtime" Config.modules ModuleNames.ofSetting where
  known := ⟨_, List.mem_cons_of_mem _ List.mem_cons_self, rfl⟩
  each := by
    intro f hf
    simp only [fields, List.mem_cons, List.not_mem_nil, or_false] at hf
    rcases hf with rfl | rfl | rfl
    · exact .inr ⟨by simp, FieldReader.keeps_of_set (fun _ _ => rfl)⟩
    · exact .inl ⟨rfl, FieldReader.gives_of_set (fun _ _ _ _ h => h)⟩
    · exact .inr ⟨by simp, FieldReader.keeps_of_set (fun _ _ => rfl)⟩

section WellTyped

variable {entries : List (String × Setting)}

theorem exists_modules (hordered : (table entries).Ordered) (h : WellTyped entries)
    (way : List String) : ∃ m, ModuleNames.ofSetting way (table (under "runtime" entries)) = .ok m ∧
      ∀ f : ModuleField, f.get m = ((said entries (Leaf.moduleName f).way).bind text?).getD
        (f.get .standard) :=
  ModuleNames.exists_ofSetting hordered.under.keys (fun f => h.leaves (.moduleName f))

theorem exists_entity (hordered : (table entries).Ordered) (h : WellTyped entries)
    (way : List String) (entity : String) : ∃ s,
      EntitySettings.ofSetting way (table (under entity (under "entities" entries))) = .ok s ∧
      s.excludes = ((said entries (Leaf.excludes entity).way).bind texts?).getD [] ∧
      s.moduleDir = ((said entries (Leaf.moduleDir entity).way).bind (·.text?.map some)).getD none ∧
      s.relations = ((said entries (Leaf.relations entity).way).bind (·.text?.map some)).getD none :=
  EntitySettings.exists_ofSetting hordered.under.under.keys (h.leaves (.excludes entity))
    (h.leaves (.moduleDir entity)) (h.leaves (.relations entity))

theorem exists_entities (hordered : (table entries).Ordered) (h : WellTyped entries)
    (way : List String) :
    ∃ es, readEntries EntitySettings.ofSetting way (under "entities" entries) = .ok es := by
  apply readEntries_ok
  intro e he
  rw [h.table_of_lookup (lookup_of_mem hordered.under.keys he)]
  obtain ⟨s, hs, _⟩ := exists_entity hordered h (way ++ [e.1]) e.1
  exact ⟨s, hs⟩

theorem exists_ofEntries (hordered : (table entries).Ordered) (h : WellTyped entries) :
    ∃ c, ofEntries entries = .ok c := by
  apply readKeyed_ok
  intro e he f hf hkey r
  have hlookup : entries.lookup f.key = some e.2 := lookup_of_mem hordered.keys (hkey ▸ he)
  simp only [fields, List.mem_cons, List.not_mem_nil, or_false] at hf
  rcases hf with rfl | rfl | rfl
  · obtain ⟨x, hx⟩ := Option.isSome_iff_exists.mp (h.leaves .baseDir e.2 hlookup)
    obtain ⟨s, hs, _⟩ := Option.map_eq_some_iff.mp hx
    exact ⟨_, except_map_eq_ok.mpr ⟨s, asText_of_text? .path hs, rfl⟩⟩
  · obtain ⟨inner, hinner⟩ := (h.tables (.moduleName .orm)).1 e.2 hlookup
    obtain ⟨m, hm, _⟩ := exists_modules hordered h ([] ++ [e.1])
    rw [under_of_lookup (hlookup.trans (congrArg some hinner)), ← hinner] at hm
    exact ⟨_, except_map_eq_ok.mpr ⟨m, hm, rfl⟩⟩
  · obtain ⟨inner, hinner⟩ := (h.tables (.excludes "")).1 e.2 hlookup
    obtain ⟨es, hes⟩ := exists_entities hordered h ([] ++ [e.1])
    rw [under_of_lookup (hlookup.trans (congrArg some hinner))] at hes
    refine ⟨_, except_map_eq_ok.mpr ⟨es, ?_, rfl⟩⟩
    rw [hinner]
    exact hes

/-- A configuration has for each leaf what its settings say, or else the standard value. -/
theorem get_of_ofEntries (hordered : (table entries).Ordered) (h : WellTyped entries) {c : Config}
    (hc : ofEntries entries = .ok c) (l : Leaf) :
    l.get c = ((said entries l.way).bind l.read).getD (l.get standard) := by
  have hentities := readEntries_of_ofEntries hordered hc
  have hentity : ∀ entity,
      ((c.entities.lookup entity).getD .none).excludes =
        ((said entries (Leaf.excludes entity).way).bind texts?).getD [] ∧
      ((c.entities.lookup entity).getD .none).moduleDir =
        ((said entries (Leaf.moduleDir entity).way).bind (·.text?.map some)).getD none ∧
      ((c.entities.lookup entity).getD .none).relations =
        ((said entries (Leaf.relations entity).way).bind (·.text?.map some)).getD none := by
    intro entity
    cases hlookup : (under "entities" entries).lookup entity with
    | none =>
      have hnone : c.entities.lookup entity = none := by
        rwa [lookup_eq_none_iff, keys_of_readEntries hentities, ← lookup_eq_none_iff]
      simp [hnone, Leaf.way, said, under_of_none hlookup, EntitySettings.none]
    | some v =>
      obtain ⟨s, hs, hread⟩ := lookup_of_readEntries hentities hlookup
      obtain ⟨s', hs', hleaves⟩ := exists_entity hordered h (["entities"] ++ [entity]) entity
      rw [h.table_of_lookup hlookup, hs'] at hread
      rw [hs, Option.getD_some, ← Except.ok.inj hread]
      exact hleaves
  cases l with
  | baseDir =>
    exact reads_baseDir.value hordered.keys hc (fun _ _ _ => asText_map_of_text? .path)
      (h.leaves .baseDir)
  | moduleName f =>
    have hread := reads_modules.readKeyed hordered.keys hc
    rw [readUnder] at hread
    cases hlookup : entries.lookup "runtime" with
    | none =>
      rw [hlookup] at hread
      simp [Leaf.get, ← Except.ok.inj hread, Leaf.way, said, under_of_none hlookup]
    | some v =>
      obtain ⟨inner, rfl⟩ := (h.tables (.moduleName f)).1 v hlookup
      obtain ⟨m, hm, hleaves⟩ := exists_modules hordered h ([] ++ ["runtime"])
      rw [hlookup] at hread
      rw [under_of_lookup hlookup] at hm
      have hmodules : m = c.modules := Except.ok.inj (hm.symm.trans hread)
      subst hmodules
      exact hleaves f
  | excludes entity => exact (hentity entity).1
  | moduleDir entity => exact (hentity entity).2.1
  | relations entity => exact (hentity entity).2.2

theorem keys_of_ofEntries (hordered : (table entries).Ordered) {c : Config}
    (hc : ofEntries entries = .ok c) :
    c.entities.map Prod.fst = (under "entities" entries).map Prod.fst :=
  keys_of_readEntries (readEntries_of_ofEntries hordered hc)

end WellTyped

/-- The settings that write the standard configuration down; what it has none of is left out. -/
def standardSettings : List (String × Setting) :=
  [("entities", .table []),
    ("runtime", .table ([ModuleField.entityDir, .exception, .exceptionClass, .graphql,
      .injectRepository, .injectable, .orm].map (fun f => (f.key, .text (f.get .standard)))))]

theorem ordered_standardSettings : (table standardSettings).Ordered := by
  refine .table (by decide +kernel) (List.forall_mem_cons.mpr
    ⟨ordered_empty, List.forall_mem_singleton.mpr (.table (by decide +kernel) ?_)⟩)
  intro e he
  obtain ⟨f, _, rfl⟩ := List.mem_map.mp he
  exact .text _

theorem said_standardSettings (l : Leaf) : said standardSettings l.way =
    match l with
    | .moduleName f => some (.text (f.get .standard))
    | _ => none := by
  cases l with
  | moduleName f => cases f <;> rfl
  | _ => rfl

theorem wellTyped_standardSettings : WellTyped standardSettings where
  tables l := by
    cases l with
    | baseDir => trivial
    | moduleName f => exact ⟨fun v hv => ⟨_, (Option.some.inj hv).symm⟩, trivial⟩
    | excludes entity | moduleDir entity | relations entity =>
      exact ⟨fun v hv => ⟨_, (Option.some.inj hv).symm⟩, fun v hv => (nomatch hv), trivial⟩
  leaves l v hv := by
    rw [said_standardSettings] at hv
    cases l with
    | moduleName f =>
      cases hv
      rfl
    | _ => cases hv

/-- Below whatever else is said, the standard settings say nothing new. -/
theorem read_over_standard {l : Leaf} {high : Option Setting}
    (h : ∀ v, high = some v → (l.read v).isSome) :
    ((high.or (said standardSettings l.way)).bind l.read).getD (l.get standard) =
      (high.bind l.read).getD (l.get standard) := by
  cases high with
  | some v =>
    obtain ⟨x, hx⟩ := Option.isSome_iff_exists.mp (h v rfl)
    simp [hx]
  | none =>
    rw [said_standardSettings]
    cases l <;> rfl

/-- Entries are told by their keys and by what stands under each. -/
theorem entries_ext {α : Type} {entries entries' : List (String × α)}
    (hkeys : entries.map Prod.fst = entries'.map Prod.fst) (hnodup : (entries.map Prod.fst).Nodup)
    (h : ∀ key, entries.lookup key = entries'.lookup key) : entries = entries' := by
  induction entries generalizing entries' with
  | nil =>
    rw [List.map_nil, eq_comm, List.map_eq_nil_iff] at hkeys
    exact hkeys.symm
  | cons e rest ih =>
    obtain ⟨e', rest', rfl⟩ : ∃ e' rest', entries' = e' :: rest' := by
      cases entries' with
      | nil => cases hkeys
      | cons e' rest' => exact ⟨e', rest', rfl⟩
    obtain ⟨hkey, hkeys⟩ := List.cons.inj hkeys
    obtain ⟨hfirst, hnodup⟩ := List.nodup_cons.mp hnodup
    have hvalue : e.2 = e'.2 := by
      have hhere := h e.1
      rw [List.lookup_cons, List.lookup_cons, ← hkey, beq_self_eq_true] at hhere
      exact Option.some.inj hhere
    have hrest : rest = rest' := by
      apply ih hkeys hnodup
      intro key
      by_cases hsame : key = e.1
      · rw [lookup_eq_none_iff.mpr (hsame ▸ hfirst),
          lookup_eq_none_iff.mpr (hkeys ▸ hsame ▸ hfirst)]
      · have hother := h key
        rw [List.lookup_cons, List.lookup_cons, ← hkey, beq_false_of_ne hsame] at hother
        exact hother
    rw [hrest, Prod.ext hkey hvalue]

/-- A configuration is told by its leaves and the keys of its entities. -/
theorem ext_leaves {c c' : Config} (hkeys : c.entities.map Prod.fst = c'.entities.map Prod.fst)
    (hnodup : (c.entities.map Prod.fst).Nodup) (h : ∀ l : Leaf, l.get c = l.get c') : c = c' := by
  have hmodules : c.modules = c'.modules := by
    have hfield : ∀ f : ModuleField, f.get c.modules = f.get c'.modules :=
      fun f => h (.moduleName f)
    cases hc : c.modules
    cases hc' : c'.modules
    rw [hc, hc'] at hfield
    simp only [ModuleNames.mk.injEq]
    exact ⟨hfield .injectable, hfield .injectRepository, hfield .exception, hfield .exceptionClass,
      hfield .orm, hfield .graphql, hfield .entityDir⟩
  have hentities : c.entities = c'.entities := by
    apply entries_ext hkeys hnodup
    intro entity
    have hexcludes : ((c.entities.lookup entity).getD .none).excludes =
        ((c'.entities.lookup entity).getD .none).excludes := h (.excludes entity)
    have hmoduleDir : ((c.entities.lookup entity).getD .none).moduleDir =
        ((c'.entities.lookup entity).getD .none).moduleDir := h (.moduleDir entity)
    have hrelations : ((c.entities.lookup entity).getD .none).relations =
        ((c'.entities.lookup entity).getD .none).relations := h (.relations entity)
    have hiff : c.entities.lookup entity = none ↔ c'.entities.lookup entity = none := by
      rw [lookup_eq_none_iff, lookup_eq_none_iff, hkeys]
    cases hs : c.entities.lookup entity with
    | none => rw [hiff.mp hs]
    | some s =>
      cases hs' : c'.entities.lookup entity with
      | none =>
        rw [hiff.mpr hs'] at hs
        cases hs
      | some s' =>
        rw [hs, hs'] at hexcludes hmoduleDir hrelations
        cases s
        cases s'
        simp_all
  cases c
  cases c'
  have hbaseDir := h .baseDir
  simp only [Leaf.get] at hbaseDir
  simp_all

section Standard

variable {lower upper : List (String × Setting)}

/-- Settings over the standard ones describe the same configuration as by themselves. -/
theorem ofEntries_over_standard (hlower : WellTyped lower) (hupper : WellTyped upper)
    (hlow : (table lower).Ordered) (hhigh : (table upper).Ordered) :
    ofEntries (layEntries (layEntries standardSettings lower) upper) =
      ofEntries (layEntries lower upper) := by
  have hbase := wellTyped_standardSettings.layEntries hlower hlow
  have hordered := ordered_standardSettings.layEntries hlow
  have hthree := hbase.layEntries hupper hhigh
  have htwo := hlower.layEntries hupper hhigh
  obtain ⟨c, hc⟩ := exists_ofEntries (hordered.layEntries hhigh) hthree
  obtain ⟨c', hc'⟩ := exists_ofEntries (hlow.layEntries hhigh) htwo
  have hunder : under "entities" (layEntries standardSettings lower) = under "entities" lower := by
    rw [under_layEntries hlow (wellTyped_standardSettings.tables (.excludes "")).1
      (hlower.tables (.excludes "")).1]
    exact layEntries_nil hlow.under.keys
  have hkeys : c.entities.map Prod.fst = c'.entities.map Prod.fst := by
    rw [keys_of_ofEntries (hordered.layEntries hhigh) hc,
      keys_of_ofEntries (hlow.layEntries hhigh) hc',
      under_layEntries hhigh (hbase.tables (.excludes "")).1 (hupper.tables (.excludes "")).1,
      under_layEntries hhigh (hlower.tables (.excludes "")).1 (hupper.tables (.excludes "")).1,
      hunder]
  have hleaves : ∀ l : Leaf, l.get c = l.get c' := by
    intro l
    rw [get_of_ofEntries (hordered.layEntries hhigh) hthree hc,
      get_of_ofEntries (hlow.layEntries hhigh) htwo hc', hbase.said_layEntries hupper hhigh,
      wellTyped_standardSettings.said_layEntries hlower hlow, ← Option.or_assoc,
      ← hlower.said_layEntries hupper hhigh]
    exact read_over_standard (htwo.leaves l)
  have hnodup : (c.entities.map Prod.fst).Nodup :=
    (keys_ascend (hordered.layEntries hhigh) hc).imp (fun hlt => hlt.ne)
  rw [hc, hc', ext_leaves hkeys hnodup hleaves]

end Standard

/-- The settings that the configuration file holds; without a file there are none. -/
inductive FileSays (current path : String) (d : Disk) : List (String × Setting) → Prop where
  | absent (h : (candidates current path).find? d.isFile = none) : FileSays current path d []
  | present {found text : String} {file : List (String × Setting)}
    (h : (candidates current path).find? d.isFile = some found)
    (hread : d.read found = .ok (Bytes.ofText text)) (hparse : Toml.parse? text = some file) :
    FileSays current path d file

theorem FileSays.ordered {current path : String} {d : Disk} {file : List (String × Setting)}
    (h : FileSays current path d file) : (table file).Ordered := by
  cases h with
  | absent h => exact ordered_empty
  | present h hread hparse => exact Toml.ordered_of_parse hparse

/-- Loading lays what the variables say over what the file says. -/
theorem FileSays.onDisk_load {current path : String} {d : Disk} {file : List (String × Setting)}
    (h : FileSays current path d file) (environment : List (String × String)) : ∃ shown,
      onDisk (load current environment path) d =
        (ofSettings shown file (Environment.settings environment), d) := by
  have hfirst : onDisk (ExceptT.lift (firstFile (candidates current path)) :
      Attempt ConfigFault (Option String)) d =
        (.ok ((candidates current path).find? d.isFile), d) := by
    rw [onDisk_lift, onDisk_firstFile]
  cases h with
  | absent h =>
    rw [h] at hfirst
    exact ⟨path, onDisk_bind_of_ok hfirst _⟩
  | @present found text file h hread hparse =>
    rw [h] at hfirst
    have hfile : onDisk (readFile (Path.shownFrom current found) found) d = (.ok file, d) := by
      rw [readFile, onDisk_bind_of_ok onDisk_read, hread]
      simp only [Bytes.text?_ofText, hparse]
      rfl
    refine ⟨Path.shownFrom current found, (onDisk_bind_of_ok hfirst _).trans ?_⟩
    dsimp only
    rw [onDisk_bind_of_ok hfile]
    rfl

/-- Loading decides each leaf of the configuration by itself. What the last variable for the leaf
says comes first, then what the file says, then the standard; the entities are those of the file
and those of the variables, whose names arrive in small letters. It is the same configuration that
the file and the variables give when they are laid over the standard settings. -/
theorem leaves_of_load {current path : String} {d : Disk} {environment : List (String × String)}
    {file : List (String × Setting)} (hfile : FileSays current path d file)
    (htyped : WellTyped file) (hvariables : Environment.SetsLeaves environment) :
    ∃ c, onDisk (load current environment path) d = (.ok c, d) ∧
      (∀ l : Leaf, l.get c = (((Environment.given environment l.way).or (said file l.way)).bind
        l.read).getD (l.get standard)) ∧
      (∀ entity, entity ∈ c.entities.map Prod.fst ↔
        entity ∈ (under "entities" file).map Prod.fst ∨
          entity ∈ (environment.filterMap (fun e => Environment.entityKey? e.1)).map small) ∧
      ofEntries (layEntries (layEntries standardSettings file) (Environment.settings environment)) =
        .ok c := by
  have hupper := Environment.reflects_settings hvariables
  have hlow := hfile.ordered
  have hordered := hlow.layEntries hupper.ordered
  have hmerged := htyped.layEntries hupper.wellTyped hupper.ordered
  obtain ⟨c, hc⟩ := exists_ofEntries hordered hmerged
  obtain ⟨shown, hload⟩ := hfile.onDisk_load environment
  refine ⟨c, ?_, ?_, ?_, ?_⟩
  · rw [hload, ofSettings, hc]
    rfl
  · intro l
    rw [get_of_ofEntries hordered hmerged hc, htyped.said_layEntries hupper.wellTyped
      hupper.ordered, hupper.leaves]
  · intro entity
    rw [keys_of_ofEntries hordered hc, htyped.mem_entities_layEntries hupper.wellTyped
      hupper.ordered, hupper.entities]
  · rw [ofEntries_over_standard htyped hupper.wellTyped hlow hupper.ordered, hc]

section LayeredOrder

def namedText : String :=
  "[runtime]\norm = \"@file\"\n\n[entities.orderItem]\nmodule_dir = \"@file\"\n"

def namedByFile : Disk :=
  ⟨[(["crudgen.toml"], .file (Bytes.ofText namedText) Entry.defaultMode)], []⟩

def namedSettings : List (String × Setting) :=
  [("entities", .table [("orderItem", .table [("module_dir", .text "@file")])]),
    ("runtime", .table [("orm", .text "@file")])]

/-- One variable sets another module name, two set the base directory, one has nothing to do with
the configuration, and one speaks of the entity in its own way. -/
def namedByVariables : List (String × String) :=
  [("CRUDGEN_BASE_DIR", "a"), ("PATH", "/bin"), ("CRUDGEN_RUNTIME__GRAPHQL", "@env"),
    ("crudgen_base_dir", "b"), ("CRUDGEN_ENTITIES__OrderItem__RELATIONS", "items")]

theorem wellTyped_namedSettings : WellTyped namedSettings := by
  have hentity := WellTyped.single (l := .moduleDir "orderItem") (v := .text "@file") rfl rfl
  have hmodule := WellTyped.single (l := .moduleName .orm) (v := .text "@file") rfl rfl
  have hordered : (table [("runtime", (Setting.text "@file").nested ["orm"])]).Ordered :=
    ordered_nested ["runtime", "orm"] (.text "@file")
  have hlaid := hentity.layEntries hmodule hordered
  rw [layEntries_of_ascending (by decide +kernel)] at hlaid
  exact hlaid

theorem setsLeaves_namedByVariables : Environment.SetsLeaves namedByVariables := by
  intro e he
  simp only [namedByVariables, List.mem_cons, List.not_mem_nil, or_false] at he
  rcases he with rfl | rfl | rfl | rfl | rfl
  · exact .inr ⟨.baseDir, by decide +kernel, rfl⟩
  · exact .inl (by decide +kernel)
  · exact .inr ⟨.moduleName .graphql, by decide +kernel, rfl⟩
  · exact .inr ⟨.baseDir, by decide +kernel, rfl⟩
  · exact .inr ⟨.relations "orderitem", by decide +kernel, rfl⟩

theorem leaves_of_load_namedByFile : ∃ c,
    onDisk (load "/" namedByVariables standardFile) namedByFile = (.ok c, namedByFile) ∧
      c.baseDir = some "b" ∧ c.modules.orm = "@file" ∧ c.modules.graphql = "@env" ∧
      c.modules.exceptionClass = "BadRequest" ∧
      ∀ entity, entity ∈ c.entities.map Prod.fst ↔ entity = "orderItem" ∨ entity = "orderitem" := by
  have hfound : (candidates "/" standardFile).find? namedByFile.isFile = some "/crudgen.toml" := by
    decide +kernel
  have hread : namedByFile.read "/crudgen.toml" = .ok (Bytes.ofText namedText) := by
    decide +kernel
  have hparse : Toml.parse? namedText = some namedSettings := by
    cbv
  obtain ⟨c, hload, hleaves, hentities, _⟩ := leaves_of_load (.present hfound hread hparse)
    wellTyped_namedSettings setsLeaves_namedByVariables
  have hbaseDir : namedByVariables.reverse.find? (fun e => Environment.way? e.1 =
      some Leaf.baseDir.way) = some ("crudgen_base_dir", "b") := by decide +kernel
  have horm : namedByVariables.reverse.find? (fun e => Environment.way? e.1 =
      some (Leaf.moduleName .orm).way) = none := by decide +kernel
  have hgraphql : namedByVariables.reverse.find? (fun e => Environment.way? e.1 =
      some (Leaf.moduleName .graphql).way) = some ("CRUDGEN_RUNTIME__GRAPHQL", "@env") := by
    decide +kernel
  have hexception : namedByVariables.reverse.find? (fun e => Environment.way? e.1 =
      some (Leaf.moduleName .exceptionClass).way) = none := by decide +kernel
  have hvariables : (namedByVariables.filterMap
      (fun e => Environment.entityKey? e.1)).map small = ["orderitem"] := by decide +kernel
  refine ⟨c, hload, ?_, ?_, ?_, ?_, ?_⟩
  · have h := hleaves .baseDir
    rw [Environment.given, hbaseDir] at h
    exact h
  · have h := hleaves (.moduleName .orm)
    rw [Environment.given, horm] at h
    exact h
  · have h := hleaves (.moduleName .graphql)
    rw [Environment.given, hgraphql] at h
    exact h
  · have h := hleaves (.moduleName .exceptionClass)
    rw [Environment.given, hexception] at h
    exact h
  · intro entity
    rw [hentities, hvariables, List.mem_singleton]
    exact or_congr_left List.mem_singleton

end LayeredOrder

end Config

end CrudLayers
