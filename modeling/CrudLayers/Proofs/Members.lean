import CrudLayers.Proofs.Dependence
import CrudLayers.Proofs.Identifiers
import CrudLayers.Proofs.Surface

namespace CrudLayers

/-- A name starts with what its pattern writes in front of the stem. -/
theorem NamePattern.fill_ne_of_before {p : NamePattern} {n : EntityName} {word : String}
    (h : ¬ p.before.toList <+: word.toList) : p.fill n ≠ word := by
  rintro rfl
  apply h
  rw [toList_fill, List.append_assoc]
  exact List.prefix_append _ _

namespace ResolverField

variable {n : EntityName} {f : ResolverField}

def exposedNames (n : EntityName) : List String :=
  all.map (·.exposedName n)

theorem nodup_exposedNames (n : EntityName) : (exposedNames n).Nodup :=
  List.Nodup.map (fun _ _ h => exposedName_injective h) (by decide)

theorem serviceField_not_mem (n : EntityName) : n.derived .serviceField ∉ exposedNames n := by
  have hapart : ∀ f ∈ all, f.pattern.Apart DerivedName.serviceField.pattern := by decide +kernel
  intro h
  obtain ⟨f, hf, he⟩ := List.mem_map.mp h
  exact NamePattern.fill_ne (hapart f hf) he

/-- Of all fields only the one that shows a single record can be exposed as `constructor`. -/
theorem exposedName_eq_constructor :
    f.exposedName n = "constructor" ↔ f = .one ∧ n.text = "constructor" := by
  have hother : ∀ f ∈ all, f ≠ .one → ¬ f.pattern.before.toList <+: "constructor".toList ∨
      ¬ f.pattern.after.toList <:+ "constructor".toList.tail := by decide +kernel
  by_cases hf : f = .one
  · have hname : f.exposedName n = n.text := by
      simp [hf, exposedName, pattern, NamePattern.fill, EntityName.stem]
    rw [hname, and_iff_right hf]
  · refine iff_of_false ?_ (fun h => hf h.1)
    rcases hother f f.mem_all hf with h | h
    · exact NamePattern.fill_ne_of_before h
    · exact NamePattern.fill_ne_word h

end ResolverField

/-- Where no name stands twice, leaving out one name leaves out one place of the list. -/
theorem filter_ne_eq_append {α β : Type} [DecidableEq β] {name : α → β} {before after : List α}
    {a : α} (h : ((before ++ a :: after).map name).Nodup) :
    (before ++ a :: after).filter (fun x => name x ≠ name a) = before ++ after := by
  rw [List.map_append, List.map_cons, List.nodup_middle, ← List.map_append] at h
  have hother := (List.nodup_cons.mp h).1
  rw [List.filter_append, List.filter_cons_of_neg (by simp), ← List.filter_append,
    List.filter_eq_self]
  intro x hx
  exact decide_eq_true (fun he => hother (he ▸ List.mem_map_of_mem hx))

/-- A list without repetitions has as many texts as there are distinct ones that it takes from
another list. -/
theorem length_eq_card_filter {l known : List String} {p : String → Prop} [DecidablePred p]
    (hnodup : l.Nodup) (hmem : ∀ s, s ∈ l ↔ s ∈ known ∧ p s) :
    l.length = (known.toFinset.filter p).card := by
  rw [← List.toFinset_card_of_nodup hnodup]
  congr 1
  ext s
  rw [List.mem_toFinset, hmem, Finset.mem_filter, List.mem_toFinset]

namespace SourceFile

def memberNames (f : SourceFile) : List String :=
  "constructor" :: f.decl.collaborator.field :: f.methodNames

end SourceFile

theorem repositoryField_ne_word {n : EntityName} {word : String}
    (h : word = "constructor" ∨ word ∈ Operation.all.map Operation.methodName) :
    n.derived .repositoryField ≠ word := by
  have hends : ∀ word ∈ "constructor" :: Operation.all.map Operation.methodName,
      ¬ DerivedName.repositoryField.pattern.after.toList <:+ word.toList.tail := by decide +kernel
  exact NamePattern.fill_ne_word (hends word (List.mem_cons.mpr h))

namespace Blueprint

open ResolverField (exposedNames)

section Fields

variable (current : String) (n : EntityName) (o : Options)

theorem fields_ofOptions : (ofOptions current n o).fields =
    ResolverField.all.filter (fun f => f.exposedName n ∉ o.excludes) := by
  rw [fields]
  congr 1
  funext f
  simp [exposes, isExcluded, ofOptions, mem_ascending]

/-- One exclude more leaves of the fields those with other names. -/
theorem fields_exclude (e : String) :
    (ofOptions current n { o with excludes := o.excludes ++ [e] }).fields =
      (ofOptions current n o).fields.filter (fun f => f.exposedName n ≠ e) := by
  rw [fields_ofOptions, fields_ofOptions, List.filter_filter]
  congr 1
  funext f
  by_cases hf : f.exposedName n = e <;> simp [hf]

theorem nodup_map_fields : ((ofOptions current n o).fields.map (·.exposedName n)).Nodup := by
  rw [fields_ofOptions]
  exact (ResolverField.nodup_exposedNames n).sublist (List.filter_sublist.map _)

theorem fields_exclude_cases (e : String) :
    (ofOptions current n { o with excludes := o.excludes ++ [e] }).fields =
      (ofOptions current n o).fields ∨
    ∃ before f after, f.exposedName n = e ∧
      (ofOptions current n o).fields = before ++ f :: after ∧
      (ofOptions current n { o with excludes := o.excludes ++ [e] }).fields = before ++ after := by
  have hnodup := nodup_map_fields current n o
  rw [fields_exclude]
  by_cases he : ∃ f ∈ (ofOptions current n o).fields, f.exposedName n = e
  · obtain ⟨f, hf, rfl⟩ := he
    obtain ⟨before, after, hsplit⟩ := List.append_of_mem hf
    rw [hsplit] at hnodup ⊢
    exact .inr ⟨before, f, after, rfl, rfl, filter_ne_eq_append hnodup⟩
  · refine .inl (List.filter_eq_self.mpr ?_)
    intro f hf
    exact decide_eq_true (fun h => he ⟨f, hf, h⟩)

end Fields

section Counting

variable (current : String) (n : EntityName) (o : Options)

theorem mem_unmatchedExcludes {e : String} : e ∈ (ofOptions current n o).unmatchedExcludes ↔
    e ∈ o.excludes ∧ e ∉ exposedNames n := by
  simp [unmatchedExcludes, ofOptions, mem_ascending, exposedNames]

theorem mem_excludedFields {e : String} : e ∈ (ofOptions current n o).excludedFields ↔
    e ∈ o.excludes ∧ e ∈ exposedNames n := by
  rw [excludedFields, List.mem_filter, and_comm]
  simp [isExcluded, ofOptions, mem_ascending, exposedNames]

theorem nodup_excludes : (ofOptions current n o).excludes.Nodup :=
  (pairwise_ascending o.excludes).imp fun h => ne_of_lt h

theorem length_excludedFields : (ofOptions current n o).excludedFields.length =
    (o.excludes.toFinset.filter (· ∈ exposedNames n)).card :=
  length_eq_card_filter ((ResolverField.nodup_exposedNames n).filter _)
    (fun _ => mem_excludedFields current n o)

theorem length_unmatchedExcludes : (ofOptions current n o).unmatchedExcludes.length =
    (o.excludes.toFinset.filter (· ∉ exposedNames n)).card :=
  length_eq_card_filter ((nodup_excludes current n o).filter _)
    (fun _ => mem_unmatchedExcludes current n o)

/-- A field is left, or it is excluded. -/
theorem length_fields : (ofOptions current n o).fields.length +
    (o.excludes.toFinset.filter (· ∈ exposedNames n)).card = 8 := by
  have hexcluded : (ofOptions current n o).excludedFields =
      (ResolverField.all.filter (fun f => f.exposedName n ∈ o.excludes)).map (·.exposedName n) := by
    rw [excludedFields, List.filter_map]
    congr 2
    funext f
    simp [isExcluded, ofOptions, mem_ascending]
  rw [← length_excludedFields current, hexcluded, List.length_map, fields_ofOptions]
  have hall := List.length_eq_length_filter_add (l := ResolverField.all)
    (fun f => decide (f.exposedName n ∈ o.excludes))
  simp only [decide_not]
  have height : ResolverField.all.length = 8 := rfl
  omega

theorem length_noteExcludes : (ofOptions current n o).unmatchedExcludes.length +
    (ofOptions current n o).excludedFields.length = o.excludes.toFinset.card := by
  rw [length_unmatchedExcludes, length_excludedFields, Nat.add_comm]
  exact Finset.card_filter_add_card_filter_not _

end Counting

section Classes

variable (current : String) (n : EntityName) (o : Options) (names : ModuleNames)

/-- Rendering a resolver notes what is excluded. -/
theorem run_render_resolver (b : Blueprint) (scene : Scene) : ∃ text,
    (b.render names .resolver).run.run scene =
      (.ok text, { scene with noted := scene.noted ++ b.noteExcludes }) := by
  obtain ⟨text, htext⟩ := b.exists_text names .resolver
  refine ⟨text, ?_⟩
  rw [b.run_render names htext, Program.run_bind, CommandLine.run_noteAll]
  rfl

theorem map_exposedName_ofOptions : (ofOptions current n o).fields.map (·.exposedName n) =
    (exposedNames n).filter (· ∉ o.excludes) := by
  rw [fields_ofOptions, exposedNames, List.filter_map]
  rfl

theorem methodNames_resolver : ((ofOptions current n o).resolverFile names).methodNames =
    (exposedNames n).filter (· ∉ o.excludes) := by
  rw [SourceFile.methodNames, resolverFile_decl, List.map_map, ← map_exposedName_ofOptions current]
  rfl

theorem methodNames_of_operations {b : Blueprint} {l : Layer} (h : l ≠ .resolver) :
    (b.sourceFile names l).methodNames = Operation.all.map Operation.methodName ∧
      (b.sourceFile names l).decl.collaborator.field = b.name.derived .repositoryField := by
  cases l with
  | repository =>
    rw [SourceFile.methodNames, sourceFile, repositoryFile_decl]
    exact ⟨List.map_map, rfl⟩
  | service =>
    rw [SourceFile.methodNames, sourceFile, serviceFile_decl]
    exact ⟨List.map_map, rfl⟩
  | resolver => exact absurd rfl h

theorem nodup_memberNames_of_operations {b : Blueprint} {l : Layer} (h : l ≠ .resolver) :
    (b.sourceFile names l).memberNames.Nodup := by
  obtain ⟨hmethods, hfield⟩ := methodNames_of_operations names (b := b) h
  have hwords : ("constructor" :: Operation.all.map Operation.methodName).Nodup := by decide +kernel
  obtain ⟨hconstructor, hnodup⟩ := List.nodup_cons.mp hwords
  rw [SourceFile.memberNames, hmethods, hfield, List.nodup_cons, List.nodup_cons, List.mem_cons,
    not_or]
  exact ⟨⟨fun he => repositoryField_ne_word (.inl he.symm) rfl, hconstructor⟩,
    fun hmem => repositoryField_ne_word (.inr hmem) rfl, hnodup⟩

theorem nodup_memberNames_resolver :
    ((ofOptions current n o).resolverFile names).memberNames.Nodup ↔
      ¬(n.text = "constructor" ∧ "constructor" ∉ o.excludes) := by
  have hfield : ((ofOptions current n o).resolverFile names).decl.collaborator.field =
      n.derived .serviceField := by
    rw [resolverFile_decl]
    rfl
  have hservice : "constructor" ≠ n.derived .serviceField := by
    have hend : ¬ DerivedName.serviceField.pattern.after.toList <:+
        "constructor".toList.tail := by decide
    exact (NamePattern.fill_ne_word hend).symm
  have hmember : "constructor" ∈ exposedNames n ↔ n.text = "constructor" := by
    rw [exposedNames, List.mem_map]
    constructor
    · rintro ⟨f, _, hf⟩
      exact (ResolverField.exposedName_eq_constructor.mp hf).2
    · intro h
      exact ⟨.one, ResolverField.mem_all _, ResolverField.exposedName_eq_constructor.mpr ⟨rfl, h⟩⟩
  have hmethods : (n.derived .serviceField :: (exposedNames n).filter (· ∉ o.excludes)).Nodup := by
    refine List.nodup_cons.mpr ⟨?_, (ResolverField.nodup_exposedNames n).filter _⟩
    exact fun h => ResolverField.serviceField_not_mem n (List.mem_of_mem_filter h)
  rw [SourceFile.memberNames, hfield, methodNames_resolver, List.nodup_cons, List.mem_cons,
    or_iff_right hservice, List.mem_filter, hmember, and_iff_left hmethods, decide_eq_true_eq]

end Classes

/-- What the excludes among some options do to an entity's resolver, and which names the members of
the entity's classes have. -/
structure Distinguished (current : String) (n : EntityName) (o : Options) (names : ModuleNames) :
    Prop where
  apart : (n.derived .serviceField :: exposedNames n).Nodup
  /-- One exclude more removes one field, or none. -/
  removed : ∀ e, (ofOptions current n { o with excludes := o.excludes ++ [e] }).fields =
      (ofOptions current n o).fields ∨
    ∃ before f after, f.exposedName n = e ∧
      (ofOptions current n o).fields = before ++ f :: after ∧
      (ofOptions current n { o with excludes := o.excludes ++ [e] }).fields = before ++ after
  number : (ofOptions current n o).fields.length +
    (o.excludes.toFinset.filter (· ∈ exposedNames n)).card = 8
  order : (ofOptions current n o).fields.map (·.exposedName n) =
      (exposedNames n).filter (· ∉ o.excludes) ∧
    ((ofOptions current n o).resolverFile names).methodNames =
      (exposedNames n).filter (· ∉ o.excludes)
  /-- Each exclude is noted once, whether it removes a field or not. -/
  noted : ∀ scene : Scene, ∃ (text : String) (unmatched excluded : List String),
    ((ofOptions current n o).render names .resolver).run.run scene = (.ok text, { scene with
      noted := scene.noted ++ (unmatched.map (.unmatchedExclude n.text) ++
        excluded.map (.excludedField n.text)) }) ∧
    (∀ e, e ∈ unmatched ↔ e ∈ o.excludes ∧ e ∉ exposedNames n) ∧
    (∀ e, e ∈ excluded ↔ e ∈ o.excludes ∧ e ∈ exposedNames n) ∧
    unmatched.length + excluded.length = o.excludes.toFinset.card
  members : ∀ l, ((ofOptions current n o).sourceFile names l).memberNames.Nodup ↔
    ¬(l = .resolver ∧ n.text = "constructor" ∧ "constructor" ∉ o.excludes)

/-- For every entity the names that its resolver exposes are distinct, from each other and from the
service that the resolver calls. So each exclude removes the field of its name or none, and is noted
once. The members of a class have different names too, but for the resolver of an entity called
`constructor` that shows single records. -/
theorem exposed_distinguished (current : String) (n : EntityName) (o : Options)
    (names : ModuleNames) : Distinguished current n o names where
  apart := List.nodup_cons.mpr
    ⟨ResolverField.serviceField_not_mem n, ResolverField.nodup_exposedNames n⟩
  removed := fields_exclude_cases current n o
  number := length_fields current n o
  order := ⟨map_exposedName_ofOptions current n o, methodNames_resolver current n o names⟩
  noted scene := by
    obtain ⟨text, htext⟩ := run_render_resolver names (ofOptions current n o) scene
    exact ⟨text, _, _, htext, fun _ => mem_unmatchedExcludes current n o,
      fun _ => mem_excludedFields current n o, length_noteExcludes current n o⟩
  members l := by
    by_cases hl : l = .resolver
    · subst hl
      rw [and_iff_right rfl]
      exact nodup_memberNames_resolver current n o names
    · exact iff_of_true (nodup_memberNames_of_operations names hl) (fun h => hl h.1)

example : ¬((ofOptions "/" ⟨"constructor", by decide⟩ .none).sourceFile .standard
    .resolver).memberNames.Nodup := by
  decide +kernel

end Blueprint

end CrudLayers
