import CrudLayers.Proofs.Excludes
import CrudLayers.Proofs.Printing
import CrudLayers.Proofs.Stages

namespace CrudLayers

/-- A body can be filled if its template is there and asks for no value but those that it has. -/
theorem Method.fillable_of_keys {m : Method} {t : Template}
    (ht : Template.registered.lookup m.body.template = some t)
    (hkeys : t.slots ⊆ m.body.values.map Prod.fst) : m.Fillable := by
  refine ⟨t, ht, ?_⟩
  intro slot hslot
  obtain ⟨pair, hpair, rfl⟩ := List.mem_map.mp (hkeys hslot)
  rw [List.lookup_isSome_iff]
  exact ⟨pair, hpair, BEq.rfl⟩

/-- A text is made of the imports and the class; where the file lies does not matter. -/
theorem SourceFile.print_congr {f g : SourceFile} (himports : f.imports = g.imports)
    (hdecl : f.decl = g.decl) : f.print = g.print := by
  simp only [print, skeletonValues, himports, hdecl]

namespace Blueprint

section Existence

variable (b : Blueprint) (names : ModuleNames)

theorem fillable_repositoryMethod (o : Operation) :
    (b.repositoryMethod names o.entry).Fillable := by
  have ht : Template.registered.lookup o.entry.operation.bodyName = some o.body := by
    cases o <;> rfl
  have hkeys : o.body.slots ⊆
      ["collaborator", "method", "param", "relations", "exception", "model"] := by
    cases o <;> decide
  exact Method.fillable_of_keys ht hkeys

theorem fillable_forward {m : Method} {collaborator method param : String}
    (h : m.body = forward collaborator method param) : m.Fillable := by
  have hkeys : Template.delegate.slots ⊆ ["collaborator", "method", "param"] := by decide
  apply Method.fillable_of_keys (t := Template.delegate)
  · rw [h]
    rfl
  · rw [h]
    exact hkeys

theorem fillable_methods (l : Layer) : ∀ m ∈ (b.sourceFile names l).decl.methods, m.Fillable := by
  intro m hm
  cases l with
  | repository =>
    rw [sourceFile, repositoryFile_decl] at hm
    obtain ⟨e, he, rfl⟩ := List.mem_map.mp hm
    obtain ⟨o, rfl⟩ := CatalogEntry.mem_all_iff.mp he
    exact b.fillable_repositoryMethod names o
  | service =>
    rw [sourceFile, serviceFile_decl] at hm
    obtain ⟨o, _, rfl⟩ := List.mem_map.mp hm
    exact fillable_forward rfl
  | resolver =>
    rw [sourceFile, resolverFile_decl] at hm
    obtain ⟨f, _, rfl⟩ := List.mem_map.mp hm
    exact fillable_forward rfl

/-- A layer's text is its skeleton, filled. -/
theorem text_eq_plainText (l : Layer) : b.text names l = .ok (b.sourceFile names l).plainText :=
  SourceFile.print_of_fillable (b.fillable_methods names l)

theorem exists_text (l : Layer) : ∃ text, b.text names l = .ok text :=
  ⟨_, b.text_eq_plainText names l⟩

/-- Rendering a layer notes what is built and comes to the layer's text. -/
theorem run_render {l : Layer} {text : String} (h : b.text names l = .ok text) :
    (b.render names l).run =
      (noteAll (b.buildEvents l)).bind (fun _ => .done (.ok text)) := by
  rw [render, Attempt.run_lift_bind, h]
  rfl

end Existence

/-- Two blueprints, each with its module names, agree on what is a layer's own input. -/
inductive SameInputs (b c : Blueprint) (names names' : ModuleNames) : Layer → Prop where
  | repository (relations : b.relations = c.relations)
    (injectable : names.injectable = names'.injectable)
    (injectRepository : names.injectRepository = names'.injectRepository)
    (exception : names.exception = names'.exception)
    (exceptionClass : names.exceptionClass = names'.exceptionClass)
    (orm : names.orm = names'.orm) (entityDir : names.entityDir = names'.entityDir) :
    SameInputs b c names names' .repository
  | service (injectable : names.injectable = names'.injectable)
    (entityDir : names.entityDir = names'.entityDir) : SameInputs b c names names' .service
  | resolver (graphql : names.graphql = names'.graphql)
    (entityDir : names.entityDir = names'.entityDir)
    (excludes : ∀ f : ResolverField,
      f.exposedName b.name ∈ b.excludes ↔ f.exposedName c.name ∈ c.excludes) :
    SameInputs b c names names' .resolver

variable {b c : Blueprint} {names names' : ModuleNames}

/-- Types are imported by the entity's name from its modules and the models' directory, and from
nothing else. -/
theorem imports_requireTypes_congr {a a' : Assembly} (himports : a.imports = a'.imports)
    (hname : b.name = c.name) (hdir : b.moduleDir = c.moduleDir)
    (hentity : names.entityDir = names'.entityDir) (used : List TypeRef) :
    (a.requireTypes b names used).imports = (a'.requireTypes c names' used).imports := by
  have hmodel : b.modelModule names = c.modelModule names' := by
    rw [modelModule, modelModule, hname, hentity]
  have hmodule : ∀ sort, b.typesModule sort = c.typesModule sort := by
    intro sort
    rw [typesModule, typesModule, hname, hdir]
  have hsymbols : ∀ home, b.symbolsFrom used home = c.symbolsFrom used home := by
    intro home
    rw [symbolsFrom, symbolsFrom, hname]
  simp only [Assembly.requireTypes, Assembly.imports_require, himports, hmodel, hmodule, hsymbols]

section Layers

variable (hname : b.name = c.name) (hdir : b.moduleDir = c.moduleDir)

include hname hdir

theorem text_repository_congr (h : SameInputs b c names names' .repository) :
    b.text names .repository = c.text names' .repository := by
  cases h with
  | repository relations injectable injectRepository exception exceptionClass orm entityDir =>
  apply SourceFile.print_congr
  · simp only [sourceFile, repositoryFile, Assembly.imports_finish]
    rw [imports_requireTypes_congr _ hname hdir entityDir]
    simp [injectable, injectRepository, exception, exceptionClass, orm]
  · have hmethod : b.repositoryMethod names = c.repositoryMethod names' := by
      funext o
      simp only [repositoryMethod, repositoryValues, hname, relations, exceptionClass]
    simp only [sourceFile, repositoryFile_decl, repositoryCollaborator, hmethod, hname]

theorem text_service_congr (h : SameInputs b c names names' .service) :
    b.text names .service = c.text names' .service := by
  cases h with
  | service injectable entityDir =>
  apply SourceFile.print_congr
  · simp only [sourceFile, serviceFile, Assembly.imports_finish]
    rw [imports_requireTypes_congr _ hname hdir entityDir]
    simp [injectable, hname]
  · have hmethod : b.serviceMethod = c.serviceMethod := by
      funext o
      simp only [serviceMethod, hname]
    simp only [sourceFile, serviceFile_decl, serviceCollaborator, hmethod, hname]

/-- All that a resolver takes from the excludes are the fields that they leave. -/
theorem text_resolver_congr (h : SameInputs b c names names' .resolver) :
    b.text names .resolver = c.text names' .resolver := by
  cases h with
  | resolver graphql entityDir excludes =>
  have hfields : b.fields = c.fields := by
    rw [fields_eq_iff]
    intro f
    rw [mem_fields, mem_fields, excludes f]
  apply SourceFile.print_congr
  · simp only [sourceFile, resolverFile, Assembly.imports_finish]
    rw [hfields, imports_requireTypes_congr _ hname hdir entityDir]
    simp [graphql, hname]
  · have hmethod : b.resolverMethod = c.resolverMethod := by
      funext f
      simp only [resolverMethod, directive, hname]
    simp only [sourceFile, resolverFile_decl, resolverCollaborator, hmethod, hfields, hname]

theorem text_congr {l : Layer} (h : SameInputs b c names names' l) :
    b.text names l = c.text names' l := by
  cases l with
  | repository => exact text_repository_congr hname hdir h
  | service => exact text_service_congr hname hdir h
  | resolver => exact text_resolver_congr hname hdir h

end Layers

/-- Of the options a layer takes the directory of the modules; the repository takes the relations
too, and the resolver which of its fields are excluded. -/
theorem sameInputs_ofOptions {n : EntityName} {o o' : Options} {l : Layer}
    (current current' : String) (names : ModuleNames)
    (hrelations : l = .repository → o.relations = o'.relations)
    (hexcludes : l = .resolver → ∀ f : ResolverField,
      f.exposedName n ∈ o.excludes ↔ f.exposedName n ∈ o'.excludes) :
    SameInputs (ofOptions current n o) (ofOptions current' n o') names names l := by
  cases l with
  | repository =>
    refine .repository ?_ rfl rfl rfl rfl rfl rfl
    simp only [ofOptions, hrelations]
  | service => exact .service rfl rfl
  | resolver =>
    refine .resolver rfl rfl ?_
    intro f
    simp only [ofOptions, mem_ascending, hexcludes]

/-- A layer's text depends on nothing but the layer's own inputs. Two blueprints of one entity name
with one directory of modules have the same text of every layer on whose inputs they agree. So of
the options, the base directory changes no text, nor does the order of the excludes, repeating one
of them, or one that is no field; the relations matter to the repository only, and the excludes to
the resolver only. -/
theorem text_of_sameInputs :
    (∀ (b c : Blueprint) (names names' : ModuleNames) (l : Layer), b.name = c.name →
      b.moduleDir = c.moduleDir → SameInputs b c names names' l →
      ∃ text, b.text names l = .ok text ∧ c.text names' l = .ok text) ∧
    ∀ (n : EntityName) (o o' : Options) (current current' : String) (names : ModuleNames)
      (l : Layer), o.moduleDir = o'.moduleDir →
      (l = .repository → o.relations = o'.relations) →
      (l = .resolver → ∀ f : ResolverField,
        f.exposedName n ∈ o.excludes ↔ f.exposedName n ∈ o'.excludes) →
      ∃ text, (ofOptions current n o).text names l = .ok text ∧
        (ofOptions current' n o').text names l = .ok text := by
  constructor
  · intro b c names names' l hname hdir h
    obtain ⟨text, htext⟩ := b.exists_text names l
    refine ⟨text, htext, ?_⟩
    rw [← text_congr hname hdir h, htext]
  · intro n o o' current current' names l hdir hrelations hexcludes
    obtain ⟨text, htext⟩ := (ofOptions current n o).exists_text names l
    have hsame := sameInputs_ofOptions current current' names hrelations hexcludes
    have hname : (ofOptions current n o).name = (ofOptions current' n o').name := rfl
    have hmodules : (ofOptions current n o).moduleDir = (ofOptions current' n o').moduleDir := by
      simp only [ofOptions, hdir]
    refine ⟨text, htext, ?_⟩
    rw [← text_congr hname hmodules hsame, htext]

/-- A service with other relations, under other modules that it does not import; and a resolver of
another directory, with its excludes in another order, one of them twice, and one that is no
field. -/
theorem text_of_sameInputs_order :
    (∃ text, ({ rootOrder with relations := "['items']" }).text
        { ModuleNames.standard with orm := "orm" } .service = .ok text ∧
      rootOrder.text .standard .service = .ok text) ∧
    ∃ text, (ofOptions "/" orderName
        ⟨some "/shop", ["orders", "order", "orders", "invoice"], none, none⟩).text .standard
          .resolver = .ok text ∧
      (ofOptions "/" orderName ⟨none, ["order", "orders"], none, none⟩).text .standard
        .resolver = .ok text := by
  constructor
  · exact text_of_sameInputs.1 _ _ _ _ _ rfl rfl (.service rfl rfl)
  · apply text_of_sameInputs.2 orderName _ _ "/" "/" .standard .resolver rfl
    · intro h
      cases h
    · intro _ f
      cases f <;> decide +kernel

end Blueprint

end CrudLayers
