import CrudLayers.Proofs.Parents
import CrudLayers.Proofs.UsedSymbols

namespace CrudLayers

namespace SourceFile

def named (f : SourceFile) (name : String) : List Method :=
  f.decl.methods.filter (·.name = name)

/-- The class is constructed with the class of the lower file, which it imports by the name of that
file; the two files stand in one directory. -/
structure BuiltOn (upper lower : SourceFile) : Prop where
  collaborator : upper.decl.collaborator.typeName = lower.decl.name
  imported : ∃ stem, Path.fileName? lower.path = some (stem ++ ".ts") ∧
    ("./" ++ stem, lower.decl.name) ∈ upper.importPairs
  beside : ∃ directory, Path.parent? upper.path = some directory ∧
    Path.parent? lower.path = some directory

/-- A method of the upper class hands its own parameter on to the method `target` of what the class
is constructed with; the lower class has exactly one such method, of the same signature. -/
structure Forwards (upper lower : SourceFile) (m : Method) (target : String) : Prop where
  template : m.body.template = Template.delegateName
  collaborator : m.body.values.lookup "collaborator" = some upper.decl.collaborator.field
  method : m.body.values.lookup "method" = some target
  param : m.body.values.lookup "param" = some m.parameter.name
  received : ∃ t, lower.named target = [t] ∧ t.parameter.typeName = m.parameter.typeName ∧
    t.returnType = m.returnType

end SourceFile

/-- One method for each operation, named after it: an operation's name finds its method alone. -/
theorem filter_methodName (make : CatalogEntry → Method)
    (hm : ∀ e, (make e).name = e.operation.methodName) (o : Operation) :
    (CatalogEntry.all.map make).filter (·.name = o.methodName) = [make o.entry] := by
  have hone : Operation.all.filter (fun p => p.methodName = o.methodName) = [o] := by
    cases o <;> decide
  rw [CatalogEntry.all_eq_map_entry, List.map_map, List.filter_map]
  simp only [Function.comp_def, hm, Operation.operation_entry, hone, List.map_cons, List.map_nil]

namespace Blueprint

variable {b : Blueprint} {names : ModuleNames}

theorem serviceFile_named (o : Operation) :
    (b.serviceFile names).named o.methodName = [b.serviceMethod o.entry] := by
  rw [SourceFile.named, serviceFile_decl]
  exact filter_methodName b.serviceMethod (fun _ => rfl) o

theorem repositoryFile_named (o : Operation) :
    (b.repositoryFile names).named o.methodName = [b.repositoryMethod names o.entry] := by
  rw [SourceFile.named, repositoryFile_decl]
  exact filter_methodName (b.repositoryMethod names) (fun _ => rfl) o

theorem sourceFile_path (b : Blueprint) (names : ModuleNames) (l : Layer) :
    (b.sourceFile names l).path = b.filePath l := by
  cases l with
  | repository => simp [sourceFile, repositoryFile]
  | service => simp [sourceFile, serviceFile]
  | resolver => simp [sourceFile, resolverFile]

/-- A layer's file is named as the layer above imports it, with the ending. -/
theorem fileName?_stem (b : Blueprint) (l : Layer) :
    Path.fileName? (b.filePath l) = some (b.name.text ++ ("." ++ l.name) ++ ".ts") := by
  rw [fileName?_filePath, Layer.fileName, @String.append_assoc b.name.text]

/-- Two files of an entity fit together once the class of the one is imported by the other. -/
theorem builtOn_of_imported (b : Blueprint) (names : ModuleNames) (upper lower : Layer)
    (hc : (b.sourceFile names upper).decl.collaborator.typeName =
      (b.sourceFile names lower).decl.name)
    (hi : ("./" ++ b.name.text ++ ("." ++ lower.name), (b.sourceFile names lower).decl.name) ∈
      (b.sourceFile names upper).importPairs) :
    (b.sourceFile names upper).BuiltOn (b.sourceFile names lower) where
  collaborator := hc
  imported := by
    refine ⟨b.name.text ++ ("." ++ lower.name), ?_, ?_⟩
    · rw [sourceFile_path]
      exact b.fileName?_stem lower
    · rwa [← @String.append_assoc "./"]
  beside := by
    refine ⟨b.outputDir, ?_, ?_⟩
    · rw [sourceFile_path]
      exact b.parent?_filePath upper
    · rw [sourceFile_path]
      exact b.parent?_filePath lower

theorem resolver_builtOn : (b.resolverFile names).BuiltOn (b.serviceFile names) := by
  apply builtOn_of_imported b names .resolver .service
  · simp only [sourceFile, resolverFile_decl, serviceFile_decl, resolverCollaborator]
  · simp only [sourceFile, serviceFile_decl, resolverFile, Assembly.mem_pairs_finish,
      mem_pairs_requireTypes, Assembly.mem_pairs_require, List.mem_singleton]
    exact Or.inl (Or.inr ⟨rfl, trivial⟩)

theorem service_builtOn : (b.serviceFile names).BuiltOn (b.repositoryFile names) := by
  apply builtOn_of_imported b names .service .repository
  · simp only [sourceFile, serviceFile_decl, repositoryFile_decl, serviceCollaborator]
  · simp only [sourceFile, repositoryFile_decl, serviceFile, Assembly.mem_pairs_finish,
      mem_pairs_requireTypes, Assembly.pairs_methods, Assembly.mem_pairs_require,
      List.mem_singleton]
    exact Or.inl (Or.inr ⟨rfl, trivial⟩)

theorem resolver_forwards (f : ResolverField) :
    SourceFile.Forwards (b.resolverFile names) (b.serviceFile names) (b.resolverMethod f)
      f.operation.methodName where
  template := rfl
  collaborator := by rw [resolverFile_decl]; rfl
  method := rfl
  param := rfl
  received := ⟨b.serviceMethod f.operation.entry, serviceFile_named f.operation, rfl, rfl⟩

theorem service_forwards {e : CatalogEntry} (h : e ∈ CatalogEntry.all) :
    SourceFile.Forwards (b.serviceFile names) (b.repositoryFile names) (b.serviceMethod e)
      e.operation.methodName where
  template := rfl
  collaborator := by rw [serviceFile_decl]; rfl
  method := rfl
  param := rfl
  received := by
    refine ⟨b.repositoryMethod names e, ?_, rfl, rfl⟩
    rw [repositoryFile_named, CatalogEntry.entry_operation h]

/-- The layers form a closed chain of delegation. Every field that the excludes leave calls the
service method that its directive names, every service method calls the repository method of its
own name, and each call finds exactly one method with the caller's types. -/
theorem delegation_closed (b : Blueprint) (names : ModuleNames) :
    (b.resolverFile names).BuiltOn (b.serviceFile names) ∧
    (b.serviceFile names).BuiltOn (b.repositoryFile names) ∧
    (∀ m ∈ (b.resolverFile names).decl.methods, ∃ d, m.directive = some d ∧
      SourceFile.Forwards (b.resolverFile names) (b.serviceFile names) m d.delegatesTo) ∧
    (∀ m ∈ (b.serviceFile names).decl.methods,
      SourceFile.Forwards (b.serviceFile names) (b.repositoryFile names) m m.name) := by
  refine ⟨resolver_builtOn, service_builtOn, ?_, ?_⟩
  · intro m hm
    rw [resolverFile_decl] at hm
    obtain ⟨f, _, rfl⟩ := List.mem_map.mp hm
    exact ⟨b.directive f, rfl, resolver_forwards f⟩
  · intro m hm
    rw [serviceFile_decl] at hm
    obtain ⟨e, he, rfl⟩ := List.mem_map.mp hm
    exact service_forwards he

end Blueprint

end CrudLayers
