import CrudLayers.Layer.File
import CrudLayers.Proofs.Assembly
import CrudLayers.Proofs.TypeSymbols

namespace CrudLayers

namespace Blueprint

/-- The module that a type of a signature lives in, told by the type's spelling. -/
def typeModule (b : Blueprint) (names : ModuleNames) (symbol : String) : String :=
  if symbol = b.name.model then names.entityDir ++ "/" ++ b.name.text ++ ".entity"
  else if symbol = b.name.model ++ "Aggregate" then b.moduleDir ++ "/" ++ b.name.text ++ ".type"
  else if "Input".toList <:+ symbol.toList then b.moduleDir ++ "/" ++ b.name.text ++ ".input"
  else b.moduleDir ++ "/" ++ b.name.text ++ ".args"

def decoratorModule (names : ModuleNames) : Layer → String
  | .repository | .service => names.injectable
  | .resolver => names.graphql

/-- The module of the symbol at a place in the collaborator's type: a handle of the model, or the
class of the layer below. -/
def collaboratorModule (b : Blueprint) (names : ModuleNames) : Layer → Nat → String
  | .repository, 0 => names.orm
  | .repository, _ => names.entityDir ++ "/" ++ b.name.text ++ ".entity"
  | .service, _ => "./" ++ b.name.text ++ ".repository"
  | .resolver, _ => "./" ++ b.name.text ++ ".service"

/-- A symbol that the class of a layer uses, with the module that it has to come from. -/
inductive Uses (b : Blueprint) (names : ModuleNames) : Layer → String → String → Prop where
  | classDecorator {l : Layer} {d : Decorator}
      (h : d ∈ (b.sourceFile names l).decl.decorators) :
      Uses b names l (decoratorModule names l) d.name
  | collaboratorType {l : Layer} {place : Nat} {symbol : String}
      (h : (typeSymbols (b.sourceFile names l).decl.collaborator.typeName)[place]? = some symbol) :
      Uses b names l (b.collaboratorModule names l place) symbol
  | collaboratorDecorator {l : Layer} {d : Decorator}
      (h : (b.sourceFile names l).decl.collaborator.decorator = some d) :
      Uses b names l names.injectRepository d.name
  | parameter {l : Layer} {m : Method} {symbol : String}
      (hm : m ∈ (b.sourceFile names l).decl.methods)
      (hs : symbol ∈ typeSymbols m.parameter.typeName) :
      Uses b names l (b.typeModule names symbol) symbol
  | result {l : Layer} {m : Method} {symbol : String}
      (hm : m ∈ (b.sourceFile names l).decl.methods) (hs : symbol ∈ typeSymbols m.returnType) :
      Uses b names l (b.typeModule names symbol) symbol
  | exception : Uses b names .repository names.exception names.exceptionClass
  | model : Uses b names .resolver (names.entityDir ++ "/" ++ b.name.text ++ ".entity") b.name.model
  | query {f : ResolverField} {symbol : String} (survives : f.exposedName b.name ∉ b.excludes)
      (ha : f.operation.access = .query) (hs : symbol ∈ ["Query", "Args"]) :
      Uses b names .resolver names.graphql symbol
  | mutation {f : ResolverField} {symbol : String} (survives : f.exposedName b.name ∉ b.excludes)
      (ha : f.operation.access = .mutation) (hs : symbol ∈ ["Mutation", "Arg"]) :
      Uses b names .resolver names.graphql symbol

/-- The module that defines the types of one sort; builtin types have none. -/
def homeModule (b : Blueprint) (names : ModuleNames) : TypeHome → String
  | .builtin => ""
  | .entity => b.modelModule names
  | .types => b.typesModule "type"
  | .inputs => b.typesModule "input"
  | .args => b.typesModule "args"

theorem typesModule_eq (b : Blueprint) (sort : String) :
    b.typesModule sort = b.moduleDir ++ "/" ++ b.name.text ++ ("." ++ sort) :=
  String.append_assoc

theorem typeModule_input (b : Blueprint) (names : ModuleNames) (before : String) :
    b.typeModule names (before ++ b.name.model ++ "Input") = b.typesModule "input" := by
  have hm : before ++ b.name.model ++ "Input" ≠ b.name.model := by
    intro he
    have hl := congrArg (fun s : String => s.toList.length) he
    simp only [String.toList_append, List.length_append] at hl
    have hi : "Input".toList.length = 5 := rfl
    omega
  have ha : before ++ b.name.model ++ "Input" ≠ b.name.model ++ "Aggregate" := by
    intro he
    have hr := congrArg (fun s : String => s.toList.reverse) he
    simp at hr
  have hs : "Input".toList <:+ (before ++ b.name.model ++ "Input").toList :=
    ⟨_, by rw [String.toList_append]⟩
  rw [typeModule, if_neg hm, if_neg ha, if_pos hs, b.typesModule_eq]
  rfl

theorem typeModule_args (b : Blueprint) (names : ModuleNames) (before middle : String) :
    b.typeModule names (before ++ b.name.model ++ (middle ++ "Args")) = b.typesModule "args" := by
  have hm : before ++ b.name.model ++ (middle ++ "Args") ≠ b.name.model := by
    intro he
    have hl := congrArg (fun s : String => s.toList.length) he
    simp only [String.toList_append, List.length_append] at hl
    have hi : "Args".toList.length = 4 := rfl
    omega
  have ha : before ++ b.name.model ++ (middle ++ "Args") ≠ b.name.model ++ "Aggregate" := by
    intro he
    have hr := congrArg (fun s : String => s.toList.reverse) he
    simp at hr
  have hs : ¬ "Input".toList <:+ (before ++ b.name.model ++ (middle ++ "Args")).toList := by
    rintro ⟨front, he⟩
    have hr := congrArg List.reverse he
    simp at hr
  rw [typeModule, if_neg hm, if_neg ha, if_neg hs, b.typesModule_eq]
  rfl

/-- The spelling of a symbol tells its sort: no two sorts have a spelling in common. -/
theorem typeModule_symbol (b : Blueprint) (names : ModuleNames) {t : TypeRef} {symbol : String}
    (h : t.symbol? b.name = some symbol) :
    b.typeModule names symbol = b.homeModule names t.home := by
  obtain ⟨d, hd, rfl⟩ := Option.map_eq_some_iff.mp h
  cases t <;> simp only [TypeRef.derived?, Option.some.injEq, reduceCtorEq] at hd <;> subst hd
  case model | modelList =>
    simp [typeModule, homeModule, TypeRef.home, modelModule, EntityName.derived,
      DerivedName.pattern, NamePattern.fill, EntityName.stem]
  case aggregate =>
    have hm : b.name.model ++ "Aggregate" ≠ b.name.model := by
      intro he
      have hl := congrArg (fun s : String => s.toList.length) he
      simp at hl
    have hd : b.name.derived .aggregate = b.name.model ++ "Aggregate" := by
      simp [EntityName.derived, DerivedName.pattern, NamePattern.fill, EntityName.stem]
    rw [hd, typeModule, if_neg hm, if_pos rfl]
    exact (b.typesModule_eq "type").symm
  case queryArgs => exact b.typeModule_args names "Query" ""
  case queryManyArgs => exact b.typeModule_args names "Query" "s"
  case aggregateArgs => exact b.typeModule_args names "" "Aggregate"
  case createInput => exact b.typeModule_input names "Create"
  case updateInput => exact b.typeModule_input names "Update"
  case upsertInput => exact b.typeModule_input names "Upsert"
  case deleteInput => exact b.typeModule_input names "Delete"

theorem mem_symbolsFrom {b : Blueprint} {used : List TypeRef} {home : TypeHome} {symbol : String} :
    symbol ∈ b.symbolsFrom used home ↔
      ∃ t ∈ used, t.home = home ∧ t.symbol? b.name = some symbol := by
  simp only [symbolsFrom, List.mem_filterMap, List.mem_filter, decide_eq_true_eq]
  constructor
  · rintro ⟨t, ⟨_, hu, hh⟩, hs⟩
    exact ⟨t, hu, hh, hs⟩
  · rintro ⟨t, hu, hh, hs⟩
    exact ⟨t, ⟨t.mem_all, hu, hh⟩, hs⟩

/-- Types bring in their symbols, each from the module that its spelling tells. -/
theorem mem_pairs_requireTypes {a : Assembly} {b : Blueprint} {names : ModuleNames}
    {used : List TypeRef} {home symbol : String} :
    (home, symbol) ∈ (a.requireTypes b names used).pairs ↔ (home, symbol) ∈ a.pairs ∨
      (∃ t ∈ used, t.symbol? b.name = some symbol) ∧ home = b.typeModule names symbol := by
  simp only [Assembly.requireTypes, Assembly.mem_pairs_require, mem_symbolsFrom]
  constructor
  · rintro ((((ha | ⟨rfl, t, hu, hh, hs⟩) | ⟨rfl, t, hu, hh, hs⟩) | ⟨rfl, t, hu, hh, hs⟩) |
      ⟨rfl, t, hu, hh, hs⟩)
    · exact Or.inl ha
    all_goals exact Or.inr ⟨⟨t, hu, hs⟩, by rw [b.typeModule_symbol names hs, hh]; rfl⟩
  · rintro (ha | ⟨⟨t, hu, hs⟩, rfl⟩)
    · exact Or.inl (Or.inl (Or.inl (Or.inl ha)))
    · rw [b.typeModule_symbol names hs]
      cases hh : t.home with
      | builtin => cases t <;> simp [TypeRef.home, TypeRef.symbol?, TypeRef.derived?] at hh hs
      | entity => exact Or.inl (Or.inl (Or.inl (Or.inr ⟨rfl, t, hu, hh, hs⟩)))
      | types => exact Or.inl (Or.inl (Or.inr ⟨rfl, t, hu, hh, hs⟩))
      | inputs => exact Or.inl (Or.inr ⟨rfl, t, hu, hh, hs⟩)
      | args => exact Or.inr ⟨rfl, t, hu, hh, hs⟩

/-- What the methods of a class mention in their signatures are the symbols of the operations'
types, whatever else the methods are made of. -/
theorem signature_symbols {α : Type} (xs : List α) (entry : α → CatalogEntry)
    (make : α → Method) (n : EntityName) (symbol : String)
    (hp : ∀ x, (make x).parameter.typeName = (entry x).param.text n)
    (hr : ∀ x, (make x).returnType = (entry x).result.text n) :
    (∃ m ∈ xs.map make,
      symbol ∈ typeSymbols m.parameter.typeName ∨ symbol ∈ typeSymbols m.returnType) ↔
      ∃ t ∈ signatureTypes (xs.map entry), t.symbol? n = some symbol := by
  simp only [signatureTypes, List.mem_map, List.mem_flatMap, List.mem_cons, List.not_mem_nil,
    or_false]
  constructor
  · rintro ⟨_, ⟨x, hx, rfl⟩, hs⟩
    rw [hp, hr, typeSymbols_text, typeSymbols_text, Option.mem_toList, Option.mem_toList] at hs
    rcases hs with hs | hs
    · exact ⟨(entry x).param, ⟨entry x, ⟨x, hx, rfl⟩, Or.inl rfl⟩, hs⟩
    · exact ⟨(entry x).result, ⟨entry x, ⟨x, hx, rfl⟩, Or.inr rfl⟩, hs⟩
  · rintro ⟨t, ⟨_, ⟨x, hx, rfl⟩, ht⟩, hs⟩
    refine ⟨make x, ⟨x, hx, rfl⟩, ?_⟩
    rw [hp, hr, typeSymbols_text, typeSymbols_text, Option.mem_toList, Option.mem_toList]
    rcases ht with rfl | rfl
    · exact Or.inl hs
    · exact Or.inr hs

theorem repositoryFile_decl (b : Blueprint) (names : ModuleNames) :
    (b.repositoryFile names).decl = ⟨b.name.derived .repositoryClass, [⟨"Injectable", []⟩],
      b.repositoryCollaborator, CatalogEntry.all.map (b.repositoryMethod names)⟩ := by
  simp [repositoryFile]

theorem serviceFile_decl (b : Blueprint) (names : ModuleNames) :
    (b.serviceFile names).decl = ⟨b.name.derived .serviceClass, [⟨"Injectable", []⟩],
      b.serviceCollaborator, CatalogEntry.all.map b.serviceMethod⟩ := by
  simp [serviceFile]

theorem resolverFile_decl (b : Blueprint) (names : ModuleNames) :
    (b.resolverFile names).decl = ⟨b.name.derived .resolverClass,
      [⟨"Resolver", ["() => " ++ b.name.model]⟩], b.resolverCollaborator,
      b.fields.map b.resolverMethod⟩ := by
  simp [resolverFile]

theorem mem_fields {b : Blueprint} {f : ResolverField} :
    f ∈ b.fields ↔ f.exposedName b.name ∉ b.excludes := by
  simp [fields, exposes, isExcluded, ResolverField.mem_all]

variable {b : Blueprint} {names : ModuleNames} {home symbol : String}

/-- A type that some signature mentions is used, from the module that its spelling tells. -/
theorem Uses.signature {l : Layer} (h : ∃ m ∈ (b.sourceFile names l).decl.methods,
    symbol ∈ typeSymbols m.parameter.typeName ∨ symbol ∈ typeSymbols m.returnType) :
    Uses b names l (b.typeModule names symbol) symbol := by
  obtain ⟨m, hm, hs | hs⟩ := h
  · exact .parameter hm hs
  · exact .result hm hs

theorem typeModule_model (b : Blueprint) (names : ModuleNames) :
    b.typeModule names b.name.model = names.entityDir ++ "/" ++ b.name.text ++ ".entity" := by
  simp [typeModule]

/-- The types that a class needs besides its signatures' types: the model, or nothing. -/
theorem mem_model_cons {used : List TypeRef} {n : EntityName} :
    (∃ t ∈ TypeRef.model :: used, t.symbol? n = some symbol) ↔
      symbol = n.model ∨ ∃ t ∈ used, t.symbol? n = some symbol := by
  have hm : TypeRef.model.symbol? n = some symbol ↔ symbol = n.model := by
    simp [TypeRef.symbol?, TypeRef.derived?, derived_model, eq_comm]
  simp only [List.mem_cons, exists_eq_or_imp, hm]

theorem repository_signature :
    (∃ m ∈ (b.repositoryFile names).decl.methods,
      symbol ∈ typeSymbols m.parameter.typeName ∨ symbol ∈ typeSymbols m.returnType) ↔
      ∃ t ∈ signatureTypes CatalogEntry.all, t.symbol? b.name = some symbol := by
  rw [repositoryFile_decl]
  have h := signature_symbols CatalogEntry.all id (b.repositoryMethod names) b.name symbol
    (fun _ => rfl) (fun _ => rfl)
  rwa [List.map_id] at h

theorem service_signature :
    (∃ m ∈ (b.serviceFile names).decl.methods,
      symbol ∈ typeSymbols m.parameter.typeName ∨ symbol ∈ typeSymbols m.returnType) ↔
      ∃ t ∈ signatureTypes CatalogEntry.all, t.symbol? b.name = some symbol := by
  rw [serviceFile_decl]
  have h := signature_symbols CatalogEntry.all id b.serviceMethod b.name symbol
    (fun _ => rfl) (fun _ => rfl)
  rwa [List.map_id] at h

theorem resolver_signature :
    (∃ m ∈ (b.resolverFile names).decl.methods,
      symbol ∈ typeSymbols m.parameter.typeName ∨ symbol ∈ typeSymbols m.returnType) ↔
      ∃ t ∈ signatureTypes (b.fields.map (·.operation.entry)),
        t.symbol? b.name = some symbol := by
  rw [resolverFile_decl]
  exact signature_symbols b.fields (·.operation.entry) b.resolverMethod b.name symbol
    (fun _ => rfl) (fun _ => rfl)

theorem repository_imports : (home, symbol) ∈ (b.repositoryFile names).importPairs ↔
    Uses b names .repository home symbol := by
  simp only [repositoryFile, Assembly.mem_pairs_finish, mem_pairs_requireTypes,
    Assembly.pairs_methods, Assembly.mem_pairs_require, Assembly.pairs_decorate,
    Assembly.pairs_start, List.not_mem_nil, false_or, List.mem_singleton, mem_model_cons]
  have hdecl := b.repositoryFile_decl names
  have htypes : typeSymbols (b.repositoryFile names).decl.collaborator.typeName =
      ["Repository", b.name.model] := by
    rw [hdecl]
    exact typeSymbols_handle b.name
  constructor
  · rintro ((((⟨rfl, rfl⟩ | ⟨rfl, rfl⟩) | ⟨rfl, rfl⟩) | ⟨rfl, rfl⟩) | ⟨rfl | hs, rfl⟩)
    · exact .classDecorator (l := .repository) (d := ⟨"Injectable", []⟩)
        (by simp [sourceFile, hdecl])
    · exact .collaboratorDecorator (l := .repository) (d := ⟨"InjectRepository", [b.name.model]⟩)
        (by simp [sourceFile, hdecl, repositoryCollaborator])
    · exact .exception
    · exact @Uses.collaboratorType b names .repository 0 _ (by simp [sourceFile, htypes])
    · rw [typeModule_model]
      exact @Uses.collaboratorType b names .repository 1 _ (by simp [sourceFile, htypes])
    · exact .signature (repository_signature.mpr hs)
  · intro hu
    cases hu with
    | classDecorator h =>
      rw [sourceFile, hdecl, List.mem_singleton] at h
      subst h
      simp [decoratorModule]
    | @collaboratorType _ place _ h =>
      rw [sourceFile, htypes] at h
      rcases place with _ | _ | place
      · cases h
        simp [collaboratorModule]
      · cases h
        exact Or.inr ⟨Or.inl rfl, (b.typeModule_model names).symm⟩
      · simp at h
    | collaboratorDecorator h =>
      rw [sourceFile, hdecl] at h
      cases h
      simp
    | parameter hm hs => exact Or.inr ⟨Or.inr (repository_signature.mp ⟨_, hm, Or.inl hs⟩), rfl⟩
    | result hm hs => exact Or.inr ⟨Or.inr (repository_signature.mp ⟨_, hm, Or.inr hs⟩), rfl⟩
    | exception => simp

theorem service_imports : (home, symbol) ∈ (b.serviceFile names).importPairs ↔
    Uses b names .service home symbol := by
  simp only [serviceFile, Assembly.mem_pairs_finish, mem_pairs_requireTypes,
    Assembly.pairs_methods, Assembly.mem_pairs_require, Assembly.pairs_decorate,
    Assembly.pairs_start, List.not_mem_nil, false_or, List.mem_singleton]
  have hdecl := b.serviceFile_decl names
  have htypes : typeSymbols (b.serviceFile names).decl.collaborator.typeName =
      [b.name.derived .repositoryClass] := by
    rw [hdecl]
    exact typeSymbols_derived b.name rfl
  constructor
  · rintro ((⟨rfl, rfl⟩ | ⟨rfl, rfl⟩) | ⟨hs, rfl⟩)
    · exact .classDecorator (l := .service) (d := ⟨"Injectable", []⟩) (by simp [sourceFile, hdecl])
    · exact @Uses.collaboratorType b names .service 0 _ (by simp [sourceFile, htypes])
    · exact .signature (service_signature.mpr hs)
  · intro hu
    cases hu with
    | classDecorator h =>
      rw [sourceFile, hdecl, List.mem_singleton] at h
      subst h
      simp [decoratorModule]
    | @collaboratorType _ place _ h =>
      rw [sourceFile, htypes] at h
      rcases place with _ | place
      · cases h
        simp [collaboratorModule]
      · simp at h
    | collaboratorDecorator h =>
      rw [sourceFile, hdecl] at h
      cases h
    | parameter hm hs => exact Or.inr ⟨service_signature.mp ⟨_, hm, Or.inl hs⟩, rfl⟩
    | result hm hs => exact Or.inr ⟨service_signature.mp ⟨_, hm, Or.inr hs⟩, rfl⟩

/-- The decorators of fields are imported as far as there are fields of their kind. -/
theorem mem_graphqlNames {fields : List ResolverField} :
    symbol ∈ graphqlNames fields ↔ symbol = "Resolver" ∨
      (∃ f ∈ fields, f.operation.access = .query ∧ symbol ∈ ["Query", "Args"]) ∨
      (∃ f ∈ fields, f.operation.access = .mutation ∧ symbol ∈ ["Mutation", "Arg"]) := by
  have hq : fields.any (fun f => f.operation.access == .query) = true ↔
      ∃ f ∈ fields, f.operation.access = .query := by simp
  have hm : fields.any (fun f => f.operation.access == .mutation) = true ↔
      ∃ f ∈ fields, f.operation.access = .mutation := by simp
  simp only [graphqlNames, List.mem_append]
  split <;> rename_i h1 <;> split <;> rename_i h2 <;> rw [hq] at h1 <;> rw [hm] at h2 <;> grind

theorem resolver_imports : (home, symbol) ∈ (b.resolverFile names).importPairs ↔
    Uses b names .resolver home symbol := by
  simp only [resolverFile, Assembly.mem_pairs_finish, mem_pairs_requireTypes,
    Assembly.pairs_methods, Assembly.mem_pairs_require, Assembly.pairs_decorate,
    Assembly.pairs_start, List.not_mem_nil, false_or, List.mem_singleton, mem_model_cons,
    mem_graphqlNames]
  have hdecl := b.resolverFile_decl names
  have htypes : typeSymbols (b.resolverFile names).decl.collaborator.typeName =
      [b.name.derived .serviceClass] := by
    rw [hdecl]
    exact typeSymbols_derived b.name rfl
  constructor
  · rintro ((⟨rfl, rfl | ⟨f, hf, ha, hs⟩ | ⟨f, hf, ha, hs⟩⟩ | ⟨rfl, rfl⟩) | ⟨rfl | hs, rfl⟩)
    · exact .classDecorator (l := .resolver) (d := ⟨"Resolver", ["() => " ++ b.name.model]⟩)
        (by simp [sourceFile, hdecl])
    · exact .query (mem_fields.mp hf) ha hs
    · exact .mutation (mem_fields.mp hf) ha hs
    · exact @Uses.collaboratorType b names .resolver 0 _ (by simp [sourceFile, htypes])
    · rw [typeModule_model]
      exact .model
    · exact .signature (resolver_signature.mpr hs)
  · intro hu
    cases hu with
    | classDecorator h =>
      rw [sourceFile, hdecl, List.mem_singleton] at h
      subst h
      simp [decoratorModule]
    | @collaboratorType _ place _ h =>
      rw [sourceFile, htypes] at h
      rcases place with _ | place
      · cases h
        simp [collaboratorModule]
      · simp at h
    | collaboratorDecorator h =>
      rw [sourceFile, hdecl] at h
      cases h
    | parameter hm hs => exact Or.inr ⟨Or.inr (resolver_signature.mp ⟨_, hm, Or.inl hs⟩), rfl⟩
    | result hm hs => exact Or.inr ⟨Or.inr (resolver_signature.mp ⟨_, hm, Or.inr hs⟩), rfl⟩
    | model => exact Or.inr ⟨Or.inl rfl, (b.typeModule_model names).symm⟩
    | query hf ha hs => exact Or.inl (Or.inl ⟨rfl, Or.inr (Or.inl ⟨_, mem_fields.mpr hf, ha, hs⟩)⟩)
    | mutation hf ha hs =>
      exact Or.inl (Or.inl ⟨rfl, Or.inr (Or.inr ⟨_, mem_fields.mpr hf, ha, hs⟩)⟩)

/-- A layer's file imports exactly what its class uses, each symbol from its own module; this holds
for every blueprint and for all module names, also where modules coincide. -/
theorem imports_exactly_uses (b : Blueprint) (names : ModuleNames) (l : Layer)
    (home symbol : String) :
    (home, symbol) ∈ (b.sourceFile names l).importPairs ↔ Uses b names l home symbol := by
  cases l with
  | repository => exact repository_imports
  | service => exact service_imports
  | resolver => exact resolver_imports

end Blueprint

end CrudLayers
