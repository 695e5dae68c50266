import CrudLayers.Proofs.NamesApart
import CrudLayers.Proofs.Statements
import CrudLayers.Proofs.UsedSymbols

namespace CrudLayers

namespace SourceFile

/-- All identifiers at the top level of the file. -/
def topNames (f : SourceFile) : List String :=
  f.importedNames ++ [f.decl.name]

variable {f : SourceFile}

theorem mem_importedNames {symbol : String} :
    symbol ∈ f.importedNames ↔ ∃ home, (home, symbol) ∈ f.importPairs := by
  simp only [importedNames, importPairs, Import.mem_pairs, List.mem_flatMap]
  constructor
  · rintro ⟨i, hi, hs⟩
    exact ⟨i.source, i, hi, rfl, hs⟩
  · rintro ⟨_, i, hi, _, hs⟩
    exact ⟨i, hi, hs⟩

section Parts

variable {given : List (String × String)} {types : String → Prop} {home : String → String}
  (hpairs : ∀ source symbol, (source, symbol) ∈ f.importPairs ↔
    (source, symbol) ∈ given ∨ types symbol ∧ source = home symbol)

include hpairs

theorem mem_importedNames_parts {symbol : String} :
    symbol ∈ f.importedNames ↔ symbol ∈ given.map Prod.snd ∨ types symbol := by
  simp only [mem_importedNames, hpairs]
  constructor
  · rintro ⟨source, hg | ⟨ht, _⟩⟩
    · exact .inl (List.mem_map.mpr ⟨_, hg, rfl⟩)
    · exact .inr ht
  · rintro (hg | ht)
    · obtain ⟨p, hp, rfl⟩ := List.mem_map.mp hg
      exact ⟨p.1, .inl hp⟩
    · exact ⟨_, .inr ⟨ht, rfl⟩⟩

/-- If the types live in other modules than what is imported besides, an imported identifier stands
twice only where a type is called like something else. -/
theorem nodup_importedNames_parts (htidy : Import.Tidy f.imports)
    (hgiven : (given.map Prod.snd).Nodup) (hhome : ∀ p ∈ given, ∀ symbol, p.1 ≠ home symbol) :
    f.importedNames.Nodup ↔ ∀ p ∈ given, ¬ types p.2 := by
  rw [importedNames, htidy.nodup_names_iff]
  constructor
  · intro hone p hp ht
    exact hhome p hp p.2 (hone _ _ p.2 ((hpairs _ _).mpr (.inl hp))
      ((hpairs _ _).mpr (.inr ⟨ht, rfl⟩)))
  · intro hapart source source' symbol hl hr
    rcases (hpairs source symbol).mp hl with hleft | ⟨hleft, rfl⟩
    · rcases (hpairs source' symbol).mp hr with hright | ⟨hright, rfl⟩
      · exact congrArg Prod.fst (List.inj_on_of_nodup_map hgiven hleft hright rfl)
      · exact absurd hright (hapart _ hleft)
    · rcases (hpairs source' symbol).mp hr with hright | ⟨hright, rfl⟩
      · exact absurd hleft (hapart _ hright)
      · rfl

end Parts

end SourceFile

theorem suffix_toList_append (front s : String) : s.toList <:+ (front ++ s).toList := by
  rw [String.toList_append]
  exact List.suffix_append _ _

namespace Layer

def className : Layer → DerivedName
  | repository => .repositoryClass
  | service => .serviceClass
  | resolver => .resolverClass

/-- The class that a layer imports from the layer below, and how the name of its module ends. -/
def classImports : Layer → List (String × DerivedName)
  | repository => []
  | service => [(".repository", .repositoryClass)]
  | resolver => [(".service", .serviceClass)]

end Layer

namespace Blueprint

def wordImports (b : Blueprint) (names : ModuleNames) : Layer → List (String × String)
  | .repository => [(names.injectable, "Injectable"), (names.injectRepository, "InjectRepository"),
      (names.exception, names.exceptionClass), (names.orm, "Repository")]
  | .service => [(names.injectable, "Injectable")]
  | .resolver => (graphqlNames b.fields).map fun word => (names.graphql, word)

def givenImports (b : Blueprint) (names : ModuleNames) (l : Layer) : List (String × String) :=
  b.wordImports names l ++
    l.classImports.map fun p => ("./" ++ b.name.text ++ p.1, b.name.derived p.2)

def importedTypes (b : Blueprint) : Layer → List TypeRef
  | .repository => .model :: signatureTypes CatalogEntry.all
  | .service => signatureTypes CatalogEntry.all
  | .resolver => .model :: signatureTypes (b.fields.map (·.operation.entry))

theorem model_mem_importedTypes (b : Blueprint) (l : Layer) : .model ∈ b.importedTypes l := by
  cases l with
  | repository => exact List.mem_cons_self
  | service =>
    rw [importedTypes]
    decide
  | resolver => exact List.mem_cons_self

theorem decl_name (b : Blueprint) (names : ModuleNames) (l : Layer) :
    (b.sourceFile names l).decl.name = b.name.derived l.className := by
  cases l with
  | repository => rw [sourceFile, repositoryFile_decl, Layer.className]
  | service => rw [sourceFile, serviceFile_decl, Layer.className]
  | resolver => rw [sourceFile, resolverFile_decl, Layer.className]

theorem mem_importPairs (b : Blueprint) (names : ModuleNames) (l : Layer) (source symbol : String) :
    (source, symbol) ∈ (b.sourceFile names l).importPairs ↔
      (source, symbol) ∈ b.givenImports names l ∨
        (∃ t ∈ b.importedTypes l, t.symbol? b.name = some symbol) ∧
          source = b.typeModule names symbol := by
  cases l <;>
    simp only [sourceFile, repositoryFile, serviceFile, resolverFile, givenImports, wordImports,
      Layer.classImports, importedTypes, Assembly.mem_pairs_finish, mem_pairs_requireTypes,
      Assembly.pairs_methods, Assembly.mem_pairs_require, Assembly.pairs_decorate,
      Assembly.pairs_start, List.map_cons, List.map_nil, List.mem_append, List.mem_map,
      List.mem_cons, List.not_mem_nil, Prod.mk.injEq, false_or, or_false, or_assoc,
      exists_eq_right_right]
  rw [and_comm (a := source = names.graphql), eq_comm (a := source)]

/-- Each step of putting a file together keeps its imports tidy. -/
theorem tidy_sourceFile (b : Blueprint) (names : ModuleNames) (l : Layer) :
    Import.Tidy (b.sourceFile names l).imports := by
  cases l with
  | repository =>
    apply Assembly.tidy_finish
    apply Assembly.tidy_requireTypes
    apply Assembly.tidy_methods
    repeat apply Assembly.tidy_require
    apply Assembly.tidy_decorate
    exact Assembly.tidy_start
  | service =>
    apply Assembly.tidy_finish
    apply Assembly.tidy_requireTypes
    apply Assembly.tidy_methods
    repeat apply Assembly.tidy_require
    apply Assembly.tidy_decorate
    exact Assembly.tidy_start
  | resolver =>
    apply Assembly.tidy_finish
    apply Assembly.tidy_requireTypes
    repeat apply Assembly.tidy_require
    apply Assembly.tidy_methods
    apply Assembly.tidy_decorate
    exact Assembly.tidy_start

section Modules

def typeModuleEnds : List String :=
  [".entity", ".type", ".input", ".args"]

theorem typeModule_end (b : Blueprint) (names : ModuleNames) (symbol : String) :
    ∃ s ∈ typeModuleEnds, s.toList <:+ (b.typeModule names symbol).toList := by
  rw [typeModule]
  split
  · exact ⟨".entity", by decide, suffix_toList_append _ _⟩
  · split
    · exact ⟨".type", by decide, suffix_toList_append _ _⟩
    · split
      · exact ⟨".input", by decide, suffix_toList_append _ _⟩
      · exact ⟨".args", by decide, suffix_toList_append _ _⟩

theorem ne_typeModule {source : String} (h : ∀ s ∈ typeModuleEnds, ¬ s.toList <:+ source.toList)
    (b : Blueprint) (names : ModuleNames) (symbol : String) :
    source ≠ b.typeModule names symbol := by
  rintro rfl
  obtain ⟨s, hs, hend⟩ := b.typeModule_end names symbol
  exact h s hs hend

/-- The module of another layer ends with the layer, and not like a module of types. -/
theorem class_ne_typeModule {l : Layer} {p : String × DerivedName} (hp : p ∈ l.classImports)
    (front : String) (b : Blueprint) (names : ModuleNames) (symbol : String) :
    front ++ p.1 ≠ b.typeModule names symbol := by
  have hends : ∀ l ∈ Layer.all, ∀ p ∈ l.classImports, ∀ s ∈ typeModuleEnds,
      ¬ s.toList <:+ p.1.toList ∧ ¬ p.1.toList <:+ s.toList := by decide
  apply ne_typeModule
  intro s hs hend
  rcases List.suffix_or_suffix_of_suffix hend (suffix_toList_append front p.1) with h | h
  · exact (hends l l.mem_all p hp s hs).1 h
  · exact (hends l l.mem_all p hp s hs).2 h

theorem givenImports_ne_typeModule (b : Blueprint) (l : Layer) :
    ∀ p ∈ b.givenImports .standard l, ∀ symbol, p.1 ≠ b.typeModule .standard symbol := by
  have hstandard : ∀ source ∈ ["@tiejs/common", "@tiejs/typeorm", "@tiejs/exception", "typeorm",
      "type-graphql"], ∀ s ∈ typeModuleEnds, ¬ s.toList <:+ source.toList := by decide
  intro p hp symbol
  rcases List.mem_append.mp hp with hword | hclass
  · apply ne_typeModule
    apply hstandard
    cases l with
    | repository =>
      simp only [wordImports, List.mem_cons, List.not_mem_nil, or_false] at hword
      rcases hword with rfl | rfl | rfl | rfl <;> decide
    | service =>
      rw [List.mem_singleton.mp hword]
      decide
    | resolver =>
      obtain ⟨word, _, rfl⟩ := List.mem_map.mp hword
      simp [ModuleNames.standard]
  · obtain ⟨c, hc, rfl⟩ := List.mem_map.mp hclass
    exact class_ne_typeModule hc _ b _ symbol

end Modules

section Words

def words (b : Blueprint) : Layer → List String
  | .repository => ["Injectable", "InjectRepository", "BadRequest", "Repository"]
  | .service => ["Injectable"]
  | .resolver => graphqlNames b.fields

def allWords : List String :=
  ["Injectable", "InjectRepository", "BadRequest", "Repository", "Resolver", "Query", "Mutation",
    "Arg", "Args"]

theorem mem_allWords {b : Blueprint} {l : Layer} {word : String} (h : word ∈ b.words l) :
    word ∈ allWords := by
  cases l with
  | repository =>
    have hsub : ["Injectable", "InjectRepository", "BadRequest", "Repository"] ⊆ allWords := by
      decide
    exact hsub h
  | service =>
    rw [List.mem_singleton.mp h]
    decide
  | resolver =>
    have hqueries : ["Query", "Args"] ⊆ allWords := by decide
    have hmutations : ["Mutation", "Arg"] ⊆ allWords := by decide
    rcases mem_graphqlNames.mp h with rfl | ⟨_, _, _, hs⟩ | ⟨_, _, _, hs⟩
    · decide
    · exact hqueries hs
    · exact hmutations hs

theorem nodup_words (b : Blueprint) (l : Layer) : (b.words l).Nodup := by
  cases l with
  | repository =>
    rw [words]
    decide
  | service => exact List.nodup_singleton _
  | resolver =>
    rw [words, graphqlNames]
    generalize b.fields.any (fun f => f.operation.access == .query) = queries
    generalize b.fields.any (fun f => f.operation.access == .mutation) = mutations
    cases queries <;> cases mutations <;> decide

/-- No word ends like a derived name with something in front of it; but a name may be all there is
of a word, and the repository's class is a case of its own. -/
theorem allWords_end : ∀ word ∈ allWords, ∀ d ∈ DerivedName.all,
    d ∈ [.objectName, .modelName, .repositoryClass, .repositoryField] ∨
      ¬ d.pattern.after.toList <:+ word.toList.tail := by
  decide +kernel

theorem derived_ne_word (n : EntityName) {d : DerivedName} {word : String} (hword : word ∈ allWords)
    (hd : d ∉ [.objectName, .modelName, .repositoryClass, .repositoryField]) :
    n.derived d ≠ word :=
  NamePattern.fill_ne_word ((allWords_end word hword d d.mem_all).resolve_left hd)

/-- A type is imported under a derived name exactly if it is spelled by it. -/
theorem symbol?_eq_derived {t : TypeRef} {n : EntityName} {d : DerivedName} :
    t.symbol? n = some (n.derived d) ↔ t.derived? = some d := by
  rw [TypeRef.symbol?, Option.map_eq_some_iff]
  constructor
  · rintro ⟨e, he, heq⟩
    rw [he, n.derived_injective heq]
  · intro h
    exact ⟨d, h, rfl⟩

/-- The only type that may be called like a word is the model. -/
theorem symbol_word_iff {n : EntityName} {used : List TypeRef} {word : String}
    (hmodel : .model ∈ used) (hword : word ∈ allWords) :
    (∃ t ∈ used, t.symbol? n = some word) ↔ n.model = word := by
  constructor
  · rintro ⟨t, _, ht⟩
    obtain ⟨d, hd, heq⟩ := Option.map_eq_some_iff.mp ht
    by_cases hm : d = .modelName
    · rw [← derived_model, ← hm, heq]
    · refine absurd heq (derived_ne_word n hword ?_)
      cases t <;> cases hd <;> first | decide | exact absurd rfl hm
  · intro h
    refine ⟨.model, hmodel, ?_⟩
    rw [← h, ← derived_model]
    rfl

/-- No class of a layer is called like a type. -/
theorem not_symbol_class {n : EntityName} {used : List TypeRef} (l : Layer) :
    ¬ ∃ t ∈ used, t.symbol? n = some (n.derived l.className) := by
  rintro ⟨t, _, ht⟩
  rw [symbol?_eq_derived] at ht
  cases l <;> cases t <;> cases ht

/-- The class that a layer imports is called like no word of the layer. -/
theorem class_ne_word {b : Blueprint} {l : Layer} {p : String × DerivedName} {word : String}
    (hp : p ∈ l.classImports) (hword : word ∈ b.words l) : b.name.derived p.2 ≠ word := by
  cases l with
  | repository => cases hp
  | service =>
    rw [List.mem_singleton.mp hp, List.mem_singleton.mp hword]
    have hend : ¬ DerivedName.repositoryClass.pattern.after.toList <:+
        "Injectable".toList.tail := by decide
    exact NamePattern.fill_ne_word hend
  | resolver =>
    rw [List.mem_singleton.mp hp]
    exact derived_ne_word b.name (d := .serviceClass) (mem_allWords hword) (by decide)

theorem given_symbols (b : Blueprint) (l : Layer) :
    (b.givenImports .standard l).map Prod.snd =
      b.words l ++ (l.classImports.map Prod.snd).map b.name.derived := by
  have hwords : (b.wordImports .standard l).map Prod.snd = b.words l := by
    cases l with
    | repository => rfl
    | service => rfl
    | resolver =>
      rw [wordImports, List.map_map, words]
      exact List.map_id _
  rw [givenImports, List.map_append, hwords, List.map_map, List.map_map]
  rfl

theorem nodup_given (b : Blueprint) (l : Layer) :
    ((b.givenImports .standard l).map Prod.snd).Nodup := by
  rw [given_symbols, List.nodup_append]
  have hclasses : (l.classImports.map Prod.snd).Nodup := by
    cases l <;> decide
  refine ⟨b.nodup_words l, hclasses.map b.name.derived_injective, ?_⟩
  intro word hword name hname
  rw [List.map_map] at hname
  obtain ⟨p, hp, rfl⟩ := List.mem_map.mp hname
  exact (class_ne_word hp hword).symm

/-- Of what is imported besides the types, only a word can be called like one, and then the type is
the model. -/
theorem given_apart_iff (b : Blueprint) (l : Layer) :
    (∀ p ∈ b.givenImports .standard l, ¬ ∃ t ∈ b.importedTypes l, t.symbol? b.name = some p.2) ↔
      b.name.model ∉ b.words l := by
  have hsymbols : (∀ p ∈ b.givenImports .standard l,
      ¬ ∃ t ∈ b.importedTypes l, t.symbol? b.name = some p.2) ↔
      ∀ symbol ∈ b.words l ++ (l.classImports.map Prod.snd).map b.name.derived,
        ¬ ∃ t ∈ b.importedTypes l, t.symbol? b.name = some symbol := by
    rw [← given_symbols, List.forall_mem_map]
  rw [hsymbols]
  constructor
  · intro hapart hmem
    apply hapart _ (List.mem_append_left _ hmem)
    exact (symbol_word_iff (b.model_mem_importedTypes l) (mem_allWords hmem)).mpr rfl
  · intro hmodel symbol hsymbol
    rcases List.mem_append.mp hsymbol with hword | hclass
    · rw [symbol_word_iff (b.model_mem_importedTypes l) (mem_allWords hword)]
      rintro rfl
      exact hmodel hword
    · rw [List.map_map] at hclass
      obtain ⟨p, hp, rfl⟩ := List.mem_map.mp hclass
      have hnames : ∀ l ∈ Layer.all, ∀ p ∈ l.classImports,
          ∃ l' ∈ Layer.all, p.2 = l'.className := by decide
      obtain ⟨l', _, hl'⟩ := hnames l l.mem_all p hp
      rw [Function.comp_apply, hl']
      exact not_symbol_class l'

end Words

/-- Under the standard modules an identifier stands twice in a file exactly if the model, or the
file's class, is called like one of the words that the file imports. -/
theorem nodup_topNames (b : Blueprint) (l : Layer) : (b.sourceFile .standard l).topNames.Nodup ↔
    b.name.model ∉ b.words l ∧ b.name.derived l.className ∉ b.words l := by
  have hpairs := b.mem_importPairs .standard l
  have himported : (b.sourceFile .standard l).importedNames.Nodup ↔ b.name.model ∉ b.words l := by
    rw [SourceFile.nodup_importedNames_parts hpairs (b.tidy_sourceFile _ l) (b.nodup_given l)
      (b.givenImports_ne_typeModule l)]
    exact b.given_apart_iff l
  have hclass : b.name.derived l.className ∈ (b.sourceFile .standard l).importedNames ↔
      b.name.derived l.className ∈ b.words l := by
    rw [SourceFile.mem_importedNames_parts hpairs, or_iff_left (not_symbol_class l), given_symbols,
      List.mem_append, List.mem_map_of_injective b.name.derived_injective, or_iff_left]
    cases l <;> decide
  rw [SourceFile.topNames, decl_name, ← List.concat_eq_append, List.nodup_concat, hclass,
    himported, and_comm]

/-- The entities for which a layer's file has some identifier twice. -/
inductive Repeats (b : Blueprint) : Layer → Prop where
  | repository
    (h : b.name.text ∈ ["injectable", "injectRepository", "badRequest", "repository", "inject"]) :
    Repeats b .repository
  | service (h : b.name.text = "injectable") : Repeats b .service
  | resolver (h : b.name.text = "resolver") : Repeats b .resolver
  | query {f : ResolverField} (h : b.name.text ∈ ["query", "args"])
    (survives : f.exposedName b.name ∉ b.excludes) (ha : f.operation.access = .query) :
    Repeats b .resolver
  | mutation {f : ResolverField} (h : b.name.text ∈ ["mutation", "arg"])
    (survives : f.exposedName b.name ∉ b.excludes) (ha : f.operation.access = .mutation) :
    Repeats b .resolver

/-- The repository's class has a word's name for one entity, whose class is called like the
decorator of the repository's handle. -/
theorem repositoryClass_mem_iff {n : EntityName} :
    n.derived .repositoryClass ∈ ["Injectable", "InjectRepository", "BadRequest", "Repository"] ↔
      n.text ∈ ["inject"] := by
  have hother : ∀ word ∈ ["Injectable", "BadRequest", "Repository"],
      n.derived .repositoryClass ≠ word := by
    have hends : ∀ word ∈ ["Injectable", "BadRequest", "Repository"],
        ¬ DerivedName.repositoryClass.pattern.after.toList <:+ word.toList.tail := by decide
    exact fun word hword => NamePattern.fill_ne_word (hends word hword)
  have hclass : n.derived .repositoryClass = "InjectRepository" ↔ n.model ∈ ["Inject"] := by
    have hword : "InjectRepository" = "Inject" ++ "Repository" := rfl
    have hname : n.derived .repositoryClass = n.model ++ "Repository" := by
      simp [EntityName.derived, DerivedName.pattern, NamePattern.fill, EntityName.stem]
    rw [hname, hword, ← String.toList_inj, String.toList_append, String.toList_append,
      List.append_cancel_right_eq, String.toList_inj, List.mem_singleton]
  have hmodel : n.model ∈ ["Inject"] ↔ n.text ∈ ["inject"] :=
    EntityName.model_mem_iff (by decide) (by decide)
  rw [← hmodel, ← hclass]
  constructor
  · intro h
    by_contra hne
    rcases List.mem_cons.mp h with h | h
    · exact hother _ (by decide) h
    · exact hother _ (List.mem_cons_of_mem _ ((List.mem_cons.mp h).resolve_left hne)) rfl
  · intro h
    rw [h]
    decide

theorem repeats_repository_iff {b : Blueprint} : b.Repeats .repository ↔
    b.name.model ∈ b.words .repository ∨ b.name.derived .repositoryClass ∈ b.words .repository := by
  have hmodel : b.name.model ∈ b.words .repository ↔
      b.name.text ∈ ["injectable", "injectRepository", "badRequest", "repository"] :=
    EntityName.model_mem_iff (by decide) rfl
  rw [hmodel, words, repositoryClass_mem_iff, ← List.mem_append]
  constructor
  · intro h
    cases h with
    | repository h => exact h
  · exact .repository

theorem repeats_service_iff {b : Blueprint} : b.Repeats .service ↔
    b.name.model ∈ b.words .service ∨ b.name.derived .serviceClass ∈ b.words .service := by
  have hclass : b.name.derived .serviceClass ∉ b.words .service :=
    fun h => derived_ne_word b.name (mem_allWords h) (by decide) rfl
  have hmodel : b.name.model ∈ b.words .service ↔ b.name.text ∈ ["injectable"] :=
    EntityName.model_mem_iff (by decide) rfl
  rw [or_iff_left hclass, hmodel, List.mem_singleton]
  constructor
  · intro h
    cases h with
    | service h => exact h
  · exact .service

theorem repeats_resolver_iff {b : Blueprint} : b.Repeats .resolver ↔
    b.name.model ∈ b.words .resolver ∨ b.name.derived .resolverClass ∈ b.words .resolver := by
  have hclass : b.name.derived .resolverClass ∉ b.words .resolver :=
    fun h => derived_ne_word b.name (mem_allWords h) (by decide) rfl
  have hresolver : b.name.model ∈ ["Resolver"] ↔ b.name.text ∈ ["resolver"] :=
    EntityName.model_mem_iff (by decide) (by decide)
  have hquery : b.name.model ∈ ["Query", "Args"] ↔ b.name.text ∈ ["query", "args"] :=
    EntityName.model_mem_iff (by decide) (by decide)
  have hmutation : b.name.model ∈ ["Mutation", "Arg"] ↔ b.name.text ∈ ["mutation", "arg"] :=
    EntityName.model_mem_iff (by decide) (by decide)
  rw [or_iff_left hclass, words, mem_graphqlNames, ← List.mem_singleton, hresolver,
    List.mem_singleton, hquery, hmutation]
  constructor
  · intro h
    cases h with
    | resolver h => exact .inl h
    | query h survives ha => exact .inr (.inl ⟨_, mem_fields.mpr survives, ha, h⟩)
    | mutation h survives ha => exact .inr (.inr ⟨_, mem_fields.mpr survives, ha, h⟩)
  · rintro (h | ⟨f, hf, ha, h⟩ | ⟨f, hf, ha, h⟩)
    · exact .resolver h
    · exact .query h (mem_fields.mp hf) ha
    · exact .mutation h (mem_fields.mp hf) ha

/-- Under the standard modules the identifiers at the top level of a file are pairwise distinct, for
every entity and whatever its options, except for the entities that are named like a word which the
file imports, and for `inject`, whose repository is called like the decorator of its handle. -/
theorem repeated_iff_repeats (b : Blueprint) (l : Layer) :
    ¬ (b.sourceFile .standard l).topNames.Nodup ↔ b.Repeats l := by
  rw [nodup_topNames, ← not_or, not_not]
  cases l with
  | repository => exact repeats_repository_iff.symm
  | service => exact repeats_service_iff.symm
  | resolver => exact repeats_resolver_iff.symm

end Blueprint

end CrudLayers
