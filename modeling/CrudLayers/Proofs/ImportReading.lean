import CrudLayers.Proofs.Dependence
import CrudLayers.Proofs.Requests
import CrudLayers.Proofs.ValidNames
import CrudLayers.Proofs.Variables

namespace CrudLayers

namespace Literal

/-- The characters of a literal up to the quote that ends it, and what follows. A backslash takes
the next character as it is; no line ends within a literal. -/
def read : List Char → Option (List Char × List Char)
  | '\'' :: rest => some ([], rest)
  | '\\' :: c :: rest => (read rest).map fun p => (c :: p.1, p.2)
  | c :: rest =>
    if c = '\n' ∨ c = '\r' then none
    else (read rest).map fun p => (c :: p.1, p.2)
  | [] => none

def Whole (s : List Char) : Prop :=
  '\n' ∉ s ∧ '\r' ∉ s

instance (s : List Char) : Decidable (Whole s) :=
  inferInstanceAs (Decidable (_ ∧ _))

theorem whole_cons {c : Char} {s : List Char} :
    Whole (c :: s) ↔ ¬(c = '\n' ∨ c = '\r') ∧ Whole s := by
  simp only [Whole, List.mem_cons, not_or, eq_comm (a := c)]
  exact and_and_and_comm

theorem length_read {s rest : List Char} {chars : List Char} (h : read s = some (chars, rest)) :
    rest.length < s.length := by
  fun_induction read s generalizing chars with
  | case1 tail =>
    cases h
    exact Nat.lt_succ_self _
  | case2 c tail ih =>
    obtain ⟨p, hp, he⟩ := Option.map_eq_some_iff.mp h
    cases he
    have hlt := ih hp
    simp only [List.length_cons]
    omega
  | case3 => cases h
  | case4 c tail _ _ _ ih =>
    obtain ⟨p, hp, he⟩ := Option.map_eq_some_iff.mp h
    cases he
    have hlt := ih hp
    simp only [List.length_cons]
    omega
  | case5 => cases h

/-- What has been written between quotes is read back, unless a line ends within. -/
theorem read_quote (s rest : List Char) :
    read (s.flatMap escape ++ '\'' :: rest) = if Whole s then some (s, rest) else none := by
  induction s with
  | nil => simp [read, Whole]
  | cons c s ih =>
    simp only [List.flatMap_cons, List.append_assoc, escape, whole_cons]
    split
    · rename_i hc
      have hline : ¬(c = '\n' ∨ c = '\r') := by
        rcases hc with rfl | rfl <;> decide
      simp only [List.cons_append, List.nil_append, read, ih, hline, not_false_eq_true, true_and]
      split <;> rfl
    · rename_i hc
      rw [not_or] at hc
      rw [List.singleton_append, read, ih]
      · by_cases hline : c = '\n' ∨ c = '\r'
        · simp [hline]
        · simp only [hline, if_false, not_false_eq_true, true_and]
          split <;> rfl
      · exact hc.2
      · intro _ _ h _
        exact hc.1 h

end Literal

namespace Import

def isNamePart (c : Char) : Bool :=
  !isBlank c && c != ','

/-- What can be imported under its name: every identifier can, in whatever alphabet. -/
structure IsSymbol (s : String) : Prop where
  ne_empty : s ≠ ""
  parts : ∀ c ∈ s.toList, isNamePart c = true

theorem IsSymbol.of_isIdentifier {s : String} (h : IsIdentifier s) : IsSymbol s where
  ne_empty := by
    rintro rfl
    exact h
  parts c hc := by
    have hname := isNameChar_iff.mpr (h.chars c hc)
    have hcomma : c ≠ ',' := by
      rintro rfl
      cases hname
    simp [isNamePart, not_isBlank_of_isNameChar hname, hcomma]

/-- The names up to the closing brace, and what follows. The beginning of a name is kept backwards
while it is read. -/
def readNames (seen : List Char) : List Char → Option (List String × List Char)
  | c :: d :: rest =>
    if isNamePart c then readNames (c :: seen) (d :: rest)
    else if seen = [] then none
    else if c = ',' ∧ d = ' ' then
      (readNames [] rest).map fun p => (String.ofList seen.reverse :: p.1, p.2)
    else if c = ' ' ∧ d = '\x7d' then some ([String.ofList seen.reverse], rest)
    else none
  | _ => none

def readStatement (s : List Char) : Option ((String × List String) × List Char) := do
  let (names, s) ← readNames [] (← s.dropPrefix? "import \x7b ".toList)
  let (source, s) ← Literal.read (← s.dropPrefix? " from '".toList)
  let s ← s.dropPrefix? ['\n']
  return ((String.ofList source, names), s)

theorem length_readNames {seen s rest : List Char} {names : List String}
    (h : readNames seen s = some (names, rest)) : rest.length < s.length := by
  fun_induction readNames seen s generalizing names with
  | case1 seen c d tail _ ih =>
    have hlt := ih h
    simp only [List.length_cons] at hlt ⊢
    omega
  | case2 => cases h
  | case3 seen c d tail _ _ _ ih =>
    obtain ⟨p, hp, he⟩ := Option.map_eq_some_iff.mp h
    cases he
    have hlt := ih hp
    simp only [List.length_cons]
    omega
  | case4 =>
    cases h
    simp only [List.length_cons]
    omega
  | case5 => cases h
  | case6 => cases h

theorem length_dropPrefix? {s lead rest : List Char} (h : s.dropPrefix? lead = some rest) :
    rest.length ≤ s.length := by
  obtain ⟨_, rfl, _⟩ := List.dropPrefix?_eq_some_iff.mp h
  simp

theorem length_readStatement {s rest : List Char} {statement : String × List String}
    (h : readStatement s = some (statement, rest)) : rest.length < s.length := by
  simp only [readStatement, Option.bind_eq_bind, Option.bind_eq_some_iff] at h
  obtain ⟨t, ht, ⟨names, u⟩, hu, v, hv, ⟨source, w⟩, hw, x, hx, he⟩ := h
  cases he
  have h1 := length_dropPrefix? ht
  have h2 := length_readNames hu
  have h3 := length_dropPrefix? hv
  have h4 := Literal.length_read hw
  have h5 := length_dropPrefix? hx
  dsimp only at h2 h3 h4 h5
  omega

/-- The statements up to the first empty line. -/
def readStatements (s : List Char) : Option (List (String × List String)) :=
  if s.head? = some '\n' then some []
  else
    match _h : readStatement s with
    | none => none
    | some (statement, rest) => (readStatements rest).map (statement :: ·)
termination_by s.length
decreasing_by exact length_readStatement _h

/-- The statements of a file, behind its first line. -/
def read? (text : String) : Option (List (String × List String)) :=
  readStatements ((text.toList.dropWhile (· ≠ '\n')).drop 1)

theorem readNames_append {s rest : List Char} (h : ∀ c ∈ s, isNamePart c = true)
    (seen : List Char) (hrest : rest ≠ []) :
    readNames seen (s ++ rest) = readNames (s.reverse ++ seen) rest := by
  induction s generalizing seen with
  | nil => rfl
  | cons c s ih =>
    obtain ⟨hc, hs⟩ := List.forall_mem_cons.mp h
    obtain ⟨d, tail, htail⟩ :=
      List.exists_cons_of_ne_nil (List.append_ne_nil_of_right_ne_nil s hrest)
    rw [List.cons_append, htail, readNames, if_pos hc, ← htail, ih hs]
    simp

section Symbols

variable {name : String}

theorem readNames_next (h : IsSymbol name) (rest : List Char) :
    readNames [] (name.toList ++ ',' :: ' ' :: rest) =
      (readNames [] rest).map fun p => (name :: p.1, p.2) := by
  have hne : name.toList.reverse ++ [] ≠ [] := by simpa using h.ne_empty
  rw [readNames_append h.parts _ (by simp), readNames, if_neg (by decide), if_neg hne]
  simp

theorem readNames_last (h : IsSymbol name) (rest : List Char) :
    readNames [] (name.toList ++ ' ' :: '\x7d' :: rest) = some ([name], rest) := by
  have hne : name.toList.reverse ++ [] ≠ [] := by simpa using h.ne_empty
  rw [readNames_append h.parts _ (by simp), readNames, if_neg (by decide), if_neg hne]
  simp

end Symbols

/-- Names are read back up to the brace behind them. -/
theorem readNames_intercalate {names : List String} (hne : names ≠ [])
    (h : ∀ name ∈ names, IsSymbol name) (rest : List Char) :
    readNames [] ((", ".intercalate names).toList ++ ' ' :: '\x7d' :: rest) =
      some (names, rest) := by
  induction names with
  | nil => exact absurd rfl hne
  | cons name more ih =>
    obtain ⟨hname, hmore⟩ := List.forall_mem_cons.mp h
    cases more with
    | nil => rw [String.intercalate_singleton, readNames_last hname]
    | cons next more =>
      have hparts : (", ".intercalate (name :: next :: more)).toList ++ ' ' :: '\x7d' :: rest =
          name.toList ++ ',' :: ' ' ::
            ((", ".intercalate (next :: more)).toList ++ ' ' :: '\x7d' :: rest) := by
        rw [String.intercalate_cons_cons]
        simp
      rw [hparts, readNames_next hname, ih (by simp) hmore]
      rfl

structure Readable (i : Import) : Prop where
  named : i.names ≠ []
  symbols : ∀ name ∈ i.names, IsSymbol name

/-- A statement is read back, unless a line ends in its module. -/
theorem readStatement_text {i : Import} (h : i.Readable) (rest : List Char) :
    readStatement (i.text.toList ++ '\n' :: rest) =
      if Literal.Whole i.source.toList then some ((i.source, i.names), rest) else none := by
  have hparts : i.text.toList ++ '\n' :: rest = "import \x7b ".toList ++
      ((", ".intercalate i.names).toList ++ ' ' :: '\x7d' :: (" from '".toList ++
        (i.source.toList.flatMap Literal.escape ++ '\'' :: (['\n'] ++ rest)))) := by
    simp [text, quoted, Literal.quote]
  rw [hparts, readStatement, List.dropPrefix?_append_of_beq _ BEq.rfl]
  simp only [Option.bind_eq_bind, Option.bind_some]
  rw [readNames_intercalate h.named h.symbols]
  simp only [Option.bind_some]
  rw [List.dropPrefix?_append_of_beq _ BEq.rfl]
  simp only [Option.bind_some, Literal.read_quote]
  by_cases hsource : Literal.Whole i.source.toList
  · simp only [hsource, if_true, Option.bind_some]
    rw [List.dropPrefix?_append_of_beq _ BEq.rfl]
    simp
  · simp [hsource]

section Lines

variable {s rest : List Char}

theorem readStatements_newline (rest : List Char) : readStatements ('\n' :: rest) = some [] := by
  rw [readStatements, if_pos (List.head?_cons)]

theorem readStatements_of_none (hline : s.head? ≠ some '\n') (h : readStatement s = none) :
    readStatements s = none := by
  rw [readStatements, if_neg hline]
  split
  · rfl
  · rename_i hsome
    rw [h] at hsome
    cases hsome

theorem readStatements_of_some {statement : String × List String} (hline : s.head? ≠ some '\n')
    (h : readStatement s = some (statement, rest)) :
    readStatements s = (readStatements rest).map (statement :: ·) := by
  rw [readStatements, if_neg hline]
  split
  · rename_i hnone
    rw [h] at hnone
    cases hnone
  · rename_i hsome
    rw [h] at hsome
    cases hsome
    rfl

end Lines

/-- Statements are read back up to the empty line behind them, unless a module breaks its line. -/
theorem readStatements_text {imports : List Import} (h : ∀ i ∈ imports, i.Readable)
    (rest : List Char) :
    readStatements (imports.flatMap (fun i => i.text.toList ++ ['\n']) ++ '\n' :: rest) =
      if ∀ i ∈ imports, Literal.Whole i.source.toList then
        some (imports.map fun i => (i.source, i.names))
      else none := by
  induction imports with
  | nil => simp [readStatements_newline]
  | cons i more ih =>
    obtain ⟨hi, hmore⟩ := List.forall_mem_cons.mp h
    have hhead : (i.text.toList ++ '\n' ::
        (more.flatMap (fun i => i.text.toList ++ ['\n']) ++ '\n' :: rest)).head? ≠ some '\n' := by
      simp [text]
    have hstatement := readStatement_text hi
      (more.flatMap (fun i => i.text.toList ++ ['\n']) ++ '\n' :: rest)
    rw [List.flatMap_cons, List.append_assoc, List.append_assoc, List.singleton_append]
    by_cases hsource : Literal.Whole i.source.toList
    · rw [if_pos hsource] at hstatement
      rw [readStatements_of_some hhead hstatement, ih hmore]
      simp only [List.forall_mem_cons, hsource, true_and, List.map_cons]
      split <;> rfl
    · rw [if_neg hsource] at hstatement
      rw [readStatements_of_none hhead hstatement, if_neg]
      exact fun hall => hsource (hall i List.mem_cons_self)

end Import

theorem intercalate_newline {texts : List String} (h : texts ≠ []) (rest : List Char) :
    ("\n".intercalate texts).toList ++ '\n' :: rest =
      texts.flatMap (fun text => text.toList ++ ['\n']) ++ rest := by
  induction texts with
  | nil => exact absurd rfl h
  | cons text more ih =>
    cases more with
    | nil => simp
    | cons next more =>
      rw [List.flatMap_cons, List.append_assoc, ← ih (by simp), String.intercalate_cons_cons]
      simp

namespace SourceFile

def classText (f : SourceFile) : String :=
  String.join (f.decl.decorators.map (fun d => d.text ++ "\n")) ++
    "export class " ++ f.decl.name ++ " \x7b\n" ++
    "\n\n".intercalate (f.decl.collaborator.text :: f.decl.methods.map Method.plainText) ++
    "\n\x7d\n"

variable {f : SourceFile}

theorem toList_plainText (f : SourceFile) : f.plainText.toList = Template.header.toList ++ '\n' ::
    (("\n".intercalate (f.imports.map Import.text)).toList ++ '\n' :: '\n' ::
      f.classText.toList) := by
  delta plainText classText
  simp

/-- The statements of a file can be read back from its text, unless a module breaks its line. -/
theorem read_plainText (h : ∀ i ∈ f.imports, i.Readable) : Import.read? f.plainText =
    if ∀ i ∈ f.imports, Literal.Whole i.source.toList then
      some (f.imports.map fun i => (i.source, i.names))
    else none := by
  have hheader : ∀ c ∈ Template.header.toList, decide (c ≠ '\n') = true := by
    have hline : '\n' ∉ Template.header.toList := by decide
    exact fun c hc => decide_eq_true (fun he => hline (he ▸ hc))
  rw [Import.read?, toList_plainText, List.dropWhile_append_of_pos hheader,
    List.dropWhile_cons_of_neg (by simp), List.drop_one, List.tail_cons]
  by_cases himports : f.imports = []
  · rw [himports]
    exact Import.readStatements_newline _
  · rw [intercalate_newline (by simpa using himports), List.flatMap_map]
    exact Import.readStatements_text h _

end SourceFile

namespace Blueprint

def typeRequests (b : Blueprint) (names : ModuleNames) (used : List TypeRef) : List Request :=
  [⟨.entity, b.modelModule names, b.symbolsFrom used .entity⟩,
    ⟨.types, b.typesModule "type", b.symbolsFrom used .types⟩,
    ⟨.inputs, b.typesModule "input", b.symbolsFrom used .inputs⟩,
    ⟨.args, b.typesModule "args", b.symbolsFrom used .args⟩]

def requests (b : Blueprint) (names : ModuleNames) (l : Layer) : List Request :=
  let given : List Request := match l with
    | .repository => [⟨.runtime, names.injectable, ["Injectable"]⟩,
        ⟨.runtime, names.injectRepository, ["InjectRepository"]⟩,
        ⟨.runtime, names.exception, [names.exceptionClass]⟩, ⟨.runtime, names.orm, ["Repository"]⟩]
    | .service => [⟨.runtime, names.injectable, ["Injectable"]⟩,
        ⟨.sibling, "./" ++ b.name.text ++ ".repository", [b.name.derived .repositoryClass]⟩]
    | .resolver => [⟨.runtime, names.graphql, graphqlNames b.fields⟩,
        ⟨.sibling, "./" ++ b.name.text ++ ".service", [b.name.derived .serviceClass]⟩]
  given ++ b.typeRequests names (b.importedTypes l)

theorem imports_sourceFile (b : Blueprint) (names : ModuleNames) (l : Layer) :
    (b.sourceFile names l).imports = Import.grouped (Import.addAll [] (b.requests names l)) := by
  cases l <;>
    simp [sourceFile, repositoryFile, serviceFile, resolverFile, requests, typeRequests,
      importedTypes, Import.addAll, Assembly.requireTypes]

/-- The words that a layer's file imports are those that are given, and the exception class. -/
theorem word_mem_allWords {b : Blueprint} {names : ModuleNames} {l : Layer} {p : String × String}
    (hp : p ∈ b.wordImports names l) : p.2 ∈ allWords ∨ p.2 = names.exceptionClass := by
  cases l with
  | repository =>
    rw [wordImports, List.mem_cons, List.mem_cons, List.mem_cons, List.mem_singleton] at hp
    rcases hp with rfl | rfl | rfl | rfl
    · exact .inl (by simp [allWords])
    · exact .inl (by simp [allWords])
    · exact .inr rfl
    · exact .inl (by simp [allWords])
  | service =>
    rw [List.mem_singleton.mp hp]
    exact .inl (by simp [allWords])
  | resolver =>
    obtain ⟨word, hword, rfl⟩ := List.mem_map.mp hp
    exact .inl (mem_allWords (l := .resolver) hword)

theorem isSymbol_wordImports {b : Blueprint} {names : ModuleNames} {l : Layer}
    (h : Import.IsSymbol names.exceptionClass) :
    ∀ p ∈ b.wordImports names l, Import.IsSymbol p.2 := by
  have hwords : ∀ word ∈ allWords, IsIdentifier word := by decide
  intro p hp
  rcases word_mem_allWords hp with hword | hclass
  · exact Import.IsSymbol.of_isIdentifier (hwords _ hword)
  · rwa [hclass]

/-- Every statement of a layer's file can be read, whatever the modules are. -/
theorem readable_sourceFile (b : Blueprint) {names : ModuleNames} (l : Layer)
    (h : Import.IsSymbol names.exceptionClass) :
    ∀ i ∈ (b.sourceFile names l).imports, i.Readable := by
  intro i hi
  constructor
  · rw [imports_sourceFile] at hi
    exact ((Import.arranged_grouped _).named i hi).1
  · intro name hname
    have hpair := Import.mem_pairs.mpr ⟨i, hi, rfl, hname⟩
    rcases (b.mem_importPairs names l i.source name).mp hpair with hgiven | ⟨⟨t, _, ht⟩, _⟩
    · rcases List.mem_append.mp hgiven with hword | hclass
      · exact isSymbol_wordImports h _ hword
      · obtain ⟨p, _, hp⟩ := List.mem_map.mp hclass
        have hsymbol : b.name.derived p.2 = name := congrArg Prod.snd hp
        rw [← hsymbol]
        exact Import.IsSymbol.of_isIdentifier (isIdentifier_derived b.name p.2)
    · exact Import.IsSymbol.of_isIdentifier (isIdentifier_symbol b.name ht)

/-- The imports of a generated file can be read back from its text, statement by statement, each
with its module and its names, if and only if no module breaks its line. The modules may be any
texts, also such as look like code; of the exception class nothing is asked but that it is a
symbol. -/
theorem read_imports_iff (b : Blueprint) (names : ModuleNames) (l : Layer)
    (h : Import.IsSymbol names.exceptionClass) : ∃ text, b.text names l = .ok text ∧
      (Import.read? text = some ((b.sourceFile names l).imports.map fun i => (i.source, i.names)) ↔
        ∀ i ∈ (b.sourceFile names l).imports, '\n' ∉ i.source.toList ∧ '\r' ∉ i.source.toList) := by
  refine ⟨_, SourceFile.print_of_fillable (b.fillable_methods names l), ?_⟩
  rw [SourceFile.read_plainText (b.readable_sourceFile l h)]
  split
  · rename_i hwhole
    exact iff_of_true rfl hwhole
  · rename_i hbroken
    exact iff_of_false (by simp) hbroken

section Order

/-- The standard modules, but for the one that classes are made injectable by. -/
def injectableFrom (source : String) : ModuleNames :=
  { ModuleNames.standard with injectable := source }

/-- A module that looks like the end of its statement is read back; one with a line feed is not. -/
theorem read_imports_iff_order :
    (∃ text, rootOrder.text (injectableFrom "it's' from '\\") .service = .ok text ∧
      Import.read? text = some
        ((rootOrder.sourceFile (injectableFrom "it's' from '\\") .service).imports.map
          fun i => (i.source, i.names))) ∧
    ∃ text, rootOrder.text (injectableFrom "a\nb") .service = .ok text ∧
      Import.read? text ≠ some
        ((rootOrder.sourceFile (injectableFrom "a\nb") .service).imports.map
          fun i => (i.source, i.names)) := by
  have hsymbol : Import.IsSymbol "BadRequest" := Import.IsSymbol.of_isIdentifier (by decide)
  obtain ⟨text, htext, hread⟩ :=
    read_imports_iff rootOrder (injectableFrom "it's' from '\\") .service hsymbol
  obtain ⟨text', htext', hread'⟩ :=
    read_imports_iff rootOrder (injectableFrom "a\nb") .service hsymbol
  refine ⟨⟨text, htext, hread.mpr ?_⟩, text', htext', fun h => ?_⟩
  · decide +kernel
  · have hbroken : ¬∀ i ∈ (rootOrder.sourceFile (injectableFrom "a\nb") .service).imports,
        '\n' ∉ i.source.toList ∧ '\r' ∉ i.source.toList := by decide +kernel
    exact hbroken (hread'.mp h)

end Order

end Blueprint

end CrudLayers
