import CrudLayers.Proofs.Indentation
import CrudLayers.Proofs.NamesApart
import CrudLayers.Proofs.UsedSymbols
import Mathlib.Data.List.Basic
import Mathlib.Data.List.Induction

namespace CrudLayers

section Lines

/-- The characters of a text between its line feeds. -/
def linesOf (s : String) : List (List Char) :=
  s.toList.splitOn '\n'

theorem linesOf_append (s t : String) : linesOf (s ++ "\n" ++ t) = linesOf s ++ linesOf t := by
  simpa [linesOf] using List.splitOn_append_cons_self s.toList t.toList

theorem linesOf_end (s : String) : linesOf (s ++ "\n") = linesOf s ++ [[]] := by
  simpa [linesOf] using List.splitOn_append_cons_self s.toList ([] : List Char)

theorem linesOf_eq {s : String} (h : '\n' ∉ s.toList) : linesOf s = [s.toList] :=
  List.splitOn_eq_singleton h

/-- Blocks of lines, with an empty line between each two of them. -/
theorem linesOf_blocks (s : String) (ss : List String) :
    linesOf ("\n\n".intercalate (s :: ss)) =
      linesOf s ++ ss.flatMap (fun t => [] :: linesOf t) := by
  induction ss generalizing s with
  | nil => simp
  | cons t rest ih =>
    have hcons : "\n\n".intercalate (s :: t :: rest) =
        s ++ "\n" ++ ("" ++ "\n" ++ "\n\n".intercalate (t :: rest)) := by
      apply String.toList_injective
      simp
    rw [hcons, linesOf_append, linesOf_append, ih]
    simp [linesOf]

theorem lines_eq {s : List Char} (h : '\n' ∉ s) (hne : s ≠ []) : lines s = [s] := by
  have hpass := linesAfter_pass h [] []
  rw [List.append_nil, List.append_nil] at hpass
  rw [lines, hpass, linesAfter, if_neg (by simpa using hne), List.reverse_reverse]

/-- One line moved to the right is one line. -/
theorem newline_not_mem_indent {margin s : List Char} (hm : '\n' ∉ margin) (hs : '\n' ∉ s)
    (hne : s ≠ []) : '\n' ∉ indent margin s := by
  rw [indent, lines_eq hs hne, List.map_singleton, List.intercalate_singleton, indentLine]
  split
  · exact List.not_mem_nil
  · simp [hm, hs]

end Lines

section Names

theorem EntityName.stem_chars (n : EntityName) (k : Stem) :
    ∀ c ∈ (n.stem k).toList, isNameChar c = true := by
  cases k with
  | object => exact n.text_chars
  | model => exact n.model_chars

/-- What a pattern makes of a name has no character that neither it nor a name has. -/
theorem NamePattern.not_mem_fill {p : NamePattern} {c : Char} (hc : isNameChar c = false)
    (hbefore : c ∉ p.before.toList) (hafter : c ∉ p.after.toList) (n : EntityName) :
    c ∉ (p.fill n).toList := by
  intro hmem
  rw [toList_fill, List.mem_append, List.mem_append] at hmem
  rcases hmem with (hmem | hmem) | hmem
  · exact hbefore hmem
  · rw [n.stem_chars _ c hmem] at hc
    cases hc
  · exact hafter hmem

theorem EntityName.newline_not_mem_derived (n : EntityName) (k : DerivedName) :
    '\n' ∉ (n.derived k).toList := by
  apply NamePattern.not_mem_fill (by decide)
  · cases k <;> decide
  · cases k <;> decide

namespace ResolverField

variable {n : EntityName} {f g : ResolverField}

/-- Nothing but letters, digits and underscores stands in an exposed name. -/
theorem not_mem_exposedName {c : Char} (hc : isNameChar c = false) (f : ResolverField)
    (n : EntityName) : c ∉ (f.exposedName n).toList := by
  have hall : (f.pattern.before.toList ++ f.pattern.after.toList).all isNameChar = true := by
    cases f <;> rfl
  have hparts := List.all_eq_true.mp hall
  refine NamePattern.not_mem_fill hc (fun hmem => ?_) (fun hmem => ?_) n
  · rw [hparts c (List.mem_append_left _ hmem)] at hc
    cases hc
  · rw [hparts c (List.mem_append_right _ hmem)] at hc
    cases hc

theorem newline_not_mem (f : ResolverField) (n : EntityName) :
    '\n' ∉ (f.exposedName n).toList :=
  not_mem_exposedName (by decide) f n

theorem paren_not_mem (f : ResolverField) (n : EntityName) : '(' ∉ (f.exposedName n).toList :=
  not_mem_exposedName (by decide) f n

theorem apart_of_ne : ∀ f ∈ all, ∀ g ∈ all, f ≠ g → f.pattern.Apart g.pattern := by
  decide +kernel

/-- Fields that are exposed under one name are the same. -/
theorem exposedName_injective (h : f.exposedName n = g.exposedName n) : f = g := by
  by_contra hne
  exact NamePattern.fill_ne (apart_of_ne f f.mem_all g g.mem_all hne) h

end ResolverField

theorem TypeRef.newline_not_mem_text (t : TypeRef) (n : EntityName) :
    '\n' ∉ (t.text n).toList := by
  have hmodel : '\n' ∉ n.model.toList := by
    intro hmem
    have hc := n.model_chars _ hmem
    revert hc
    decide
  have hderived := n.newline_not_mem_derived
  cases t <;> simp [text, symbol?, derived?, hmodel, hderived]

theorem TypeRef.newline_not_mem_graphql (t : TypeRef) (n : EntityName) :
    '\n' ∉ (t.graphql n).toList := by
  have htext := newline_not_mem_text (n := n)
  have hmodel : '\n' ∉ n.model.toList := by
    intro hmem
    have hc := n.model_chars _ hmem
    revert hc
    decide
  cases t <;> simp [graphql, hmodel, htext]

end Names

namespace Blueprint

variable (b : Blueprint) (f : ResolverField)

theorem fill_method (m : Method) (body : String) : fillRegistered "method" (m.skeletonValues body) =
    .ok (m.decoratorText ++ ("  async " ++ (m.name ++ ("(" ++ (m.parameterText ++
      ("): Promise<" ++ (m.returnType ++ ("> \x7b\n" ++
        (String.ofList (indent [' ', ' ', ' ', ' '] body.toList) ++ ("\n  \x7d" ++ ""))))))))))
    := rfl

theorem fill_file (s : SourceFile) (methods : List String) :
    fillRegistered "file" (s.skeletonValues methods) =
      .ok (Template.header ++ ("\n" ++ ("\n".intercalate (s.imports.map Import.text) ++
        ("\n\n" ++ (String.join (s.decl.decorators.map (fun d => d.text ++ "\n")) ++
          ("export class " ++ (s.decl.name ++ (" \x7b\n" ++
            ("\n\n".intercalate (s.decl.collaborator.text :: methods) ++
              ("\n\x7d\n" ++ "")))))))))) := rfl

theorem newline_not_mem_decoratorText : '\n' ∉ (b.directive f).decorator.text.toList := by
  have hgraphql := TypeRef.newline_not_mem_graphql f.operation.result b.name
  have haccess : '\n' ∉ (f.operation.access.decorator).toList := by
    cases f <;> decide
  have hdescription : '\n' ∉ (quoted f.description).toList := by
    cases f <;> decide +kernel
  simp [Decorator.text, Directive.decorator, directive, hgraphql, haccess, hdescription]

theorem newline_not_mem_parameterText : '\n' ∉ (b.resolverMethod f).parameterText.toList := by
  have htext := TypeRef.newline_not_mem_text f.operation.param b.name
  have hintake : '\n' ∉ ((intake f.operation.access).decorator).text.toList := by
    cases f <;> decide
  simp only [Method.parameterText, resolverMethod, directive, String.toList_append,
    List.mem_append, not_or]
  exact ⟨⟨hintake, by decide⟩, ⟨by decide, by decide⟩, htext⟩

def callText : String :=
  "return await this." ++ (b.name.derived .serviceField ++ ("." ++ (f.operation.methodName ++
    ("(" ++ (argsName ++ (")" ++ ""))))))

theorem newline_not_mem_callText : '\n' ∉ (b.callText f).toList := by
  have hfield := b.name.newline_not_mem_derived .serviceField
  have hmethod : '\n' ∉ (f.operation.methodName).toList := by
    cases f <;> decide
  -- by `delta` here and below: the equation of a text that starts with a long literal is slow
  delta callText
  simp [argsName, hfield, hmethod]

def signatureText : String :=
  "  async " ++ (f.exposedName b.name ++ ("(" ++ ((b.resolverMethod f).parameterText ++
    ("): Promise<" ++ (f.operation.result.text b.name ++ "> \x7b")))))

theorem newline_not_mem_signatureText : '\n' ∉ (b.signatureText f).toList := by
  have hname := f.newline_not_mem b.name
  have hparameter := b.newline_not_mem_parameterText f
  have hresult := TypeRef.newline_not_mem_text f.operation.result b.name
  delta signatureText
  simp [hname, hparameter, hresult]

theorem signatureText_eq : ∃ rest, (b.signatureText f).toList =
    "  async ".toList ++ (f.exposedName b.name).toList ++ '(' :: rest := by
  delta signatureText
  simp only [String.toList_append, List.append_assoc]
  exact ⟨_, rfl⟩

def bodyText : String :=
  String.ofList (indent [' ', ' ', ' ', ' '] (b.callText f).toList)

theorem newline_not_mem_bodyText : '\n' ∉ (b.bodyText f).toList := by
  rw [bodyText, String.toList_ofList]
  refine newline_not_mem_indent (by decide) (b.newline_not_mem_callText f) ?_
  delta callText
  simp

theorem print_resolverMethod : (b.resolverMethod f).print =
    .ok ("  " ++ (b.directive f).decorator.text ++ "\n" ++ (b.signatureText f ++ "\n" ++
      (b.bodyText f ++ "\n" ++ "  \x7d"))) := by
  have hfill : (b.resolverMethod f).print =
      fillRegistered "method" ((b.resolverMethod f).skeletonValues (b.callText f)) := rfl
  rw [hfill, fill_method]
  congr 1
  apply String.toList_injective
  delta signatureText
  simp [bodyText, Method.decoratorText, resolverMethod]

/-- The lines of a field, with the empty one that comes first. -/
def fieldLines : List (List Char) :=
  [[], ("  " ++ (b.directive f).decorator.text).toList, (b.signatureText f).toList,
    (b.bodyText f).toList, "  \x7d".toList]

theorem linesOf_resolverMethod {text : String} (h : (b.resolverMethod f).print = .ok text) :
    [] :: linesOf text = b.fieldLines f := by
  rw [print_resolverMethod] at h
  cases h
  rw [linesOf_append, linesOf_append, linesOf_append, linesOf_eq, linesOf_eq, linesOf_eq,
    linesOf_eq]
  · rfl
  · decide
  · exact b.newline_not_mem_bodyText f
  · exact b.newline_not_mem_signatureText f
  · simpa using b.newline_not_mem_decoratorText f

/-- The lines of two fields are the same only if the fields are. -/
theorem fieldLines_injective {f g : ResolverField} (h : b.fieldLines f = b.fieldLines g) :
    f = g := by
  obtain ⟨rest, hf⟩ := b.signatureText_eq f
  obtain ⟨rest', hg⟩ := b.signatureText_eq g
  have hline : (b.signatureText f).toList = (b.signatureText g).toList := by
    simp only [fieldLines, List.cons.injEq] at h
    exact h.2.2.1
  rw [hf, hg, List.append_assoc, List.append_assoc] at hline
  have hname := congrArg (List.splitOn '(') (List.append_cancel_left hline)
  rw [List.splitOn_append_cons_self, List.splitOn_append_cons_self,
    List.splitOn_eq_singleton (f.paren_not_mem b.name),
    List.splitOn_eq_singleton (g.paren_not_mem b.name)] at hname
  exact ResolverField.exposedName_injective (String.toList_injective (List.cons.inj hname).1)

theorem printMethods_resolver (fields : List ResolverField) :
    ∃ texts, printMethods (fields.map b.resolverMethod) = .ok texts ∧
      texts.flatMap (fun t => [] :: linesOf t) = fields.flatMap b.fieldLines := by
  induction fields with
  | nil => exact ⟨[], rfl, rfl⟩
  | cons f rest ih =>
    obtain ⟨texts, hprint, hlines⟩ := ih
    obtain ⟨text, htext⟩ : ∃ text, (b.resolverMethod f).print = .ok text :=
      ⟨_, b.print_resolverMethod f⟩
    refine ⟨text :: texts, ?_, ?_⟩
    · rw [List.map_cons, printMethods, htext, hprint]
      rfl
    · rw [List.flatMap_cons, List.flatMap_cons, hlines, b.linesOf_resolverMethod f htext]

/-- The constructor of a resolver is one line, and not one that ends a method. -/
theorem linesOf_constructor : ∃ line, linesOf b.resolverCollaborator.text = [line] ∧
    line ≠ "  \x7d".toList := by
  have hfield := b.name.newline_not_mem_derived .serviceField
  have htype := b.name.newline_not_mem_derived .serviceClass
  have htext : b.resolverCollaborator.text = "  constructor(" ++ "" ++ "private " ++
      b.name.derived .serviceField ++ ": " ++ b.name.derived .serviceClass ++ ") \x7b\x7d" := rfl
  refine ⟨b.resolverCollaborator.text.toList, linesOf_eq ?_, ?_⟩
  · simp [htext, hfield, htype]
  · simp [htext]

theorem endLine_end (s : String) : endLine (s ++ "\n") = s ++ "\n" := by
  rw [endLine, if_pos (by simp)]

theorem print_file (s : SourceFile) {texts : List String}
    (h : printMethods s.decl.methods = .ok texts) : ∃ front, s.print = .ok (front ++ "\n" ++
      ("\n\n".intercalate (s.decl.collaborator.text :: texts) ++ "\n" ++ "\x7d") ++ "\n") := by
  refine ⟨Template.header ++ "\n" ++ "\n".intercalate (s.imports.map Import.text) ++ "\n\n" ++
    String.join (s.decl.decorators.map (fun d => d.text ++ "\n")) ++ "export class " ++
    s.decl.name ++ " \x7b", ?_⟩
  rw [← endLine_end, SourceFile.print, h]
  change (fillRegistered "file" (s.skeletonValues texts) >>= fun text => .ok (endLine text)) = _
  rw [fill_file]
  refine congrArg (fun text => Except.ok (endLine text)) ?_
  apply String.toList_injective
  simp

/-- Behind what stands in front of the members of a class, a file has the lines of the members. -/
theorem linesOf_file (s : SourceFile) {texts : List String}
    (h : printMethods s.decl.methods = .ok texts) : ∃ text front, s.print = .ok text ∧
      linesOf text = front ++ (linesOf s.decl.collaborator.text ++
        texts.flatMap (fun t => [] :: linesOf t)) ++ [['\x7d'], []] := by
  obtain ⟨front, hprint⟩ := print_file s h
  have hbrace : linesOf "\x7d" = [['\x7d']] := linesOf_eq (by decide)
  refine ⟨_, linesOf front, hprint, ?_⟩
  rw [linesOf_end, linesOf_append, linesOf_append, linesOf_blocks, hbrace]
  simp only [List.append_assoc, List.singleton_append]

/-- The text of a resolver ends with the lines of its fields, behind the line of the constructor. -/
theorem text_resolver (names : ModuleNames) : ∃ text front line, b.text names .resolver = .ok text ∧
    linesOf b.resolverCollaborator.text = [line] ∧ line ≠ "  \x7d".toList ∧
    linesOf text = front ++ [line] ++ b.fields.flatMap b.fieldLines ++ [['\x7d'], []] := by
  obtain ⟨texts, hprint, hlines⟩ := b.printMethods_resolver b.fields
  obtain ⟨line, hline, hne⟩ := b.linesOf_constructor
  have hmethods : (b.resolverFile names).decl.methods = b.fields.map b.resolverMethod := by
    rw [resolverFile_decl]
  have hcollaborator : (b.resolverFile names).decl.collaborator = b.resolverCollaborator := by
    rw [resolverFile_decl]
  obtain ⟨text, front, htext, hall⟩ := linesOf_file (b.resolverFile names) (hmethods ▸ hprint)
  refine ⟨text, front, line, htext, hline, hne, ?_⟩
  rw [hall, hcollaborator, hline, hlines, ← List.append_assoc]

theorem length_fieldLines : (b.fieldLines f).length = 5 := rfl

/-- The last line of a field ends its method. -/
theorem flatMap_concat (front : List (List Char)) (rest : List ResolverField) :
    ∃ before, front ++ (rest ++ [f]).flatMap b.fieldLines = before ++ ["  \x7d".toList] := by
  refine ⟨front ++ rest.flatMap b.fieldLines ++ (b.fieldLines f).take 4, ?_⟩
  rw [List.flatMap_append, List.flatMap_singleton, List.append_assoc, List.append_assoc]
  rfl

/-- Behind one line that ends no method, the lines of some fields tell the fields. -/
theorem fields_of_lines {front front' : List (List Char)} {line : List Char}
    {fields fields' : List ResolverField} (hline : line ≠ "  \x7d".toList)
    (h : front ++ [line] ++ fields.flatMap b.fieldLines =
      front' ++ [line] ++ fields'.flatMap b.fieldLines) : fields = fields' := by
  induction fields using List.reverseRecOn generalizing fields' with
  | nil =>
    cases fields' using List.reverseRecOn with
    | nil => rfl
    | append_singleton rest' g =>
      obtain ⟨before, hbefore⟩ := b.flatMap_concat g (front' ++ [line]) rest'
      rw [hbefore, List.flatMap_nil, List.append_nil] at h
      obtain ⟨_, hlast⟩ := List.append_inj' h rfl
      exact absurd (List.cons.inj hlast).1 hline
  | append_singleton rest f ih =>
    cases fields' using List.reverseRecOn with
    | nil =>
      obtain ⟨before, hbefore⟩ := b.flatMap_concat f (front ++ [line]) rest
      rw [hbefore, List.flatMap_nil, List.append_nil] at h
      obtain ⟨_, hlast⟩ := List.append_inj' h rfl
      exact absurd (List.cons.inj hlast).1.symm hline
    | append_singleton rest' g =>
      rw [List.flatMap_append, List.flatMap_append, List.flatMap_singleton,
        List.flatMap_singleton, ← List.append_assoc, ← List.append_assoc] at h
      obtain ⟨hrest, hlines⟩ := List.append_inj' h
        ((b.length_fieldLines f).trans (b.length_fieldLines g).symm)
      rw [ih hrest, b.fieldLines_injective hlines]

/-- Two resolvers that differ in nothing but their excludes have one text if and only if the same
fields are left. -/
theorem text_resolver_inj (names : ModuleNames) (x y : List String) :
    ({ b with excludes := x }).text names .resolver =
        ({ b with excludes := y }).text names .resolver ↔
      ({ b with excludes := x }).fields = ({ b with excludes := y }).fields := by
  constructor
  · intro h
    obtain ⟨text, front, line, htext, hline, hne, hall⟩ :=
      ({ b with excludes := x }).text_resolver names
    obtain ⟨text', front', line', htext', hline', _, hall'⟩ :=
      ({ b with excludes := y }).text_resolver names
    rw [htext, htext'] at h
    cases h
    have hsame : line' = line := by
      have hlines := hline'.symm.trans hline
      exact (List.cons.inj hlines).1
    have hfields : ({ b with excludes := y }).fieldLines = ({ b with excludes := x }).fieldLines :=
      rfl
    rw [hsame, hfields, hall] at hall'
    exact fields_of_lines _ hne (List.append_cancel_right hall')
  · intro h
    simp only [text, sourceFile, resolverFile, h]
    rfl

end Blueprint

end CrudLayers
