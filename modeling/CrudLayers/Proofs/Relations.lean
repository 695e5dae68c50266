import CrudLayers.Proofs.Dependence
import CrudLayers.Proofs.Indentation

namespace CrudLayers

/-- What fills a template are the values of its slots, and no others. -/
theorem Template.filled_congr {t : Template} {value value' : String → String}
    (h : ∀ slot ∈ t.slots, value slot = value' slot) :
    t.map (Piece.filled value) = t.map (Piece.filled value') := by
  induction t with
  | nil => rfl
  | cons p rest ih =>
    cases p with
    | text s => rw [List.map_cons, List.map_cons, ih h, Piece.filled, Piece.filled]
    | slot name =>
      obtain ⟨hname, hrest⟩ := List.forall_mem_cons.mp h
      rw [List.map_cons, List.map_cons, ih hrest, Piece.filled, Piece.filled, hname]

namespace Blueprint

section Bodies

variable (b : Blueprint) (names : ModuleNames)

def repositoryValue (e : CatalogEntry) (slot : String) : String :=
  ((b.repositoryValues names e.operation).lookup slot).getD ""

/-- The body of a repository's method, piece by piece. -/
theorem plainBody_repositoryMethod (o : Operation) :
    (b.repositoryMethod names o.entry).plainBody =
      (String.join (o.body.map (Piece.filled (b.repositoryValue names o.entry)))).toList := by
  have ht : Template.registered.lookup o.entry.operation.bodyName = some o.body := by
    cases o <;> rfl
  have hreadable := Template.readable_of_registered _ (Setting.mem_of_lookup ht)
  rw [Method.plainBody, Method.templateText]
  change Template.replace _ none
    ((Option.map _ (Template.registered.lookup o.entry.operation.bodyName)).getD []) = _
  rw [ht, Option.map_some, Option.getD_some]
  exact Template.replace_source hreadable

def relationsBefore : String :=
  "const condition = \x7b relations: "

def oneAfter : String :=
  ", where: params \x7d as any"

def manyAfter : String :=
  ", where, take, skip, order \x7d as any"

theorem inLine_relations :
    ∀ s ∈ [relationsBefore, oneAfter, manyAfter], InLine s.toList := by
  have h : ∀ s ∈ [relationsBefore, oneAfter, manyAfter],
      '\n' ∉ s.toList ∧ s.toList.all isBlank = false ∧ s.toList.getLast? ≠ some '\r' := by decide
  intro s hs
  obtain ⟨hnewline, hvisible, hlast⟩ := h s hs
  exact ⟨hnewline, hvisible, hlast⟩

theorem plainBody_findOne : ∃ rest ≠ [], ∀ relations : String,
    (({ b with relations := relations }).repositoryMethod names Operation.findOne.entry).plainBody =
      relationsBefore.toList ++ relations.toList ++ oneAfter.toList ++ '\n' :: rest := by
  refine ⟨("const result = await this." ++ (b.name.derived .repositoryField ++
    (".findOne(condition)\nif (result) return result\nthrow new " ++ (names.exceptionClass ++
      ("('" ++ (b.name.model ++ " not found')")))))).toList, by simp, ?_⟩
  intro relations
  have hpieces : Operation.findOne.body.map (Piece.filled
      (({ b with relations := relations }).repositoryValue names Operation.findOne.entry)) =
        [relationsBefore, relations, ", where: ", "params",
          " \x7d as any\nconst result = await this.", b.name.derived .repositoryField,
          ".findOne(condition)\nif (result) return result\nthrow new ", names.exceptionClass,
          "('", b.name.model, " not found')"] := rfl
  rw [plainBody_repositoryMethod, hpieces]
  simp only [String.join_cons, String.join_nil, String.toList_append, List.append_assoc,
    String.toList_empty, List.append_nil]
  rfl

theorem plainBody_findMany : ∃ lead, ∃ rest ≠ [], ∀ relations : String,
    (({ b with relations := relations }).repositoryMethod names
      Operation.findMany.entry).plainBody =
      lead ++ '\n' :: (relationsBefore.toList ++ relations.toList ++ manyAfter.toList ++
        '\n' :: rest) := by
  refine ⟨("const \x7b where = \x7b\x7d, first: take, skip, orderBy = 'id_ASC' \x7d = " ++
    ("params" ++
      ("\nconst separator = orderBy.lastIndexOf('_')\nconst order = separator < 0\n" ++
        ("  ? \x7b [orderBy]: 'ASC' \x7d\n" ++
          "  : \x7b [orderBy.slice(0, separator)]: orderBy.slice(separator + 1) \x7d")))).toList,
    ("return await this." ++ (b.name.derived .repositoryField ++ ".find(condition)")).toList,
    by simp, ?_⟩
  intro relations
  have hpieces : Operation.findMany.body.map (Piece.filled
      (({ b with relations := relations }).repositoryValue names Operation.findMany.entry)) =
        ["const \x7b where = \x7b\x7d, first: take, skip, orderBy = 'id_ASC' \x7d = ", "params",
          "\nconst separator = orderBy.lastIndexOf('_')\nconst order = separator < 0\n",
          "  ? \x7b [orderBy]: 'ASC' \x7d\n",
          "  : \x7b [orderBy.slice(0, separator)]: orderBy.slice(separator + 1) \x7d" ++ "\n",
          relationsBefore, relations, manyAfter ++ "\n" ++ "return await this.",
          b.name.derived .repositoryField, ".find(condition)"] := rfl
  rw [plainBody_repositoryMethod, hpieces]
  simp only [String.join_cons, String.join_nil, String.toList_append, List.append_assoc,
    String.toList_empty, List.append_nil]
  rfl

/-- A body without a place for the relation expression does not depend on it. -/
theorem plainText_of_unrelated {o : Operation} (h : "relations" ∉ o.body.slots)
    (relations : String) :
    (({ b with relations := relations }).repositoryMethod names o.entry).plainText =
      (b.repositoryMethod names o.entry).plainText := by
  have hvalues : ∀ slot ∈ o.body.slots,
      ({ b with relations := relations }).repositoryValue names o.entry slot =
        b.repositoryValue names o.entry slot := by
    intro slot hslot
    have hne : (slot == "relations") = false := by
      rw [beq_eq_false_iff_ne]
      rintro rfl
      exact h hslot
    simp [repositoryValue, repositoryValues, callValues, List.lookup_cons, hne]
  have hbody : (({ b with relations := relations }).repositoryMethod names o.entry).plainBody =
      (b.repositoryMethod names o.entry).plainBody := by
    rw [plainBody_repositoryMethod, plainBody_repositoryMethod, Template.filled_congr hvalues]
  rw [Method.plainText, hbody]
  rfl

end Bodies

section Texts

def bodyMargin : List Char :=
  [' ', ' ', ' ', ' ']

variable (b : Blueprint) (names : ModuleNames)

/-- If a body is shown as some text around what is shown of the relation expression, so is its
method. -/
theorem plainText_of_indent {o : Operation} (front back : List Char)
    (h : ∀ relations shown, ShownAs bodyMargin relations.toList shown → indent bodyMargin
      (({ b with relations := relations }).repositoryMethod names o.entry).plainBody =
        front ++ shown ++ back) :
    ∃ before after : String, ∀ relations shown, ShownAs bodyMargin relations.toList shown →
      (({ b with relations := relations }).repositoryMethod names o.entry).plainText =
        before ++ String.ofList shown ++ after := by
  let m := b.repositoryMethod names o.entry
  refine ⟨m.decoratorText ++ "  async " ++ m.name ++ "(" ++ m.parameterText ++ "): Promise<" ++
    m.returnType ++ "> \x7b\n" ++ String.ofList front, String.ofList back ++ "\n  \x7d", ?_⟩
  intro relations shown hshown
  have hbody := h relations shown hshown
  rw [bodyMargin] at hbody
  rw [Method.plainText, hbody]
  apply String.toList_injective
  simp only [String.toList_append, String.toList_ofList, List.append_assoc]
  rfl

theorem plainText_findOne : ∃ before after : String, ∀ relations shown,
    ShownAs bodyMargin relations.toList shown →
      (({ b with relations := relations }).repositoryMethod names
        Operation.findOne.entry).plainText =
        before ++ String.ofList shown ++ after := by
  obtain ⟨rest, hrest, hbody⟩ := b.plainBody_findOne names
  apply plainText_of_indent b names (bodyMargin ++ relationsBefore.toList)
    (oneAfter.toList ++ '\n' :: indent bodyMargin rest)
  intro relations shown hshown
  rw [hbody, hshown _ _ _ (inLine_relations _ (by simp)) (inLine_relations _ (by simp)) hrest]
  simp

theorem plainText_findMany : ∃ before after : String, ∀ relations shown,
    ShownAs bodyMargin relations.toList shown →
      (({ b with relations := relations }).repositoryMethod names
        Operation.findMany.entry).plainText =
        before ++ String.ofList shown ++ after := by
  obtain ⟨lead, rest, hrest, hbody⟩ := b.plainBody_findMany names
  apply plainText_of_indent b names
    (indent bodyMargin (lead ++ ['\n']) ++ '\n' :: (bodyMargin ++ relationsBefore.toList))
    (manyAfter.toList ++ '\n' :: indent bodyMargin rest)
  intro relations shown hshown
  rw [hbody, indent_newline _ (by simp),
    hshown _ _ _ (inLine_relations _ (by simp)) (inLine_relations _ (by simp)) hrest]
  simp

theorem imports_repositoryFile (relations : String) :
    (({ b with relations := relations }).repositoryFile names).imports =
      (b.repositoryFile names).imports := by
  simp only [repositoryFile, Assembly.imports_finish]
  refine congrArg Import.grouped (imports_requireTypes_congr ?_ rfl rfl rfl _)
  simp

/-- The text of a repository is some text around what is shown of the relation expression, twice. -/
theorem text_repository_shown : ∃ before between after : String, ∀ relations shown,
    ShownAs bodyMargin relations.toList shown →
      ({ b with relations := relations }).text names .repository =
        .ok (before ++ String.ofList shown ++ between ++ String.ofList shown ++ after) := by
  obtain ⟨before, between, hone⟩ := b.plainText_findOne names
  obtain ⟨between', after, hmany⟩ := b.plainText_findMany names
  let f := b.repositoryFile names
  let others := [Operation.count, .aggregate, .create, .update, .upsert, .delete].map
    fun o => (b.repositoryMethod names o.entry).plainText
  refine ⟨Template.header ++ "\n" ++ "\n".intercalate (f.imports.map Import.text) ++ "\n\n" ++
    String.join (f.decl.decorators.map (fun d => d.text ++ "\n")) ++ "export class " ++
    f.decl.name ++ " \x7b\n" ++ f.decl.collaborator.text ++ "\n\n" ++ before,
    between ++ "\n\n" ++ between', after ++ "\n\n" ++ "\n\n".intercalate others ++ "\n\x7d\n", ?_⟩
  intro relations shown hshown
  have hothers : [Operation.count, .aggregate, .create, .update, .upsert, .delete].map
      (fun o => (({ b with relations := relations }).repositoryMethod names o.entry).plainText) =
        others := by
    apply List.map_congr_left
    intro o ho
    apply plainText_of_unrelated
    revert o
    decide
  have hfillable := fillable_methods { b with relations := relations } names .repository
  have hmethods : CatalogEntry.all.map
      (fun e => (({ b with relations := relations }).repositoryMethod names e).plainText) =
        (before ++ String.ofList shown ++ between) ::
          (between' ++ String.ofList shown ++ after) :: others := by
    rw [← hone relations shown hshown, ← hmany relations shown hshown, ← hothers]
    rfl
  rw [text, SourceFile.print_of_fillable hfillable, sourceFile, SourceFile.plainText,
    imports_repositoryFile, repositoryFile_decl, List.map_map, Function.comp_def, hmethods,
    String.intercalate_cons_cons, String.intercalate_cons_cons,
    String.intercalate_cons_of_ne_nil (l := others) (List.cons_ne_nil _ _)]
  apply congrArg Except.ok
  apply String.toList_injective
  simp only [String.toList_append, List.append_assoc]
  rfl

end Texts

/-- Between texts that do not depend on it, a value stands as it is only if nothing else is shown
of it. -/
theorem twice_inj {before between after s t : String} :
    before ++ s ++ between ++ s ++ after = before ++ t ++ between ++ t ++ after ↔ s = t := by
  constructor
  · intro h
    have hchars := congrArg String.toList h
    simp only [String.toList_append, List.append_assoc, List.append_cancel_left_eq] at hchars
    have hlength := congrArg List.length hchars
    simp only [List.length_append] at hlength
    exact String.toList_injective (List.append_inj hchars (by omega)).1
  · intro h
    rw [h]

/-- For an entity, its modules and those of its surroundings, there are three texts such that the
repository's text is these with the relation expression between each two of them, if the expression
has no line feed. If it has one, it is not shown as it is: the repository has a text, but another
one. -/
theorem text_repository_verbatim (n : EntityName) (moduleDir : String) (names : ModuleNames) :
    ∃ before between after : String, ∀ (baseDir relations : String) (excludes : List String),
      ∃ text, (Blueprint.mk n baseDir moduleDir relations excludes).text names .repository =
          .ok text ∧
        (text = before ++ relations ++ between ++ relations ++ after ↔
          '\n' ∉ relations.toList) := by
  obtain ⟨before, between, after, htext⟩ :=
    text_repository_shown ⟨n, "", moduleDir, noRelations, []⟩ names
  refine ⟨before, between, after, ?_⟩
  intro baseDir relations excludes
  obtain ⟨shown, hshown, hsame⟩ :=
    exists_shownAs relations.toList (show bodyMargin ≠ [] by decide) (by decide)
  refine ⟨_, htext relations shown hshown, ?_⟩
  rw [twice_inj, ← hsame, ← String.toList_inj, String.toList_ofList]

end Blueprint

end CrudLayers
