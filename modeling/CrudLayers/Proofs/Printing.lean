import CrudLayers.Proofs.ResolverText
import CrudLayers.Proofs.Substitution
import CrudLayers.Proofs.Tables

namespace CrudLayers

namespace Method

/-- The body's template is there, and the body has a value for each of its slots. -/
def Fillable (m : Method) : Prop :=
  ∃ t, Template.registered.lookup m.body.template = some t ∧
    ∀ slot ∈ t.slots, (m.body.values.lookup slot).isSome

/-- Why a body cannot be filled: its template is unknown, or some slot of it is the first one
without a value. -/
inductive Fails (m : Method) : PrintFault → Prop where
  | unknownTemplate (h : Template.registered.lookup m.body.template = none) :
    Fails m (.unknownTemplate m.body.template)
  | missingValue {before after : Template} {slot : String}
    (h : Template.registered.lookup m.body.template = some (before ++ .slot slot :: after))
    (hbefore : ∀ earlier ∈ before.slots, (m.body.values.lookup earlier).isSome)
    (hslot : m.body.values.lookup slot = none) :
    Fails m (.missingValue m.body.template ⟨slot, Position.start.advance before.source⟩)

/-- The text of the body's template; a template that is not there has none. -/
def templateText (m : Method) : List Char :=
  ((Template.registered.lookup m.body.template).map (fun t => t.source.toList)).getD []

/-- The body: the template's text with every placeholder replaced by its value. -/
def plainBody (m : Method) : List Char :=
  Template.replace (fun slot => (m.body.values.lookup slot).getD "") none m.templateText

def plainText (m : Method) : String :=
  m.decoratorText ++ "  async " ++ m.name ++ "(" ++ m.parameterText ++ "): Promise<" ++
    m.returnType ++ "> \x7b\n" ++ String.ofList (indent [' ', ' ', ' ', ' '] m.plainBody) ++
    "\n  \x7d"

/-- The text of a method, line by line: each line of the body stands behind four blanks unless it is
blank itself, which leaves an empty line. -/
theorem plainText_of_lines {m : Method} {ls : List (List Char)} (h : LinesOf m.plainBody ls) :
    m.plainText = m.decoratorText ++ "  async " ++ m.name ++ "(" ++ m.parameterText ++
      "): Promise<" ++ m.returnType ++ "> \x7b\n" ++ "\n".intercalate (ls.map fun line =>
        if line.all isBlank then "" else "    " ++ String.ofList line) ++ "\n  \x7d" := by
  have hline : ∀ line : List Char,
      (if line.all isBlank then "" else "    " ++ String.ofList line).toList =
        if line.all isBlank then [] else [' ', ' ', ' ', ' '] ++ line := by
    intro line
    split <;> simp
  rw [plainText, h.indent_eq]
  apply String.toList_injective
  simp only [String.toList_append, String.toList_ofList, String.toList_intercalate, List.map_map,
    Function.comp_def, hline]
  rfl

variable {m : Method} {fault : PrintFault}

theorem print_of_fillable (h : m.Fillable) : m.print = .ok m.plainText := by
  obtain ⟨t, ht, hslots⟩ := h
  have hreadable : t.readable = true :=
    Template.readable_of_registered _ (Setting.mem_of_lookup ht)
  have hfill : fillRegistered m.body.template m.body.values =
      .ok (String.ofList m.plainBody) := by
    rw [fillRegistered, ht]
    simp only [Template.fill]
    rw [Template.fillFrom_ok hslots, plainBody, templateText, ht, Option.map_some,
      Option.getD_some, Template.replace_source hreadable, String.ofList_toList]
    rfl
  rw [print, hfill]
  change fillRegistered "method" (m.skeletonValues (String.ofList m.plainBody)) = _
  rw [Blueprint.fill_method, String.toList_ofList]
  refine congrArg Except.ok ?_
  apply String.toList_injective
  delta plainText
  simp

theorem print_of_fails (h : m.Fails fault) : m.print = .error fault := by
  have hfill : fillRegistered m.body.template m.body.values = .error fault := by
    cases h with
    | unknownTemplate h => rw [fillRegistered, h]
    | missingValue h hbefore hslot =>
      rw [fillRegistered, h]
      simp only [Template.fill]
      rw [Template.fillFrom_error hbefore hslot]
      rfl
  rw [print, hfill]
  rfl

end Method

section Methods

variable {ms before after : List Method} {m : Method} {fault : PrintFault}

theorem printMethods_of_fillable (h : ∀ m ∈ ms, m.Fillable) :
    printMethods ms = .ok (ms.map Method.plainText) := by
  induction ms with
  | nil => rfl
  | cons m rest ih =>
    obtain ⟨hm, hrest⟩ := List.forall_mem_cons.mp h
    rw [printMethods, Method.print_of_fillable hm, ih hrest]
    rfl

/-- Methods behind the first one that fails are not looked at. -/
theorem printMethods_of_fails (hbefore : ∀ earlier ∈ before, earlier.Fillable)
    (hm : m.Fails fault) : printMethods (before ++ m :: after) = .error fault := by
  induction before with
  | nil =>
    rw [List.nil_append, printMethods, Method.print_of_fails hm]
    rfl
  | cons first rest ih =>
    obtain ⟨hfirst, hrest⟩ := List.forall_mem_cons.mp hbefore
    rw [List.cons_append, printMethods, Method.print_of_fillable hfirst, ih hrest]
    rfl

end Methods

namespace SourceFile

def plainText (f : SourceFile) : String :=
  Template.header ++ "\n" ++ "\n".intercalate (f.imports.map Import.text) ++ "\n\n" ++
    String.join (f.decl.decorators.map (fun d => d.text ++ "\n")) ++
    "export class " ++ f.decl.name ++ " \x7b\n" ++
    "\n\n".intercalate (f.decl.collaborator.text :: f.decl.methods.map Method.plainText) ++
    "\n\x7d\n"

variable {f : SourceFile} {fault : PrintFault}

/-- With the texts of all methods, the skeleton of a file is filled to the file's text. -/
theorem fill_plainText (f : SourceFile) : fillRegistered "file"
    (f.skeletonValues (f.decl.methods.map Method.plainText)) = .ok f.plainText := by
  rw [Blueprint.fill_file]
  apply congrArg Except.ok
  apply String.toList_injective
  delta plainText
  simp

theorem plainText_frame (f : SourceFile) :
    ∃ body, f.plainText = Template.header ++ "\n" ++ body ++ "\x7d\n" := by
  refine ⟨"\n".intercalate (f.imports.map Import.text) ++ "\n\n" ++
    String.join (f.decl.decorators.map (fun d => d.text ++ "\n")) ++
    "export class " ++ f.decl.name ++ " \x7b\n" ++
    "\n\n".intercalate (f.decl.collaborator.text :: f.decl.methods.map Method.plainText) ++
    "\n", ?_⟩
  apply String.toList_injective
  delta plainText
  simp

theorem endLine_plainText (f : SourceFile) : endLine f.plainText = f.plainText := by
  obtain ⟨body, hframe⟩ := f.plainText_frame
  have hlast : f.plainText.toList.getLast? = some '\n' := by
    rw [hframe, String.toList_append, List.getLast?_append]
    rfl
  rw [endLine, if_pos hlast]

theorem print_of_fillable (h : ∀ m ∈ f.decl.methods, m.Fillable) : f.print = .ok f.plainText := by
  rw [print, printMethods_of_fillable h]
  change (fillRegistered "file" (f.skeletonValues (f.decl.methods.map Method.plainText)) >>=
    fun text => .ok (endLine text)) = _
  rw [fill_plainText]
  exact congrArg Except.ok f.endLine_plainText

theorem print_of_fails {before after : List Method} {m : Method}
    (hmethods : f.decl.methods = before ++ m :: after)
    (hbefore : ∀ earlier ∈ before, earlier.Fillable) (hm : m.Fails fault) :
    f.print = .error fault := by
  rw [print, hmethods, printMethods_of_fails hbefore hm]
  rfl

end SourceFile

end CrudLayers
