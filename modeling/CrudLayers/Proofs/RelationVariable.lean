import CrudLayers.Proofs.Loading
import CrudLayers.Proofs.ValueReading
import CrudLayers.Proofs.Variables

namespace CrudLayers

open Attempt Setting

namespace EntityName

def relationsVariable (n : EntityName) : String :=
  Environment.variableName ["entities", n.text, "relations"]

theorem way?_relationsVariable {n : EntityName} (hsingle : ¬ ['_', '_'] <:+: n.text.toList)
    (hending : n.text.toList.getLast? ≠ some '_') : Environment.way? n.relationsVariable =
      some ["entities", small n.text, "relations"] := by
  have hkey : Environment.Segment "relations".toList :=
    ⟨by simp, by simp [isNameChar], by decide +kernel, by decide +kernel⟩
  have hsmall : small "relations" = "relations" := by decide +kernel
  rw [relationsVariable, way?_setting hkey hsingle hending, hsmall]

end EntityName

namespace Config

/-- The configuration that has nothing but relations under one key. -/
def ofRelations (key relations : String) : Config :=
  { standard with entities := [(key, { EntitySettings.none with relations := some relations })] }

theorem options_ofRelations (name relations : String) :
    (ofRelations (small name) relations).options name = ⟨none, [], none, some relations⟩ := by
  have hsettings : (ofRelations (small name) relations).settings? name =
      some { EntitySettings.none with relations := some relations } := by
    have hsame : sameIgnoringCase (small name) name = true :=
      sameIgnoringCase_iff.mpr (small_small name)
    by_cases hname : name = small name
    · simp [settings?, ofRelations, ← hname]
    · have hbeq : (name == small name) = false := beq_eq_false_iff_ne.mpr hname
      simp [settings?, ofRelations, List.lookup, hbeq, hsame]
  rw [options, hsettings]
  rfl

/-- Settings that have nothing but relations are read if these are a text. -/
theorem ofEntries_relations (key : String) (v : Setting) :
    ofEntries [("entities", v.nested [key, "relations"])] =
      (v.asText .text ["entities", key, "relations"]).map (ofRelations key) := by
  cases v with
  | _ => rfl

theorem ofSettings_relations (shown key : String) (v : Setting) :
    ofSettings shown [] [("entities", v.nested [key, "relations"])] =
      ((v.asText .text ["entities", key, "relations"]).map (ofRelations key)).mapError
        (.shape .environment) := by
  have hlaid : layEntries [] [("entities", v.nested [key, "relations"])] =
      [("entities", v.nested [key, "relations"])] := by
    simp [layEntries, put]
  have hsource : sourceOf shown [("entities", v.nested [key, "relations"])]
      ["entities", key, "relations"] = .environment := by
    simp [sourceOf, nested, at?]
  rw [ofSettings, hlaid, ofEntries_relations]
  cases v with
  | text t => rfl
  | _ => exact congrArg (fun source => Except.error (ConfigFault.shape source _)) hsource

/-- Without a file and with no other variable, the relations of an entity are what the text of their
variable stands for, if that is a text again, and the entity has no other settings. Otherwise there
is no configuration, and the fault names the variable and the value that was read. So a text without
blanks around it becomes the relations if and only if it has no other form than that of a word. -/
theorem relations_of_variable {n : EntityName} {v current path : String}
    {before after : List (String × String)} {d : Disk}
    (hsingle : ¬ ['_', '_'] <:+: n.text.toList) (hending : n.text.toList.getLast? ≠ some '_')
    (hothers : ∀ other ∈ before ++ after, Environment.way? other.1 = none)
    (hfile : ∀ p ∈ candidates current path, d.isFile p = false) :
    ∃ r u, onDisk (load current (before ++ (n.relationsVariable, v) :: after) path) d = (r, d) ∧
      (∀ w, Environment.Denotes v w ↔ w = u) ∧
      (∀ t, u = .text t → ∃ c, r = .ok c ∧ c.options n.text = ⟨none, [], none, some t⟩) ∧
      ((∀ t, u ≠ .text t) →
        r = .error (.shape .environment ⟨["entities", small n.text, "relations"], u, .text⟩)) ∧
      (trimBlank v.toList = v.toList →
        ((∃ c, r = .ok c ∧ (c.options n.text).relations = some v) ↔
          ¬ Environment.Formed v.toList)) := by
  have hload : onDisk (load current (before ++ (n.relationsVariable, v) :: after) path) d =
      ((((Environment.value v).asText .text ["entities", small n.text, "relations"]).map
        (ofRelations (small n.text))).mapError (.shape .environment), d) := by
    rw [onDisk_load_without_file hfile, Environment.settings_single hothers
      (EntityName.way?_relationsVariable hsingle hending), ofSettings_relations]
  refine ⟨_, _, hload, fun w => Environment.denotes_iff.trans eq_comm, ?_, ?_, ?_⟩
  · intro t ht
    rw [ht]
    exact ⟨_, rfl, options_ofRelations n.text t⟩
  · intro hshape
    cases hv : Environment.value v with
    | text t => exact absurd hv (hshape t)
    | _ => rfl
  · intro htrim
    rw [← Environment.denotes_self_iff htrim, Environment.denotes_iff]
    cases hv : Environment.value v with
    | text t =>
      rw [Setting.text.injEq]
      constructor
      · rintro ⟨c, hc, hrelations⟩
        cases hc
        rw [options_ofRelations] at hrelations
        exact Option.some.inj hrelations
      · rintro rfl
        exact ⟨_, rfl, congrArg Options.relations (options_ofRelations n.text t)⟩
    | _ =>
      refine ⟨?_, fun h => nomatch h⟩
      rintro ⟨c, hc, _⟩
      cases hc

section Product

def product : EntityName :=
  ⟨"product", by decide⟩

example : product.relationsVariable = "CRUDGEN_ENTITIES__PRODUCT__RELATIONS" := by
  decide +kernel

/-- A text of several characters in single quotes is no item, so a list of such comes through. -/
theorem relations_of_variable_supplier : ∃ c,
    onDisk (load "/" ([] ++ (product.relationsVariable, "['supplier']") :: []) standardFile)
      (Disk.start []) = (.ok c, Disk.start []) ∧
    c.options product.text = ⟨none, [], none, some "['supplier']"⟩ ∧
    ¬ Environment.Formed "['supplier']".toList := by
  have hothers : ∀ other ∈ ([] ++ [] : List (String × String)),
      Environment.way? other.1 = none :=
    List.forall_mem_nil _
  have hfile : ∀ p ∈ candidates "/" standardFile, (Disk.start []).isFile p = false := by
    decide +kernel
  obtain ⟨r, u, hload, hdenotes, htext, _, hself⟩ := relations_of_variable (n := product)
    (v := "['supplier']") (by decide +kernel) (by decide +kernel) hothers hfile
  obtain ⟨c, rfl, hoptions⟩ := htext "['supplier']" ((hdenotes _).mp
    (Environment.denotes_iff.mpr rfl)).symm
  exact ⟨c, hload, hoptions,
    (hself (by decide +kernel)).mp ⟨c, rfl, congrArg Options.relations hoptions⟩⟩

/-- The empty list, which is what the relations are by default, is refused. -/
theorem empty_list_refused : ∃ (n : EntityName) (v current path : String) (d : Disk),
    ¬ ['_', '_'] <:+: n.text.toList ∧ n.text.toList.getLast? ≠ some '_' ∧
      v ≠ "" ∧ trimBlank v.toList = v.toList ∧
      (∀ p ∈ candidates current path, d.isFile p = false) ∧
      ¬ ∃ c, onDisk (load current [(n.relationsVariable, v)] path) d = (.ok c, d) ∧
        (c.options n.text).relations = some v := by
  refine ⟨product, "[]", "/", standardFile, Disk.start [], by decide +kernel, by decide +kernel,
    by decide, by decide +kernel, by decide +kernel, ?_⟩
  rintro ⟨c, hc, _⟩
  have hfault : (onDisk (load "/" [(product.relationsVariable, "[]")] standardFile)
      (Disk.start [])).1.toOption = none := by
    decide +kernel
  rw [hc] at hfault
  cases hfault

end Product

end Config

end CrudLayers
