import CrudLayers.Proofs.Choice
import CrudLayers.Proofs.Loading
import CrudLayers.Proofs.Reading
import CrudLayers.Proofs.Variables

namespace CrudLayers

open Attempt Setting

namespace EntityName

def moduleDirVariable (n : EntityName) : String :=
  Environment.variableName ["entities", n.text, "module_dir"]

/-- It leads to the entity's name in small letters. -/
theorem way?_moduleDirVariable {n : EntityName} (hsingle : ¬ ['_', '_'] <:+: n.text.toList)
    (hending : n.text.toList.getLast? ≠ some '_') : Environment.way? n.moduleDirVariable =
      some ["entities", small n.text, "module_dir"] := by
  have hkey : Environment.Segment "module_dir".toList :=
    ⟨by simp, by simp [isNameChar], by decide +kernel, by decide +kernel⟩
  have hsmall : small "module_dir" = "module_dir" := by decide +kernel
  rw [moduleDirVariable, way?_setting hkey hsingle hending, hsmall]

end EntityName

namespace Config

/-- Some key spells a name in letters other than all small ones. -/
def SpellsOtherwise (c : Config) (name : String) : Prop :=
  ∃ key ∈ c.entities.map Prod.fst, small key = small name ∧ key ≠ small name

/-- A table that holds a module directory describes settings with this directory. -/
theorem moduleDir_of_put {inner : List (String × Setting)} {way : List String} {v : String}
    {s : EntitySettings} (hordered : (table inner).Ordered)
    (h : EntitySettings.ofSetting way (table (put "module_dir" (text v) inner)) = .ok s) :
    s.moduleDir = some v := by
  have hread := EntitySettings.reads_moduleDir.readKeyed (keys_put hordered.keys) h
  rw [readUnder, lookup_put] at hread
  exact (Except.ok.inj hread).symm

def withModuleDir (key v : String) (file : List (String × Setting)) : List (String × Setting) :=
  layEntries file [("entities", (text v).nested [key, "module_dir"])]

section WithModuleDir

variable {file : List (String × Setting)} {key v name : String} {c c₀ : Config}

theorem withModuleDir_eq : withModuleDir key v file = put "entities" (table (put key
    (table (put "module_dir" (text v) (under key (under "entities" file))))
      (under "entities" file))) file := by
  simp only [withModuleDir, nested]
  rw [layEntries_table, layEntries_table,
    layEntries_single (v := text v) (fun inner h => nomatch h)]

theorem under_withModuleDir : under "entities" (withModuleDir key v file) =
    put key (table (put "module_dir" (text v) (under key (under "entities" file))))
      (under "entities" file) := by
  rw [withModuleDir_eq, under, lookup_put]

theorem ordered_withModuleDir (hordered : (table file).Ordered) :
    (table (withModuleDir key v file)).Ordered := by
  rw [withModuleDir_eq]
  exact hordered.put (hordered.under.put (hordered.under.under.put (.text v)))

/-- The entity under the key has the module directory. -/
theorem lookup_of_withModuleDir (hordered : (table file).Ordered)
    (h : ofEntries (withModuleDir key v file) = .ok c) :
    ∃ s, c.entities.lookup key = some s ∧ s.moduleDir = some v := by
  have hread := readEntries_of_ofEntries (ordered_withModuleDir hordered) h
  rw [under_withModuleDir] at hread
  obtain ⟨s, hs, hsetting⟩ := lookup_of_readEntries hread lookup_put
  exact ⟨s, hs, moduleDir_of_put hordered.under.under hsetting⟩

/-- All other entities are as they were. -/
theorem lookup_withModuleDir_of_ne (hordered : (table file).Ordered)
    (h : ofEntries (withModuleDir key v file) = .ok c) (h₀ : ofEntries file = .ok c₀) {k : String}
    (hne : k ≠ key) : c.entities.lookup k = c₀.entities.lookup k := by
  have hread := readEntries_of_ofEntries (ordered_withModuleDir hordered) h
  rw [under_withModuleDir] at hread
  exact lookup_readEntries_congr hread (readEntries_of_ofEntries hordered h₀)
    (lookup_put_of_ne hne)

theorem mem_keys_withModuleDir (hordered : (table file).Ordered)
    (h : ofEntries (withModuleDir key v file) = .ok c) (h₀ : ofEntries file = .ok c₀) {k : String}
    (hne : k ≠ key) : k ∈ c.entities.map Prod.fst ↔ k ∈ c₀.entities.map Prod.fst := by
  rw [← not_iff_not, ← lookup_eq_none_iff, ← lookup_eq_none_iff,
    lookup_withModuleDir_of_ne hordered h h₀ hne]

theorem baseDir_withModuleDir (hordered : (table file).Ordered)
    (h : ofEntries (withModuleDir key v file) = .ok c) (h₀ : ofEntries file = .ok c₀) :
    c.baseDir = c₀.baseDir := by
  have hread := reads_baseDir.readKeyed (ordered_withModuleDir hordered).keys h
  have hread₀ := reads_baseDir.readKeyed hordered.keys h₀
  rw [readUnder, withModuleDir_eq, lookup_put_of_ne (by decide)] at hread
  exact Except.ok.inj (hread.symm.trans hread₀)

/-- Where nothing else spells the name, or the name has no capital, it takes its settings from the
entry in small letters. -/
theorem moduleDir_of_withModuleDir (hordered : (table file).Ordered)
    (h : ofEntries (withModuleDir (small name) v file) = .ok c)
    (honly : name = small name ∨ ¬ c.SpellsOtherwise name) :
    (c.options name).moduleDir = some v := by
  obtain ⟨s, hs, hmoduleDir⟩ := lookup_of_withModuleDir hordered h
  have hmem : small name ∈ c.entities.map Prod.fst := List.mem_map_of_mem (mem_of_lookup hs)
  have hspell : name ≠ small name → ∀ k ∈ c.entities.map Prod.fst, small k = small name →
      k = small name := by
    intro hcapital k hk hsame
    by_contra hne
    exact honly.elim hcapital (fun hnot => hnot ⟨k, hk, hsame, hne⟩)
  have hchosen : Chosen (c.entities.map Prod.fst) name (small name) := by
    refine ⟨hmem, small_small name, fun hname => ?_, fun hname k hk hsame => ?_⟩
    · by_contra hne
      exact hne (hspell (Ne.symm hne) name hname rfl).symm
    · have hcapital : name ≠ small name := fun heq => hname (heq ▸ hmem)
      exact (hspell hcapital k hk hsame).ge
  have hsettings : c.settings? name = some s :=
    (settings?_of_chosen (keys_ascend (ordered_withModuleDir hordered) h) hchosen).trans hs
  rw [options, hsettings]
  exact hmoduleDir

/-- Where something else spells a name with a capital, that comes before the entry in small
letters, which nothing asks for. -/
theorem options_withModuleDir (hordered : (table file).Ordered)
    (h : ofEntries (withModuleDir (small name) v file) = .ok c) (h₀ : ofEntries file = .ok c₀)
    (hcapital : name ≠ small name) (hother : c.SpellsOtherwise name) :
    c.options name = c₀.options name := by
  obtain ⟨k, hk, hsame, hne⟩ := hother
  have hmem : ∀ {k}, k ≠ small name →
      (k ∈ c.entities.map Prod.fst ↔ k ∈ c₀.entities.map Prod.fst) :=
    mem_keys_withModuleDir hordered h h₀
  obtain ⟨key, hchosen₀⟩ := exists_chosen ((hmem hne).mp hk) hsame
  -- The key in small letters is the greatest of all that spell the name, so it is never the least.
  have hkey : key ≠ small name := by
    by_cases hname : name ∈ c₀.entities.map Prod.fst
    · rw [hchosen₀.own hname]
      exact hcapital
    · have hle : key ≤ k := hchosen₀.least hname k ((hmem hne).mp hk) hsame
      have hlt : k < small name := lt_of_le_of_ne (hsame ▸ le_small k) hne
      exact (hle.trans_lt hlt).ne
  have hchosen : Chosen (c.entities.map Prod.fst) name key := by
    refine ⟨(hmem hkey).mpr hchosen₀.mem, hchosen₀.same,
      fun hname => hchosen₀.own ((hmem hcapital).mp hname), fun hname k hk hsame => ?_⟩
    by_cases heq : k = small name
    · rw [heq, ← hchosen₀.same]
      exact le_small key
    · exact hchosen₀.least (fun hname₀ => hname ((hmem hcapital).mpr hname₀)) k
        ((hmem heq).mp hk) hsame
  have hsettings : c.settings? name = c₀.settings? name := by
    rw [settings?_of_chosen (keys_ascend (ordered_withModuleDir hordered) h) hchosen,
      settings?_of_chosen (keys_ascend hordered h₀) hchosen₀,
      lookup_withModuleDir_of_ne hordered h h₀ hkey]
  rw [options, options, hsettings, baseDir_withModuleDir hordered h h₀]

end WithModuleDir

/-- A variable for the module directory of an entity reaches the configuration under the entity's
name in small letters. It decides what the entity gets if the name has no capital, or the
configuration spells it in no other letters; otherwise the entity gets what it gets without the
variable. -/
theorem options_of_variable {n : EntityName} {v current path : String}
    {before after : List (String × String)} {d e : Disk} {c : Config}
    (hsingle : ¬ ['_', '_'] <:+: n.text.toList) (hending : n.text.toList.getLast? ≠ some '_')
    (hv : Environment.value v = .text v)
    (hothers : ∀ other ∈ before ++ after, Environment.way? other.1 = none)
    (h : onDisk (load current (before ++ (n.moduleDirVariable, v) :: after) path) d = (.ok c, e)) :
    (∃ s, c.entities.lookup (small n.text) = some s ∧ s.moduleDir = some v) ∧
    (n.text = small n.text ∨ ¬ c.SpellsOtherwise n.text → (c.options n.text).moduleDir = some v) ∧
    (n.text ≠ small n.text → c.SpellsOtherwise n.text → ∀ c₀ e₀,
      onDisk (load current (before ++ after) path) d = (.ok c₀, e₀) →
        c.options n.text = c₀.options n.text) := by
  obtain ⟨source, hordered, hload⟩ := onDisk_load current path d
  have hupper := Environment.settings_single (v := v) hothers
    (EntityName.way?_moduleDirVariable hsingle hending)
  rw [hload, hupper, hv, Prod.mk.injEq] at h
  obtain ⟨⟨shown, file⟩, hsource, hconfig⟩ := except_bind_eq_ok.mp h.1
  have hfile : (table file).Ordered := hordered _ hsource
  have hmerged : ofEntries (withModuleDir (small n.text) v file) = .ok c := mapError_eq_ok hconfig
  refine ⟨lookup_of_withModuleDir hfile hmerged, moduleDir_of_withModuleDir hfile hmerged, ?_⟩
  intro hcapital hother c₀ e₀ h₀
  rw [hload, Environment.settings_of_nowhere hothers, hsource, Prod.mk.injEq] at h₀
  exact options_withModuleDir hfile hmerged (mapError_eq_ok h₀.1) hcapital hother

section OrderItem

def orderItem : EntityName :=
  ⟨"orderItem", by decide⟩

example : orderItem.moduleDirVariable = "CRUDGEN_ENTITIES__ORDERITEM__MODULE_DIR" := by
  decide +kernel

/-- A disk with nothing but a configuration file, which spells the name as it is. -/
def spelledByFile : Disk :=
  ⟨[(["crudgen.toml"],
    .file (Bytes.ofText "[entities.orderItem]\nmodule_dir = \"@file\"\n") Entry.defaultMode)], []⟩

theorem load_spelledByFile : ∃ c, onDisk (load "/" [(orderItem.moduleDirVariable, "@env")]
    standardFile) spelledByFile = (.ok c, spelledByFile) ∧
    c.entities.map Prod.fst = ["orderItem", "orderitem"] ∧
    (c.options "orderItem").moduleDir = some "@file" := by
  have hload : (onDisk (load "/" [(orderItem.moduleDirVariable, "@env")] standardFile)
      spelledByFile).1.toOption.map (fun c =>
        (c.entities.map Prod.fst, (c.options "orderItem").moduleDir)) =
      some (["orderItem", "orderitem"], some "@file") := by
    decide +kernel
  have hdisk : (onDisk (load "/" [(orderItem.moduleDirVariable, "@env")] standardFile)
      spelledByFile).2 = spelledByFile := by
    decide +kernel
  cases hrun : onDisk (load "/" [(orderItem.moduleDirVariable, "@env")] standardFile)
      spelledByFile with
  | mk r e =>
    rw [hrun] at hload hdisk
    cases r with
    | error fault => cases hload
    | ok c =>
      obtain ⟨hkeys, hoptions⟩ := Prod.mk.inj (Option.some.inj hload)
      exact ⟨c, congrArg (Except.ok c, ·) hdisk, hkeys, hoptions⟩

/-- The variable arrives, under another key than the one that is looked at. -/
theorem options_of_variable_orderItem : ∃ c, onDisk (load "/"
    ([] ++ (orderItem.moduleDirVariable, "@env") :: []) standardFile) spelledByFile =
      (.ok c, spelledByFile) ∧
    (∃ s, c.entities.lookup "orderitem" = some s ∧ s.moduleDir = some "@env") ∧
    ∀ c₀ e₀, onDisk (load "/" ([] ++ []) standardFile) spelledByFile = (.ok c₀, e₀) →
      c.options "orderItem" = c₀.options "orderItem" := by
  obtain ⟨c, hc, hkeys, _⟩ := load_spelledByFile
  have hrun : onDisk (load "/" ([] ++ (orderItem.moduleDirVariable, "@env") :: []) standardFile)
      spelledByFile = (.ok c, spelledByFile) := hc
  have hsmall : small "orderItem" = "orderitem" := by decide +kernel
  obtain ⟨harrives, _, hidle⟩ := options_of_variable (n := orderItem) (v := "@env")
    (by decide +kernel) (by decide +kernel) rfl (List.forall_mem_nil _) hrun
  refine ⟨c, hrun, hsmall ▸ harrives, hidle (by decide +kernel)
    ⟨"orderItem", ?_, congrArg small rfl, by decide +kernel⟩⟩
  rw [hkeys]
  exact List.mem_cons_self

/-- A file that spells a name as it is outranks the variable for it. -/
theorem file_outranks_variable : ∃ (n : EntityName) (v current path : String) (d : Disk)
    (c : Config),
    ¬ ['_', '_'] <:+: n.text.toList ∧ n.text.toList.getLast? ≠ some '_' ∧
      Environment.value v = .text v ∧
      onDisk (load current [(n.moduleDirVariable, v)] path) d = (.ok c, d) ∧
      (c.options n.text).moduleDir ≠ some v := by
  obtain ⟨c, hc, _, hoptions⟩ := load_spelledByFile
  refine ⟨orderItem, "@env", "/", standardFile, spelledByFile, c, by decide +kernel,
    by decide +kernel, rfl, hc, ?_⟩
  change (c.options "orderItem").moduleDir ≠ _
  rw [hoptions]
  decide

end OrderItem

end Config

end CrudLayers
