import CrudLayers.CommandLine.Run
import CrudLayers.Proofs.Choice
import CrudLayers.Proofs.Regeneration
import CrudLayers.Proofs.UsedSymbols

namespace CrudLayers

section Merging

variable {known l : List String}

theorem addNew_of_subset (h : l ⊆ known) : addNew known l = known := by
  induction l with
  | nil => rfl
  | cons s rest ih =>
    obtain ⟨hs, hrest⟩ := List.cons_subset.mp h
    rw [addNew, if_pos hs, ih hrest]

theorem subset_addNew : l ⊆ addNew known l :=
  fun _ hs => mem_addNew.mpr (Or.inr hs)

theorem pairwise_insertAscending {s : String} (h : l.Pairwise (· < ·)) :
    (insertAscending s l).Pairwise (· < ·) := by
  induction l with
  | nil => exact List.pairwise_singleton _ _
  | cons t rest ih =>
    obtain ⟨hfirst, hrest⟩ := List.pairwise_cons.mp h
    rw [insertAscending]
    split
    · rename_i hlt
      refine List.pairwise_cons.mpr ⟨?_, h⟩
      intro u hu
      rcases List.mem_cons.mp hu with rfl | hu
      · exact hlt
      · exact hlt.trans (hfirst u hu)
    split
    · exact h
    · rename_i hnot hne
      refine List.pairwise_cons.mpr ⟨?_, ih hrest⟩
      intro u hu
      rcases mem_insertAscending.mp hu with rfl | hu
      · exact lt_of_le_of_ne (not_lt.mp hnot) (Ne.symm hne)
      · exact hfirst u hu

theorem pairwise_ascending (l : List String) : (ascending l).Pairwise (· < ·) := by
  induction l with
  | nil => exact .nil
  | cons s rest ih => exact pairwise_insertAscending ih

/-- Options that have been merged once are not changed by merging them again. -/
theorem Options.override_override (o : Options) (flags : Overrides) :
    (o.override flags).override flags = o.override flags := by
  simp only [override, ← Option.or_assoc, Option.or_self, addNew_of_subset subset_addNew]

end Merging

namespace Config

variable {c : Config} {name : String} {settings : EntitySettings}

/-- The settings that a name takes from a configuration: those under the key that it chooses, or
none if no key spells it. -/
inductive Takes (c : Config) (name : String) : EntitySettings → Prop where
  | chosen {key : String} {settings : EntitySettings}
      (chosen : Chosen (c.entities.map Prod.fst) name key) (entry : (key, settings) ∈ c.entities) :
      Takes c name settings
  | unknown (none : ∀ key ∈ c.entities.map Prod.fst, small key ≠ small name) : Takes c name .none

theorem settings?_of_unknown (h : ∀ key ∈ c.entities.map Prod.fst, small key ≠ small name) :
    c.settings? name = none := by
  have hlookup : c.entities.lookup name = none :=
    Setting.lookup_eq_none_iff.mpr (fun hname => h name hname rfl)
  have hfind : c.entities.find? (fun e => sameIgnoringCase e.1 name) = none := by
    rw [List.find?_eq_none]
    intro e he hsame
    exact h e.1 (List.mem_map_of_mem he) (sameIgnoringCase_iff.mp hsame)
  rw [settings?, hlookup, hfind]
  rfl

theorem takes_iff (hkeys : (c.entities.map Prod.fst).Pairwise (· < ·)) :
    c.Takes name settings ↔ settings = (c.settings? name).getD .none := by
  have found : ∀ {key s}, Chosen (c.entities.map Prod.fst) name key → (key, s) ∈ c.entities →
      c.settings? name = some s := by
    intro key s hchosen hentry
    rw [settings?_of_chosen hkeys hchosen, Setting.lookup_of_mem hkeys hentry]
  constructor
  · rintro (⟨hchosen, hentry⟩ | hnone)
    · rw [found hchosen hentry, Option.getD_some]
    · rw [settings?_of_unknown hnone, Option.getD_none]
  · rintro rfl
    by_cases hspelled : ∃ key ∈ c.entities.map Prod.fst, small key = small name
    · obtain ⟨k, hk, hsame⟩ := hspelled
      obtain ⟨key, hchosen⟩ := exists_chosen hk hsame
      obtain ⟨⟨key', s⟩, hentry, rfl⟩ := List.mem_map.mp hchosen.mem
      rw [found hchosen hentry, Option.getD_some]
      exact .chosen hchosen hentry
    · push Not at hspelled
      rw [settings?_of_unknown hspelled, Option.getD_none]
      exact .unknown hspelled

end Config

namespace CommandLine

variable {s : Surroundings} {c : Config} {flags more : Overrides} {n : EntityName}

/-- The exposed names of an entity that neither its settings nor the command line exclude, in
catalog order. -/
def remainingNames (n : EntityName) (settings : EntitySettings) (flags : Overrides) :
    List String :=
  (ResolverField.all.map (·.exposedName n)).filter
    (fun name => name ∉ settings.excludes ∧ name ∉ flags.excludes)

/-- A blueprint in which each option has the first value that is given for it: on the command line,
in the configuration, or by default. -/
structure Resolved (s : Surroundings) (c : Config) (flags : Overrides) (n : EntityName)
    (settings : EntitySettings) (b : Blueprint) : Prop where
  name : b.name = n
  baseDir : (flags.baseDir.or c.baseDir).elim s.current .ok = .ok b.baseDir
  moduleDir : b.moduleDir = (flags.moduleDir.or settings.moduleDir).getD ("@" ++ n.text)
  relations : b.relations = (flags.relations.or settings.relations).getD "[]"
  excludes : ∀ x, x ∈ b.excludes ↔ x ∈ settings.excludes ∨ x ∈ flags.excludes
  ascending : b.excludes.Pairwise (· < ·)
  directives : b.directives.map Directive.exposedName = remainingNames n settings flags
  methods : ∀ names, (b.resolverFile names).decl.methods.map Method.name =
    remainingNames n settings flags

variable {dir : String}

theorem blueprint_eq (h : ((c.options n.text).override flags).directory s.current = .ok dir) :
    blueprint s c flags n.text = .ok (.ofOptions dir n ((c.options n.text).override flags)) := by
  rw [blueprint_of_name (EntityName.ofString_text n), h]

theorem blueprint_lost {fault : DiskFault}
    (h : ((c.options n.text).override flags).directory s.current = .error fault) :
    blueprint s c flags n.text = .error (.ofDirectory n.text fault) := by
  rw [blueprint_of_name (EntityName.ofString_text n), h]

theorem baseDir_of_directory {current : Except DiskFault String} {o : Options}
    (h : o.directory current = .ok dir) :
    o.baseDir.elim current .ok = .ok (Blueprint.ofOptions dir n o).baseDir := by
  rw [Options.directory] at h
  rw [Blueprint.ofOptions]
  cases hgiven : o.baseDir with
  | some given => rfl
  | none =>
    rw [hgiven] at h
    exact h

theorem map_exposedName_fields (b : Blueprint) : b.fields.map (·.exposedName b.name) =
    (ResolverField.all.map (·.exposedName b.name)).filter (· ∉ b.excludes) := by
  rw [List.filter_map, Blueprint.fields]
  congr 2
  funext f
  simp [Blueprint.exposes, Blueprint.isExcluded]

theorem resolved_of_options
    (h : ((c.options n.text).override flags).directory s.current = .ok dir) :
    Resolved s c flags n ((c.settings? n.text).getD .none)
      (.ofOptions dir n ((c.options n.text).override flags)) := by
  have hbase := baseDir_of_directory (n := n) h
  generalize hb : Blueprint.ofOptions dir n ((c.options n.text).override flags) = b at hbase ⊢
  generalize hs : (c.settings? n.text).getD .none = settings
  have hexcludes : ∀ x, x ∈ b.excludes ↔ x ∈ settings.excludes ∨ x ∈ flags.excludes := by
    intro x
    rw [← hb, ← hs]
    exact mem_ascending.trans mem_addNew
  have hname : b.name = n := by rw [← hb]; rfl
  have hnames : b.fields.map (·.exposedName n) = remainingNames n settings flags := by
    have hfields := map_exposedName_fields b
    rw [hname] at hfields
    rw [hfields, remainingNames]
    simp only [hexcludes, not_or]
  refine ⟨hname, hbase, ?_, ?_, hexcludes, ?_, ?_, ?_⟩
  · rw [← hb, ← hs]
    rfl
  · rw [← hb, ← hs]
    rfl
  · rw [← hb]
    exact pairwise_ascending _
  · rw [Blueprint.directives, List.map_map, ← hnames, ← hname]
    rfl
  · intro names
    rw [Blueprint.resolverFile_decl, List.map_map, ← hnames, ← hname]
    rfl

/-- With more excludes on the command line, fewer fields are left. -/
theorem fields_sublist (dir other : String) (n : EntityName) (o : Options)
    (h : flags.excludes ⊆ more.excludes) :
    (Blueprint.ofOptions other n (o.override more)).fields.Sublist
      (Blueprint.ofOptions dir n (o.override flags)).fields := by
  refine List.monotone_filter_right _ ?_
  intro f hf
  simp only [Blueprint.exposes, Blueprint.isExcluded, Blueprint.ofOptions, Options.override,
    Bool.not_eq_true', List.contains_eq_mem, decide_eq_false_iff_not, mem_ascending,
    mem_addNew, not_or] at hf ⊢
  exact ⟨hf.1, fun hmem => hf.2 (h hmem)⟩

theorem onDisk_directives (h : ((c.options n.text).override flags).directory s.current = .ok dir)
    (d : Disk) : Attempt.onDisk (directives s c flags n.text) d =
      (.ok (Blueprint.ofOptions dir n ((c.options n.text).override flags)).directives, d) := by
  rw [directives, blueprint_eq h]
  change Attempt.onDisk (ExceptT.lift (noteAll _) >>= _) d = _
  rw [Attempt.onDisk_bind_of_ok (Attempt.onDisk_lift _), onDisk_noteAll]
  rfl

/-- How the options of an entity are resolved, from the configuration and the command line to the
fields of the resolver. Each option has the first value given for it; the fields that are left,
listed or as methods, are the exposed names that no exclude of either side names. Merging the
options of the command line once more changes nothing, and giving more of them only removes
fields. Where no base directory is given and the current one cannot be read, there is no
blueprint. -/
theorem blueprint_resolved (s : Surroundings) (c : Config) (flags : Overrides) (n : EntityName)
    (hkeys : (c.entities.map Prod.fst).Pairwise (· < ·)) :
    (∀ fault, (flags.baseDir.or c.baseDir).elim s.current .ok = .error fault →
      blueprint s c flags n.text = .error (.ofDirectory n.text fault)) ∧
    ∀ dir, (flags.baseDir.or c.baseDir).elim s.current .ok = .ok dir →
    ∃ settings b, c.Takes n.text settings ∧ blueprint s c flags n.text = .ok b ∧
      Resolved s c flags n settings b ∧
      (∀ d, Attempt.onDisk (directives s c flags n.text) d = (.ok b.directives, d)) ∧
      ((c.options n.text).override flags).override flags = (c.options n.text).override flags ∧
      ∀ (more : Overrides) (other : String), flags.excludes ⊆ more.excludes →
        (more.baseDir.or c.baseDir).elim s.current .ok = .ok other →
        ∃ fewer, blueprint s c more n.text = .ok fewer ∧
          fewer.directives.Sublist b.directives ∧ ∀ names,
            (fewer.resolverFile names).decl.methods.Sublist
              (b.resolverFile names).decl.methods := by
  constructor
  · intro fault
    exact blueprint_lost
  · intro dir hdir
    refine ⟨_, _, (Config.takes_iff hkeys).mpr rfl, blueprint_eq hdir, resolved_of_options hdir,
      onDisk_directives hdir, Options.override_override _ flags, ?_⟩
    intro more other hmore hother
    have hfields := fields_sublist dir other n (c.options n.text) hmore
    refine ⟨_, blueprint_eq hother, hfields.map _, ?_⟩
    intro names
    rw [Blueprint.resolverFile_decl, Blueprint.resolverFile_decl]
    exact hfields.map _

section Order

open Blueprint (orderName)

/-- A configuration that spells `order` in two ways, neither of them its own. -/
def spelledTwice : Config :=
  ⟨some "/srv", .standard,
    [("ORDER", ⟨["order"], some "@upper", none⟩), ("Order", ⟨["orders"], some "@mixed", none⟩)]⟩

/-- The settings of `ORDER` are taken, and the command line adds an exclude to theirs. -/
theorem blueprint_resolved_order :
    (spelledTwice.entities.map Prod.fst).Pairwise (· < ·) ∧
    ∃ settings b, spelledTwice.Takes "order" settings ∧
      blueprint ⟨"/", []⟩ spelledTwice ⟨none, ["createOrder"], none, none⟩ "order" = .ok b ∧
      Resolved ⟨"/", []⟩ spelledTwice ⟨none, ["createOrder"], none, none⟩ orderName settings b ∧
      b.moduleDir = "@upper" := by
  have hkeys : (spelledTwice.entities.map Prod.fst).Pairwise (· < ·) := by decide +kernel
  have hupper : (blueprint ⟨"/", []⟩ spelledTwice ⟨none, ["createOrder"], none, none⟩
      "order").toOption.map (·.moduleDir) = some "@upper" := by decide +kernel
  obtain ⟨settings, b, htakes, hblueprint, hresolved, _⟩ := (blueprint_resolved ⟨"/", []⟩
    spelledTwice ⟨none, ["createOrder"], none, none⟩ orderName hkeys).2 "/srv" rfl
  have hmodule : b.moduleDir = "@upper" := by
    change blueprint _ _ _ "order" = _ at hblueprint
    rw [hblueprint] at hupper
    exact Option.some.inj hupper
  exact ⟨hkeys, settings, b, htakes, hblueprint, hresolved, hmodule⟩

example : blueprint ⟨.error .noEntry, []⟩ .standard ⟨none, [], none, none⟩ "order" =
    .error ⟨"Invalid entity 'order'", ["I/O error on .: No such file or directory (os error 2)",
      "No such file or directory (os error 2)"]⟩ := by decide +kernel

end Order

end CommandLine

end CrudLayers
