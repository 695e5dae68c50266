import CrudLayers.Proofs.Dependence
import CrudLayers.Proofs.Loading
import CrudLayers.Proofs.Looking
import Mathlib.Data.List.ProdSigma

namespace CrudLayers

open Attempt

variable {d : Disk} {path : String}

namespace Disk

/-- What is read under a path: nothing, if there is nothing, or the text of a file. -/
inductive Reads (d : Disk) (path : String) : Option String → Prop where
  | missing (read : d.read path = .error .noEntry) : Reads d path none
  | text {text : String} (read : d.read path = .ok (Bytes.ofText text)) : Reads d path (some text)

inductive Unreadable (d : Disk) (path : String) : DiskFault → Prop where
  | refused {fault : DiskFault} (read : d.read path = .error fault) (there : fault ≠ .noEntry) :
      Unreadable d path fault
  | noText {bytes : List UInt8} (read : d.read path = .ok bytes)
      (invalid : Bytes.text? bytes = none) : Unreadable d path .notText

theorem Unreadable.not_reads {fault : DiskFault} {current : Option String}
    (h : d.Unreadable path fault) : ¬d.Reads path current := by
  intro hreads
  cases h with
  | refused hread hthere =>
    cases hreads with
    | missing hnone =>
      rw [hread] at hnone
      cases hnone
      exact hthere rfl
    | text htext =>
      rw [hread] at htext
      cases htext
  | noText hread hinvalid =>
    cases hreads with
    | missing hnone =>
      rw [hread] at hnone
      cases hnone
    | text htext =>
      rw [hread] at htext
      cases htext
      rw [Bytes.text?_ofText] at hinvalid
      cases hinvalid

theorem Reads.eq_some_iff {current : Option String} {text : String} (h : d.Reads path current) :
    current = some text ↔ d.read path = .ok (Bytes.ofText text) := by
  cases h with
  | missing hnone => simp [hnone]
  | @text there hread =>
    rw [hread]
    constructor
    · rintro ⟨⟩
      rfl
    · intro hsame
      have hbytes := congrArg Bytes.text? (Except.ok.inj hsame)
      rwa [Bytes.text?_ofText, Bytes.text?_ofText] at hbytes

end Disk

/-- A file is read as text or found missing, or cannot be read. -/
theorem Write.onDisk_readExisting_cases (path : String) (d : Disk) :
    (∃ current, d.Reads path current ∧ onDisk (readExisting path) d = (.ok current, d)) ∨
      ∃ fault, d.Unreadable path fault ∧
        onDisk (readExisting path) d = (.error ⟨path, fault⟩, d) := by
  cases hread : d.read path with
  | ok bytes =>
    cases htext : Bytes.text? bytes with
    | some text =>
      have hbytes : d.read path = .ok (Bytes.ofText text) := by
        rw [hread, Bytes.ofText_of_text? htext]
      exact Or.inl ⟨some text, .text hbytes, onDisk_readExisting_text hbytes⟩
    | none =>
      refine Or.inr ⟨.notText, .noText hread htext, ?_⟩
      rw [onDisk_readExisting, hread]
      simp only [htext]
  | error fault =>
    by_cases hnone : fault = .noEntry
    · subst hnone
      exact Or.inl ⟨none, .missing hread, onDisk_readExisting_none hread⟩
    · refine Or.inr ⟨fault, .refused hread hnone, ?_⟩
      rw [onDisk_readExisting, hread]
      cases fault <;> first | rfl | exact absurd rfl hnone

theorem Write.looks_readExisting (path : String) : (readExisting path).run.Looks := by
  refine looks_bind (looks_ask rfl) ?_
  intro reply
  cases reply with
  | ok bytes =>
    simp only
    cases Bytes.text? bytes with
    | some text => exact .done _
    | none => exact .done _
  | error fault => cases fault <;> exact .done _

namespace Blueprint

variable {b : Blueprint} {names : ModuleNames} {l : Layer}

/-- The file of a layer is there and holds its text to the byte. -/
def UpToDate (d : Disk) (b : Blueprint) (names : ModuleNames) (l : Layer) : Prop :=
  ∃ text, b.text names l = .ok text ∧ d.read (b.filePath l) = .ok (Bytes.ofText text)

instance (d : Disk) (b : Blueprint) (names : ModuleNames) (l : Layer) :
    Decidable (UpToDate d b names l) :=
  match h : b.text names l with
  | .ok text => decidable_of_iff (d.read (b.filePath l) = .ok (Bytes.ofText text))
      (by simp [UpToDate, h])
  | .error _ => isFalse (by simp [UpToDate, h])

theorem onDisk_checkLayer_cases (b : Blueprint) (names : ModuleNames) (l : Layer) (d : Disk) :
    (∃ current check, d.Reads (b.filePath l) current ∧
      onDisk (b.checkLayer names l) d = (.ok check, d) ∧
      check.isStale = decide ¬UpToDate d b names l) ∨
    ∃ fault, d.Unreadable (b.filePath l) fault ∧
      onDisk (b.checkLayer names l) d = (.error (.disk ⟨b.filePath l, fault⟩), d) := by
  obtain ⟨text, htext⟩ := b.exists_text names l
  have hrender : onDisk (b.render names l) d = (.ok text, d) := by
    rw [onDisk_render, htext]
    rfl
  rcases Write.onDisk_readExisting_cases (b.filePath l) d with
    ⟨current, hreads, hread⟩ | ⟨fault, hunreadable, hread⟩
  · refine Or.inl ⟨current, _, hreads,
      onDisk_checkLayer.mpr ⟨rfl, text, current, htext, hread, rfl⟩, ?_⟩
    have hsame : UpToDate d b names l ↔ current = some text := by
      rw [hreads.eq_some_iff, UpToDate]
      simp [htext]
    simp [FileCheck.isStale, hsame]
  · refine Or.inr ⟨fault, hunreadable, ?_⟩
    rw [checkLayer, onDisk_bind_of_ok hrender, onDisk_bind, onDisk_adapt, hread]
    rfl

end Blueprint

/-- The first of some items that is not good, and why it is not. -/
def FirstBad {α β : Type} (good : α → Prop) (bad : α → β → Prop) (items : List α) (why : β) :
    Prop :=
  ∃ before item after, items = before ++ item :: after ∧ (∀ other ∈ before, good other) ∧
    ¬good item ∧ bad item why

section FirstBad

variable {α β : Type} {good : α → Prop} {bad : α → β → Prop} {item : α} {rest : List α} {why : β}

theorem firstBad_head (hgood : ¬good item) (hbad : bad item why) :
    FirstBad good bad (item :: rest) why :=
  ⟨[], item, rest, rfl, by simp, hgood, hbad⟩

theorem FirstBad.cons (hgood : good item) (h : FirstBad good bad rest why) :
    FirstBad good bad (item :: rest) why := by
  obtain ⟨before, other, after, rfl, hbefore, hother⟩ := h
  exact ⟨item :: before, other, after, rfl, List.forall_mem_cons.mpr ⟨hgood, hbefore⟩, hother⟩

theorem FirstBad.not_all (h : FirstBad good bad rest why) : ¬∀ other ∈ rest, good other := by
  obtain ⟨before, item, after, rfl, _, hitem, _⟩ := h
  exact fun hall => hitem (hall item (by simp))

end FirstBad

namespace Blueprint

theorem looks_checkLayer (b : Blueprint) (names : ModuleNames) (l : Layer) :
    (b.checkLayer names l).run.Looks := by
  have hrender : (b.render names l).run.Looks :=
    looks_bind (looks_lift (Program.looks_noteAll _)) (fun _ => .done _)
  refine looks_bind hrender (fun text => ?_)
  refine looks_bind (looks_adapt _ (Write.looks_readExisting _)) (fun current => ?_)
  simp only
  split
  · exact looks_bind (looks_ask rfl) (fun _ => .done _)
  · exact .done _

theorem looks_checkEach (b : Blueprint) (names : ModuleNames) (layers : List Layer) :
    (b.checkEach names layers).run.Looks := by
  induction layers with
  | nil => exact .done _
  | cons l rest ih =>
    exact looks_bind (b.looks_checkLayer names l) (fun check => looks_bind ih (fun _ => .done _))

def FirstUnreadable (d : Disk) (b : Blueprint) (layers : List Layer) (fault : PathFault) : Prop :=
  FirstBad (fun l => ∃ current, d.Reads (b.filePath l) current)
    (fun l why => why.path = b.filePath l ∧ d.Unreadable (b.filePath l) why.fault) layers fault

theorem onDisk_checkEach_cases (b : Blueprint) (names : ModuleNames) (layers : List Layer)
    (d : Disk) :
    ((∀ l ∈ layers, ∃ current, d.Reads (b.filePath l) current) ∧
      ∃ checks, onDisk (b.checkEach names layers) d = (.ok checks, d) ∧
        checks.countP FileCheck.isStale = layers.countP (fun l => ¬UpToDate d b names l)) ∨
    ∃ fault, FirstUnreadable d b layers fault ∧
      onDisk (b.checkEach names layers) d = (.error (.disk fault), d) := by
  induction layers with
  | nil => exact Or.inl ⟨by simp, [], rfl, rfl⟩
  | cons l rest ih =>
    rcases b.onDisk_checkLayer_cases names l d with
      ⟨current, check, hreads, hcheck, hstale⟩ | ⟨fault, hunreadable, hcheck⟩
    · rcases ih with ⟨hall, checks, hchecks, hcount⟩ | ⟨fault, hfirst, hchecks⟩
      · refine Or.inl ⟨List.forall_mem_cons.mpr ⟨⟨current, hreads⟩, hall⟩, check :: checks,
          onDisk_checkEach_cons.mpr ⟨check, d, checks, hcheck, hchecks, rfl⟩, ?_⟩
        rw [List.countP_cons, List.countP_cons, hcount, hstale]
      · refine Or.inr ⟨fault, hfirst.cons ⟨current, hreads⟩, ?_⟩
        rw [checkEach, onDisk_bind_of_ok hcheck, onDisk_bind, hchecks]
    · refine Or.inr ⟨⟨b.filePath l, fault⟩, firstBad_head ?_ ⟨rfl, hunreadable⟩, ?_⟩
      · rintro ⟨current, hreads⟩
        exact hunreadable.not_reads hreads
      · rw [checkEach, onDisk_bind, hcheck]

end Blueprint

namespace CommandLine

variable {s : Surroundings} {c : Config} {flags : Overrides} {entity : String} {stale : Nat}

/-- The name of an entity is valid, and its files can be read if they are there. -/
def Comparable (s : Surroundings) (c : Config) (flags : Overrides) (d : Disk) (entity : String) :
    Prop :=
  ∃ b, blueprint s c flags entity = .ok b ∧ ∀ l, ∃ current, d.Reads (b.filePath l) current

inductive Blocked (s : Surroundings) (c : Config) (flags : Overrides) (d : Disk)
    (entity : String) : Failure → Prop where
  | name {fault : NameFault} (invalid : EntityName.ofString entity = .error fault) :
      Blocked s c flags d entity (.ofName entity fault)
  | directory {n : EntityName} {fault : DiskFault} (valid : EntityName.ofString entity = .ok n)
      (given : flags.baseDir.or c.baseDir = none) (unreadable : s.current = .error fault) :
      Blocked s c flags d entity (.ofDirectory entity fault)
  | file {b : Blueprint} {fault : PathFault} (resolved : blueprint s c flags entity = .ok b)
      (first : Blueprint.FirstUnreadable d b Layer.all fault) :
      Blocked s c flags d entity (.ofGeneration "check" entity (.disk fault))

/-- The file of a layer of an entity is there and holds what would be generated. -/
def Fresh (s : Surroundings) (c : Config) (flags : Overrides) (d : Disk) (entity : String)
    (l : Layer) : Prop :=
  ∃ b, blueprint s c flags entity = .ok b ∧ Blueprint.UpToDate d b c.modules l

instance (s : Surroundings) (c : Config) (flags : Overrides) (d : Disk) (entity : String)
    (l : Layer) : Decidable (Fresh s c flags d entity l) :=
  match h : blueprint s c flags entity with
  | .ok b => decidable_of_iff (Blueprint.UpToDate d b c.modules l) (by simp [Fresh, h])
  | .error _ => isFalse (by simp [Fresh, h])

/-- The number of files that are not fresh, as often as their entities are listed. -/
def staleCount (s : Surroundings) (c : Config) (flags : Overrides) (d : Disk)
    (entities : List String) : Nat :=
  (entities ×ˢ Layer.all).countP (fun p => ¬Fresh s c flags d p.1 p.2)

/-- There is no blueprint of an entity whose name is not valid, or that needs the current directory
where it cannot be read. -/
theorem blocked_of_blueprint {f : Failure} (h : blueprint s c flags entity = .error f) :
    Blocked s c flags d entity f := by
  cases hname : EntityName.ofString entity with
  | error fault =>
    rw [blueprint, hname] at h
    cases h
    exact .name hname
  | ok n =>
    rw [blueprint_of_name hname] at h
    cases hgiven : flags.baseDir.or c.baseDir with
    | some dir =>
      have hdir : ((c.options entity).override flags).directory s.current = .ok dir :=
        congrArg (Option.elim · s.current .ok) hgiven
      rw [hdir] at h
      cases h
    | none =>
      have hdir : ((c.options entity).override flags).directory s.current = s.current :=
        congrArg (Option.elim · s.current .ok) hgiven
      rw [hdir] at h
      cases hcurrent : s.current with
      | ok dir =>
        rw [hcurrent] at h
        cases h
      | error fault =>
        rw [hcurrent] at h
        cases h
        exact .directory hname hgiven hcurrent

theorem onDisk_checkEntity_cases (s : Surroundings) (c : Config) (flags : Overrides)
    (entity : String) (d : Disk) :
    (Comparable s c flags d entity ∧ onDisk (checkEntity s c flags entity) d =
      (.ok (Layer.all.countP (fun l => ¬Fresh s c flags d entity l)), d)) ∨
    ∃ f, ¬Comparable s c flags d entity ∧ Blocked s c flags d entity f ∧
      onDisk (checkEntity s c flags entity) d = (.error f, d) := by
  have hrefused : ∀ f, blueprint s c flags entity = .error f → Blocked s c flags d entity f →
      ∃ f, ¬Comparable s c flags d entity ∧ Blocked s c flags d entity f ∧
        onDisk (checkEntity s c flags entity) d = (.error f, d) := by
    intro f hb hblocked
    refine ⟨f, ?_, hblocked, ?_⟩
    · rintro ⟨b, hok, _⟩
      rw [hb] at hok
      cases hok
    · rw [checkEntity, hb]
      rfl
  cases hb : blueprint s c flags entity with
  | error f => exact Or.inr (hrefused f hb (blocked_of_blueprint hb))
  | ok b =>
    have hentity : onDisk (checkEntity s c flags entity) d =
        onDisk ((b.check c.modules).adapt (Failure.ofGeneration "check" entity) >>= fun checks =>
          say (String.join (checks.map checkText)) >>= fun _ =>
            return checks.countP FileCheck.isStale) d := by
      have hdone : onDisk (ExceptT.mk (.done (.ok b)) : Attempt Failure Blueprint) d = (.ok b, d) :=
        rfl
      rw [checkEntity, hb, onDisk_bind_of_ok hdone]
    rcases b.onDisk_checkEach_cases c.modules Layer.all d with
      ⟨hall, checks, hchecks, hcount⟩ | ⟨fault, hfirst, hchecks⟩
    · refine Or.inl ⟨⟨b, hb, fun l => hall l l.mem_all⟩, ?_⟩
      rw [hentity, Blueprint.check, onDisk_bind_of_ok (onDisk_adapt_ok hchecks _)]
      simp only [Fresh, hb, Except.ok.injEq, exists_eq_left', ← hcount]
      rfl
    · refine Or.inr ⟨_, ?_, .file hb hfirst, ?_⟩
      · rintro ⟨b', hb', hall⟩
        rw [hb] at hb'
        cases hb'
        exact hfirst.not_all (fun l _ => hall l)
      · rw [hentity, Blueprint.check, onDisk_bind, onDisk_adapt, hchecks]
        rfl

theorem staleCount_cons (s : Surroundings) (c : Config) (flags : Overrides) (d : Disk)
    (entity : String) (rest : List String) : staleCount s c flags d (entity :: rest) =
      Layer.all.countP (fun l => ¬Fresh s c flags d entity l) + staleCount s c flags d rest := by
  rw [staleCount, List.product_cons, List.countP_append, List.countP_map]
  rfl

/-- Nothing is stale if and only if every file is fresh. -/
theorem staleCount_eq_zero (entities : List String) : staleCount s c flags d entities = 0 ↔
    ∀ entity ∈ entities, ∀ l, Fresh s c flags d entity l := by
  rw [staleCount, List.countP_eq_zero]
  simp only [decide_not, Bool.not_eq_eq_eq_not, Bool.not_true, decide_eq_false_iff_not,
    Decidable.not_not, Prod.forall, List.mem_product, Layer.mem_all, and_true]
  exact ⟨fun h entity he l => h entity l he, fun h entity l he => h entity he l⟩

theorem onDisk_checkEntities_cases (s : Surroundings) (c : Config) (flags : Overrides)
    (entities : List String) (d : Disk) :
    ((∀ entity ∈ entities, Comparable s c flags d entity) ∧
      onDisk (checkEach s c flags entities) d = (.ok (staleCount s c flags d entities), d)) ∨
    ∃ f, FirstBad (Comparable s c flags d) (Blocked s c flags d) entities f ∧
      onDisk (checkEach s c flags entities) d = (.error f, d) := by
  induction entities with
  | nil => exact Or.inl ⟨by simp, rfl⟩
  | cons entity rest ih =>
    rcases onDisk_checkEntity_cases s c flags entity d with
      ⟨hcomparable, hcheck⟩ | ⟨f, hnot, hblocked, hcheck⟩
    · rcases ih with ⟨hall, hrest⟩ | ⟨f, hfirst, hrest⟩
      · refine Or.inl ⟨List.forall_mem_cons.mpr ⟨hcomparable, hall⟩, ?_⟩
        rw [checkEach, onDisk_bind_of_ok hcheck, onDisk_bind_of_ok hrest, staleCount_cons]
        rfl
      · refine Or.inr ⟨f, hfirst.cons hcomparable, ?_⟩
        rw [checkEach, onDisk_bind_of_ok hcheck, onDisk_bind, hrest]
    · refine Or.inr ⟨f, firstBad_head hnot hblocked, ?_⟩
      rw [checkEach, onDisk_bind, hcheck]

theorem looks_checkEntity (entity : String) : (checkEntity s c flags entity).run.Looks := by
  refine looks_bind (.done _) (fun b => ?_)
  refine looks_bind (looks_adapt _ (b.looks_checkEach c.modules Layer.all)) (fun checks => ?_)
  exact looks_bind (looks_ask rfl) (fun _ => .done _)

theorem looks_checkEntities (entities : List String) :
    (checkEach s c flags entities).run.Looks := by
  induction entities with
  | nil => exact .done _
  | cons entity rest ih =>
    exact looks_bind (looks_checkEntity entity) (fun here => looks_bind ih (fun there => .done _))

theorem looks_check (entities : List String) : (check s c flags entities).run.Looks :=
  looks_bind (looks_checkEntities entities)
    (fun _ => looks_bind (looks_ask rfl) (fun _ => .done _))

/-- A run that checks entities says at its end how many files are stale. -/
theorem run_check {entities : List String} {scene : Scene}
    (h : onDisk (checkEach s c flags entities) scene.disk = (.ok stale, scene.disk)) :
    ∃ scene', (check s c flags entities).run.run scene =
      (.ok (if stale = 0 then 0 else 1), scene') ∧ scene'.disk = scene.disk ∧
        scene'.said.getLast? = some (checkSummary stale) := by
  obtain ⟨scene', hrun, hdisk⟩ := run_of_onDisk h
  refine ⟨{ scene' with said := scene'.said ++ [checkSummary stale] }, ?_, hdisk, by simp⟩
  rw [check, Attempt.run_bind, Program.run_bind, hrun]
  rfl

theorem run_conclude {i : Invocation} {scene start : Scene} {loaded : Except ConfigFault Config}
    (h : (Config.load s.path s.environment i.globals.config).run.run scene = (loaded, start)) :
    (conclude s i).run scene = match loaded with
      | .error fault => (.ofReply (.error (.ofConfig i.globals.config fault)), start)
      | .ok c => (.ofReply ((perform s c i.action).run.run start).1,
          ((perform s c i.action).run.run start).2) := by
  have hadapt : (ExceptT.adapt (Failure.ofConfig i.globals.config)
      (Config.load s.path s.environment i.globals.config)).run.run scene =
        (loaded.mapError (Failure.ofConfig i.globals.config), start) := by
    change (Program.bind (Config.load s.path s.environment i.globals.config).run
      (fun r => .done (r.mapError _))).run scene = _
    rw [Program.run_bind, h]
    rfl
  rw [conclude_eq, Program.run_bind, invoke, Attempt.run_bind, Program.run_bind, hadapt]
  cases loaded <;> rfl

/-- What checking entities does on a disk that is a value, and that it never changes any. Unless
there is no configuration, a run fails at the first entity whose name is refused or whose files
cannot be read; if there is none, it says at its end how many files are not what would be generated,
and succeeds if and only if all of them are. -/
theorem check_counts_stale (s : Surroundings) (globals : Globals) (flags : Overrides)
    (entities : List String) (scene : Scene) :
    (∀ spare d outcome e, (conclude s ⟨globals, .check entities flags⟩).Runs spare d outcome e →
      e = d) ∧
    ∃ loaded outcome scene',
      onDisk (Config.load s.path s.environment globals.config) scene.disk =
        (loaded, scene.disk) ∧
      (conclude s ⟨globals, .check entities flags⟩).run scene = (outcome, scene') ∧
      match loaded with
      | .error _ => outcome.code = 1
      | .ok c =>
        (∃ f, outcome = ⟨1, f.text⟩ ∧ FirstBad (Comparable s c flags scene.disk)
          (Blocked s c flags scene.disk) entities f) ∨
        (∀ entity ∈ entities, Comparable s c flags scene.disk entity) ∧
          scene'.said.getLast? = some (if staleCount s c flags scene.disk entities = 0 then
            "\nAll generated files are up to date\n"
          else "\nFound " ++ toString (staleCount s c flags scene.disk entities) ++
            " stale file(s); run crudgen generate to regenerate\n") ∧
          outcome = ⟨if staleCount s c flags scene.disk entities = 0 then 0 else 1, ""⟩ ∧
          (outcome.code = 0 ↔
            ∀ entity ∈ entities, ∀ l, Fresh s c flags scene.disk entity l) := by
  constructor
  · intro spare d outcome e hrun
    obtain ⟨loaded, _, hend⟩ := runs_conclude hrun
    cases loaded with
    | error fault => exact hend.2
    | ok c =>
      obtain ⟨reply, hperform, _⟩ := hend
      exact (looks_check entities).disk hperform
  · obtain ⟨loaded, hload⟩ : ∃ loaded, onDisk (Config.load s.path s.environment
        globals.config) scene.disk = (loaded, scene.disk) := by
      obtain ⟨source, _, hsource⟩ := Config.onDisk_load s.path globals.config scene.disk
      exact ⟨_, hsource s.environment⟩
    obtain ⟨start, hstart, hdisk⟩ := run_of_onDisk hload
    have hconclude := run_conclude (i := ⟨globals, .check entities flags⟩) hstart
    refine ⟨loaded, _, _, hload, hconclude, ?_⟩
    cases loaded with
    | error fault => rfl
    | ok c =>
      rw [← hdisk]
      rcases onDisk_checkEntities_cases s c flags entities start.disk with
        ⟨hall, hcheck⟩ | ⟨f, hfirst, hcheck⟩
      · obtain ⟨scene', hrun, _, hsaid⟩ := run_check hcheck
        have hperform : (perform s c (.check entities flags)).run.run start = _ := hrun
        simp only [hperform, Outcome.ofReply]
        refine Or.inr ⟨hall, hsaid, trivial, ?_⟩
        rw [← staleCount_eq_zero]
        simp
      · have hfails : onDisk (perform s c (.check entities flags)) start.disk =
            (.error f, start.disk) := by
          rw [perform, check, onDisk_bind, hcheck]
        obtain ⟨scene', hrun, _⟩ := run_of_onDisk hfails
        simp only [hrun]
        exact Or.inl ⟨f, rfl, hfirst⟩

section Order

open Blueprint (rootOrder emptyOutput inDirectory)

theorem comparable_emptyOutput :
    Comparable ⟨"/", []⟩ .standard (inDirectory "/") emptyOutput "order" := by
  have hresolved : blueprint ⟨"/", []⟩ .standard (inDirectory "/") "order" = .ok rootOrder := by
    decide +kernel
  have hnone : ∀ l ∈ Layer.all, emptyOutput.read (rootOrder.filePath l) = .error .noEntry := by
    decide +kernel
  exact ⟨rootOrder, hresolved, fun l => ⟨none, .missing (hnone l l.mem_all)⟩⟩

/-- An entity that has no files and is listed twice has six stale files. -/
theorem check_counts_stale_order : ∃ outcome scene',
    (conclude ⟨"/", []⟩ ⟨plainGlobals, .check ["order", "order"] (inDirectory "/")⟩).run
      (Scene.ofDisk emptyOutput) = (outcome, scene') ∧
    scene'.said.getLast? =
      some "\nFound 6 stale file(s); run crudgen generate to regenerate\n" ∧ outcome.code = 1 := by
  have hconfig : (onDisk (Config.load "/" [] Config.standardFile) emptyOutput).1.toOption =
      some .standard := by decide +kernel
  have hcount : staleCount ⟨"/", []⟩ .standard (inDirectory "/") emptyOutput ["order", "order"] =
      6 := by decide +kernel
  obtain ⟨loaded, outcome, scene', hload, hrun, hend⟩ := (check_counts_stale ⟨"/", []⟩ plainGlobals
    (inDirectory "/") ["order", "order"] (Scene.ofDisk emptyOutput)).2
  have hloaded : loaded.toOption = some .standard :=
    (congrArg (fun r => r.1.toOption) hload).symm.trans hconfig
  cases loaded with
  | error fault => cases hloaded
  | ok c =>
    cases hloaded
    refine ⟨outcome, scene', hrun, ?_⟩
    simp only [Scene.ofDisk, hcount] at hend
    rcases hend with ⟨f, _, hfirst⟩ | ⟨_, hsaid, rfl, _⟩
    · exact absurd (by simp [comparable_emptyOutput]) hfirst.not_all
    · exact ⟨hsaid, rfl⟩

end Order

end CommandLine

end CrudLayers
