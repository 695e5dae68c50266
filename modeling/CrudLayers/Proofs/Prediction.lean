import CrudLayers.Proofs.Missing
import CrudLayers.Proofs.Regeneration

namespace CrudLayers

open Disk Write Attempt

/-- What the comparison of a file says about generating it, and about the disk afterwards. -/
structure FileCheck.Foresees (c : FileCheck) (f : GeneratedFile) (d : Disk) : Prop where
  layer : f.layer = c.layer
  path : f.path = c.path
  created : f.status = .created ↔ c.current = none
  updated : f.status = .updated ↔ ∃ text, c.current = some text ∧ text ≠ c.expected
  unchanged : f.status = .unchanged ↔ c.current = some c.expected
  content : d.readText f.path = .ok c.expected

theorem FileCheck.isStale_iff (c : FileCheck) : c.isStale = true ↔ c.current ≠ some c.expected := by
  simp [FileCheck.isStale]

/-- Files that are foreseen one by one are foreseen as a list of changes. -/
theorem changedLayers_of_foresees {checks : List FileCheck} {files : List GeneratedFile} {d : Disk}
    (h : List.Forall₂ (fun c f => FileCheck.Foresees c f d) checks files) :
    (checks.filter FileCheck.isStale).map FileCheck.layer = changedLayers files := by
  induction h with
  | nil => rfl
  | @cons c f checks files hf _ ih =>
    rw [changedLayers] at ih ⊢
    by_cases hc : c.current = some c.expected
    · have hstatus := hf.unchanged.mpr hc
      rw [List.filter_cons_of_neg (by simpa [FileCheck.isStale] using hc),
        List.filter_cons_of_neg (by simp [hstatus]), ih]
    · have hstatus : f.status ≠ .unchanged := fun hs => hc (hf.unchanged.mp hs)
      rw [List.filter_cons_of_pos (c.isStale_iff.mpr hc),
        List.filter_cons_of_pos (by simpa using hstatus), List.map_cons, List.map_cons, ih,
        hf.layer]

/-- On a name with no link under it, reading sees nothing but what stands there. -/
theorem Disk.Enters.read_congr {d e : Disk} {path name : String} {place : Location}
    (h : d.Enters path place name) (h' : e.Enters path place name)
    (hsame : e.find? (place ++ [name]) = d.find? (place ++ [name]))
    (hplain : ∀ target, d.find? (place ++ [name]) ≠ some (.link target)) :
    e.read path = d.read path := by
  cases hf : d.find? (place ++ [name]) with
  | none =>
    rw [hf] at hsame
    rw [h.read_none hf, h'.read_none hsame]
  | some entry =>
    rw [hf] at hsame
    cases entry with
    | file bytes mode => rw [h.read_file hf, h'.read_file hsame]
    | directory =>
      rw [read, read, stat, stat, h.resolve_directory true hf, h'.resolve_directory true hsame]
    | link target => exact absurd hf (hplain target)

namespace Blueprint

variable {b : Blueprint} {names : ModuleNames} {d e : Disk} {place : Location}

structure Compared (b : Blueprint) (names : ModuleNames) (d : Disk) (l : Layer) (c : FileCheck) :
    Prop where
  layer : c.layer = l
  path : c.path = b.filePath l
  text : b.text names l = .ok c.expected
  current : onDisk (readExisting (b.filePath l)) d = (.ok c.current, d)

/-- A layer as it is generated in a directory that is there, seen from before the first write. -/
structure Rewritten (b : Blueprint) (names : ModuleNames) (d : Disk) (place : Location) (l : Layer)
    (f : GeneratedFile) : Prop where
  layer : f.layer = l
  path : f.path = b.filePath l
  enters : d.Enters (b.filePath l) place (l.fileName b.name.text)
  status : ∃ text earlier, b.text names l = .ok text ∧
    onDisk (readExisting (b.filePath l)) d = (.ok earlier, d) ∧ f.status = Write.status earlier text

/-- A comparison leaves the disk as it was. -/
theorem compared_of_checkEach {layers : List Layer} {checks : List FileCheck}
    (h : onDisk (b.checkEach names layers) d = (.ok checks, e)) :
    e = d ∧ List.Forall₂ (b.Compared names d) layers checks := by
  induction layers generalizing checks with
  | nil =>
    cases h
    exact ⟨rfl, .nil⟩
  | cons l rest ih =>
    obtain ⟨check, m, more, hfirst, hmore, rfl⟩ := onDisk_checkEach_cons.mp h
    obtain ⟨rfl, text, current, htext, hread, rfl⟩ := onDisk_checkLayer.mp hfirst
    obtain ⟨rfl, hall⟩ := ih hmore
    exact ⟨rfl, .cons ⟨rfl, rfl, htext, hread⟩ hall⟩

/-- Replacing the earlier files does not change what is read of the later ones, as long as no file
is a link. -/
theorem rewritten_of_generateEach {layers : List Layer} {files : List GeneratedFile}
    (hs : d.Settled b.outputDir place) (hnodup : layers.Nodup)
    (hplain : ∀ l ∈ layers, d.Enters (b.filePath l) place (l.fileName b.name.text) →
      ∀ target, d.find? (b.target place l) ≠ some (.link target))
    (h : onDisk (b.generateEach names layers) d = (.ok files, e)) :
    List.Forall₂ (b.Rewritten names d place) layers files := by
  induction layers generalizing d files with
  | nil =>
    cases h
    exact .nil
  | cons l rest ih =>
    obtain ⟨hl, hrest⟩ := List.nodup_cons.mp hnodup
    obtain ⟨file, m, more, hfirst, hmore, rfl⟩ := onDisk_generateEach_cons.mp h
    obtain ⟨text, earlier, mode, htext, hready, hread, rfl, rfl⟩ := put_of_generate hs hfirst
    refine .cons ⟨rfl, rfl, hready.enters, text, earlier, htext, hread, rfl⟩ ?_
    let next := d.put (b.target place l) (.file (Bytes.ofText text) mode)
    have hnext : next.Settled b.outputDir place := hs.put hready.bars _
    have hother : ∀ k ∈ rest, next.find? (b.target place k) = d.find? (b.target place k) := by
      intro k hk
      apply find?_put_other
      intro heq
      rw [target_injective heq] at hk
      exact hl hk
    have henters : ∀ k, next.Enters (b.filePath k) place (k.fileName b.name.text) →
        d.Enters (b.filePath k) place (k.fileName b.name.text) :=
      fun k hk => hs.enters_join b.endsInName_outputDir (k.isName_fileName b.name) hk.fit hk.short
    have hplain' : ∀ k ∈ rest, next.Enters (b.filePath k) place (k.fileName b.name.text) →
        ∀ target, d.find? (b.target place k) ≠ some (.link target) :=
      fun k hk hat => hplain k (List.mem_cons_of_mem _ hk) (henters k hat)
    have hmembers := ih hnext hrest
      (fun k hk hat => by rw [hother k hk]; exact hplain' k hk hat) hmore
    refine (List.forall₂_and_left rest more |>.mpr ⟨fun k hk => hk, hmembers⟩).imp ?_
    rintro k f ⟨hk, hf⟩
    have hat := henters k hf.enters
    obtain ⟨text', earlier', htext', hread', hstatus⟩ := hf.status
    refine ⟨hf.layer, hf.path, hat, text', earlier', htext', ?_, hstatus⟩
    rw [onDisk_readExisting, Prod.mk.injEq] at hread' ⊢
    rw [← hat.read_congr hf.enters (hother k hk) (hplain' k hk hf.enters)]
    exact ⟨hread'.1, rfl⟩

/-- Each path of a layer leads to a file, if it leads anywhere; no link is followed. -/
def Plain (b : Blueprint) (d : Disk) : Prop :=
  ∀ l place entry, d.resolve false (b.filePath l) = .ok (.found place entry) →
    ∃ bytes mode, entry = .file bytes mode

/-- What can be read before the output directory is made is what can be read afterwards. -/
theorem readExisting_of_makeDirectories {l : Layer} (hsound : d.Sound)
    (hstraight : d.Straight b.outputDir) (hplain : b.Plain d)
    (hmake : (makeDirectories b.outputDir).onDisk d = (.ok (), e))
    (hs : e.Settled b.outputDir place)
    (henters : e.Enters (b.filePath l) place (l.fileName b.name.text)) :
    (∀ target, e.find? (b.target place l) ≠ some (.link target)) ∧
      ∀ current, onDisk (readExisting (b.filePath l)) d = (.ok current, d) →
        onDisk (readExisting (b.filePath l)) e = (.ok current, e) := by
  have hends := b.endsInName_outputDir
  by_cases hthere : ∃ there, d.Settled b.outputDir there
  · obtain ⟨there, hthere⟩ := hthere
    rw [onDisk_makeDirectories hthere hends] at hmake
    cases hmake
    refine ⟨?_, fun _ hread => hread⟩
    intro target hlink
    obtain ⟨bytes, mode, hfile⟩ := hplain l _ _ (henters.resolve_link hlink)
    cases hfile
  · have hnot : ∀ there, ¬d.Settled b.outputDir there := fun there h => hthere ⟨there, h⟩
    obtain ⟨there, hnew⟩ := new_of_makeDirectories hsound hstraight hends.ends hnot hmake
    have hplace := hnew.leads.unique (settled_iff_leads.mp hs).2
    subst hplace
    have hfree : e.find? (b.target there l) = none := hnew.empty _ (by simp)
    constructor
    · intro target hlink
      rw [hfree] at hlink
      cases hlink
    · intro current hread
      obtain ⟨_, ⟨_, rfl⟩ | ⟨text, hok, _⟩⟩ := read_of_readExisting hread
      · exact onDisk_readExisting_none (henters.read_none hfree)
      · rw [Disk.read, stat] at hok
        cases hr : d.resolve true (b.filePath l) with
        | error fault =>
          rw [hr] at hok
          cases hok
        | ok a => exact absurd (settled_of_resolve hends (l.isName_fileName b.name) hr) hthere

theorem readText_of_written {layers : List Layer} {writes : List (Location × Entry)}
    (h : List.Forall₂ (b.Written names d place) layers writes) :
    ∀ l ∈ layers, ∃ text, b.text names l = .ok text ∧ d.readText (b.filePath l) = .ok text := by
  induction h with
  | nil =>
    intro l hl
    cases hl
  | cons hw _ ih =>
    intro k hk
    rcases List.mem_cons.mp hk with rfl | hk
    · obtain ⟨text, htext, hread⟩ := hw.read
      exact ⟨text, htext, readText_of_read hread⟩
    · exact ih k hk

/-- A layer that is compared and then rewritten is foreseen. -/
theorem foresees_of_rewritten {m : Disk} {l : Layer} {c : FileCheck} {f : GeneratedFile}
    (hc : b.Compared names d l c) (hf : b.Rewritten names m place l f)
    (hkept : ∀ current, onDisk (readExisting (b.filePath l)) d = (.ok current, d) →
      onDisk (readExisting (b.filePath l)) m = (.ok current, m))
    (hafter : ∃ text, b.text names l = .ok text ∧ e.readText (b.filePath l) = .ok text) :
    c.Foresees f e := by
  obtain ⟨text, earlier, htext, hearlier, hstatus⟩ := hf.status
  obtain ⟨text', htext', hread⟩ := hafter
  have hcurrent := hkept _ hc.current
  rw [hearlier] at hcurrent
  cases hcurrent
  rw [htext'] at htext
  cases htext
  have hexpected := hc.text
  rw [htext'] at hexpected
  cases hexpected
  refine ⟨by rw [hf.layer, hc.layer], by rw [hf.path, hc.path], ?_, ?_, ?_, ?_⟩
  · rw [hstatus, status_created]
  · rw [hstatus, status_updated]
  · rw [hstatus, status_unchanged]
  · rw [hf.path, hread]

theorem foresees_of_layers {m : Disk} {layers : List Layer} {checks : List FileCheck}
    {files : List GeneratedFile} (hc : List.Forall₂ (b.Compared names d) layers checks)
    (hf : List.Forall₂ (b.Rewritten names m place) layers files)
    (hstep : ∀ l ∈ layers, ∀ c f, b.Compared names d l c → b.Rewritten names m place l f →
      c.Foresees f e) : List.Forall₂ (fun c f => FileCheck.Foresees c f e) checks files := by
  induction hc generalizing files with
  | nil =>
    cases hf
    exact .nil
  | cons hfirst _ ih =>
    cases hf with
    | cons hfile hrest =>
      exact .cons (hstep _ List.mem_cons_self _ _ hfirst hfile)
        (ih hrest (fun l hl => hstep l (List.mem_cons_of_mem _ hl)))

/-- What a comparison says is what generating then does, on a disk whose entries all stand in
directories, if no path of a layer is a link and the base directory has no `..` that leaves a
missing directory. -/
theorem check_foresees_generate (n : EntityName) (o : Options) (names : ModuleNames)
    (s t u : Scene) (checks : List FileCheck) (files : List GeneratedFile)
    (hsound : s.disk.Sound)
    (hstraight : s.disk.Straight (ofOptions s.disk.currentPath n o).baseDir)
    (hplain : (ofOptions s.disk.currentPath n o).Plain s.disk)
    (hc : ((ofOptions s.disk.currentPath n o).check names).run.run s = (.ok checks, t))
    (hg : ((ofOptions t.disk.currentPath n o).generateLayers names Layer.all).run.run t =
      (.ok files, u)) :
    (checks.filter FileCheck.isStale).map FileCheck.layer = changedLayers files ∧
      List.Forall₂ (fun c f => FileCheck.Foresees c f u.disk) checks files := by
  obtain ⟨hsame, hcompared⟩ := compared_of_checkEach (onDisk_of_run hc)
  have hgenerate := onDisk_of_run hg
  rw [hsame] at hgenerate
  generalize ofOptions s.disk.currentPath n o = b at *
  have hgenerated : Path.IsName generatedDir := ⟨by decide, by decide, by decide⟩
  have hout : s.disk.Straight b.outputDir := (hstraight.join hgenerated).join b.name.isName
  obtain ⟨m, place, hmake, hsettled, hlayers⟩ := settled_of_generateEach hgenerate
  have hread := fun l => readExisting_of_makeDirectories (l := l) hsound hout hplain hmake hsettled
  have hrewritten := rewritten_of_generateEach hsettled (by decide)
    (fun l _ hat => (hread l hat).1) hlayers
  obtain ⟨writes, hdisk, hwritten, _⟩ := writes_of_generateEach hsettled (by decide) hlayers
  have htexts := readText_of_written hwritten
  have hall : List.Forall₂ (fun c f => FileCheck.Foresees c f u.disk) checks files := by
    apply foresees_of_layers hcompared hrewritten
    intro l hl c f hc hf
    exact foresees_of_rewritten hc hf (hread l hf.enters).2 (htexts l hl)
  exact ⟨changedLayers_of_foresees hall, hall⟩

/-- Layers with nothing to read are compared with nothing. -/
theorem checkEach_absent {layers : List Layer}
    (h : ∀ l ∈ layers, d.read (b.filePath l) = .error .noEntry ∧
      ∃ text, b.text names l = .ok text) :
    ∃ checks, onDisk (b.checkEach names layers) d = (.ok checks, d) ∧
      checks.map FileCheck.layer = layers ∧ ∀ c ∈ checks, c.current = none := by
  induction layers with
  | nil => exact ⟨[], rfl, rfl, fun c hc => nomatch hc⟩
  | cons l rest ih =>
    obtain ⟨checks, hchecks, hlayers, hnone⟩ := ih (fun k hk => h k (List.mem_cons_of_mem _ hk))
    obtain ⟨hread, text, htext⟩ := h l List.mem_cons_self
    have hcheck := onDisk_checkLayer.mpr
      ⟨rfl, text, none, htext, onDisk_readExisting_none hread, rfl⟩
    refine ⟨_, onDisk_checkEach_cons.mpr ⟨_, _, _, hcheck, hchecks, rfl⟩, ?_, ?_⟩
    · rw [List.map_cons, hlayers]
    · intro c hc
      rcases List.mem_cons.mp hc with rfl | hmem
      · rfl
      · exact hnone c hmem

theorem check_foresees_generate_order : ∃ checks t files u,
    (rootOrder.check .standard).run.run (Scene.ofDisk emptyOutput) = (.ok checks, t) ∧
    ((ofOptions t.disk.currentPath orderName (inDirectory "/")).generateLayers .standard
      Layer.all).run.run t = (.ok files, u) ∧
    (checks.filter FileCheck.isStale).map FileCheck.layer = changedLayers files := by
  have hread : ∀ l, emptyOutput.read (rootOrder.filePath l) = .error .noEntry :=
    fun l => (ready_emptyOutput l).enters.read_none (free_emptyOutput l)
  obtain ⟨checks, hchecks, _⟩ := checkEach_absent
    (fun l (_ : l ∈ Layer.all) => ⟨hread l, text_rootOrder l⟩)
  obtain ⟨t, ht, hsame⟩ := run_of_onDisk (s := Scene.ofDisk emptyOutput) hchecks
  obtain ⟨files, e, hrun⟩ := generate_emptyOutput
  rw [← hsame] at hrun
  obtain ⟨u, hu, _⟩ := run_of_onDisk hrun
  have hsound : emptyOutput.Sound := sound_of_entries (by decide +kernel)
  have hstraight : emptyOutput.Straight rootOrder.baseDir :=
    ⟨[], [], _, by decide +kernel, List.not_mem_nil, 0, Nat.zero_le _, .here _⟩
  have hplain : rootOrder.Plain emptyOutput := by
    intro l place entry hfound
    rw [filePath, (ready_emptyOutput l).enters.resolve_none false (free_emptyOutput l)] at hfound
    cases hfound
  exact ⟨checks, t, files, u, ht, hu, (check_foresees_generate orderName (inDirectory "/") .standard
    (Scene.ofDisk emptyOutput) t u checks files hsound hstraight hplain ht hu).1⟩

section Detour

/-- A base directory that goes into a directory and out of it again. -/
def detour : Blueprint :=
  ofOptions "/" orderName (inDirectory "x/../y")

def detourPlace : Location :=
  ["y", "generated", "order"]

def detourFile (l : Layer) : Entry :=
  .file (Bytes.ofText ((detour.text .standard l).toOption.getD "")) Entry.defaultMode

/-- A disk on which the files of the detour are there and up to date, but the directory it goes
through is not. -/
def upToDate : Disk :=
  Disk.putAll ⟨(Disk.start detourPlace).entries, []⟩
    (Layer.all.map (fun l => (detour.target detourPlace l, detourFile l)))

def passable : Disk :=
  upToDate.put ["x"] .directory

theorem fits_detour : Fits "x" :=
  ⟨by decide, by decide, by decide⟩

theorem text_detour (l : Layer) : ∃ text, detour.text .standard l = .ok text ∧
    detourFile l = .file (Bytes.ofText text) Entry.defaultMode := by
  have hall : ∀ l ∈ Layer.all, (detour.text .standard l).isOk = true := by decide +kernel
  exact ⟨_, text_of_isOk (hall l l.mem_all), rfl⟩

theorem resolve_detour (l : Layer) (follow : Bool) :
    upToDate.resolve follow (detour.filePath l) = .error .noEntry := by
  have hpaths : ∀ l ∈ Layer.all, pathFault? (detour.filePath l) = none ∧
      Path.pieces (detour.filePath l) =
        "x" :: ["..", "y", "generated", "order", l.fileName orderName.text] ∧
      upToDate.find? (origin upToDate.current (detour.filePath l) ++ ["x"]) = none := by
    decide +kernel
  obtain ⟨hfit, hpieces, hfree⟩ := hpaths l l.mem_all
  exact resolve_of_free hfit hpieces fits_detour hfree (by simp)

/-- Making the output directory makes the directory on the way, and finds the others there. -/
theorem onDisk_makeDirectories_detour :
    (makeDirectories detour.outputDir).onDisk upToDate = (.ok (), passable) := by
  let waiting := ["x/../y/generated/order", "x/../y/generated", "x/../y", "x/.."]
  have hupward : Path.upward detour.outputDir = waiting ++ ["x"] := by decide +kernel
  have hshape : ∀ p ∈ waiting, pathFault? p = none ∧ Path.pieces p = "x" :: (Path.pieces p).tail ∧
      upToDate.find? (origin upToDate.current p ++ ["x"]) = none ∧
      (Path.pieces p).tail ≠ [] ∧ Path.Ends p := by
    decide +kernel
  have hwait : ∀ p ∈ waiting, upToDate.makeDirectory p = .error .noEntry := by
    intro p hp
    obtain ⟨hfit, hpieces, hfree, hmore, hends⟩ := hshape p hp
    exact makeDirectory_of_free hfit hpieces fits_detour hfree hmore hends
  have henters : upToDate.Enters "x" [] "x" :=
    ⟨by decide, ⟨by decide, by decide, by decide⟩, by decide, [], 0, by decide, Nat.zero_le _,
      .here _⟩
  have hmade : upToDate.makeDirectory "x" = .ok passable :=
    henters.make_free (by decide +kernel) _
  have hthere : ∀ p ∈ waiting.reverse, Path.Ends p ∧ passable.isDirectory p = true := by
    decide +kernel
  rw [makeDirectories, hupward, onDisk_makeMissing_waiting hwait, onDisk_makeMissing_ok hmade]
  exact onDisk_makeEach_settled hthere

theorem settled_detour : passable.Settled detour.outputDir detourPlace := by
  have hpieces : Path.pieces detour.outputDir = ["x", "..", "y", "generated", "order"] := by
    decide +kernel
  have horigin : origin passable.current detour.outputDir = [] := by decide +kernel
  have hy : Fits "y" := ⟨by decide, by decide, by decide⟩
  have hg : Fits "generated" := ⟨by decide, by decide, by decide⟩
  have ho : Fits "order" := ⟨by decide, by decide, by decide⟩
  refine settled_iff.mpr ⟨by decide +kernel, 0, Nat.zero_le _, ?_⟩
  rw [hpieces, horigin]
  exact .down fits_detour (by decide +kernel) (.up (.down hy (by decide +kernel)
    (.down hg (by decide +kernel) (.down ho (by decide +kernel) (.here _)))))

theorem find?_detour (l : Layer) :
    passable.find? (detour.target detourPlace l) = some (detourFile l) := by
  have hother : ∀ l ∈ Layer.all, detour.target detourPlace l ≠ ["x"] := by decide +kernel
  refine (find?_put_other upToDate .directory (hother l l.mem_all)).trans ?_
  exact find?_putAll_mem (by decide +kernel) (List.mem_map_of_mem l.mem_all)
    (detour.target_ne_root detourPlace l)

theorem written_detour (l : Layer) : detour.Written .standard passable detourPlace l
    (detour.target detourPlace l, detourFile l) := by
  have htmp : passable.freeTemporary? detourPlace = some (temporaryName 0) := by decide +kernel
  have hfit : pathFault? (Path.join detour.outputDir (temporaryName 0)) = none ∧
      ¬(temporaryName 0).utf8ByteSize > longestName := by decide +kernel
  have hfits : ∀ l ∈ Layer.all, pathFault? (detour.filePath l) = none ∧
      ¬(l.fileName detour.name.text).utf8ByteSize > longestName := by decide +kernel
  obtain ⟨text, htext, hfile⟩ := text_detour l
  have hfound := find?_detour l
  refine ⟨rfl, ⟨text, _, htext, hfile⟩, ?_, hfound⟩
  rw [hfile] at hfound
  exact ready_of_bars settled_detour detour.endsInName_outputDir
    (l.isName_fileName detour.name) (hfits l l.mem_all) (bars_of_file hfound) htmp hfit

theorem generate_detour : ∃ files e,
    onDisk (detour.generateLayers .standard Layer.all) upToDate = (.ok files, e) ∧
      changedLayers files = [] := by
  have hwritten : List.Forall₂ (detour.Written .standard passable detourPlace) Layer.all
      (Layer.all.map (fun l => (detour.target detourPlace l, detourFile l))) := by
    rw [List.forall₂_map_right_iff, List.forall₂_same]
    exact fun l _ => written_detour l
  have hgenerate := generateEach_again hwritten
  exact ⟨_, _, (onDisk_generateEach_made onDisk_makeDirectories_detour
    settled_detour).mpr hgenerate, rfl⟩

/-- Behind a missing directory the comparison sees no file at all, while generating makes that
directory first and then finds every file up to date. -/
theorem check_misses_detour :
    upToDate.Sound ∧
    (ofOptions upToDate.currentPath orderName (inDirectory "x/../y")).Plain upToDate ∧
    ∃ checks t files u,
      ((ofOptions upToDate.currentPath orderName (inDirectory "x/../y")).check .standard).run.run
        (Scene.ofDisk upToDate) = (.ok checks, t) ∧
      ((ofOptions t.disk.currentPath orderName (inDirectory "x/../y")).generateLayers .standard
        Layer.all).run.run t = (.ok files, u) ∧
      (checks.filter FileCheck.isStale).map FileCheck.layer = Layer.all ∧
      changedLayers files = [] := by
  obtain ⟨checks, hchecks, hlayers, hnone⟩ := checkEach_absent (fun l (_ : l ∈ Layer.all) =>
    ⟨read_of_resolve_error (resolve_detour l true), (text_detour l).imp (fun _ h => h.1)⟩)
  obtain ⟨files, e, hgenerate, hchanged⟩ := generate_detour
  obtain ⟨t, ht, hsame⟩ := run_of_onDisk (s := Scene.ofDisk upToDate) hchecks
  rw [← hsame] at hgenerate
  obtain ⟨u, hu, _⟩ := run_of_onDisk hgenerate
  refine ⟨sound_of_entries (by decide +kernel), ?_, checks, t, files, u, ht, hu, ?_, hchanged⟩
  · intro l place entry hfound
    have hnot := resolve_detour l false
    rw [detour] at hnot
    cases hnot.symm.trans hfound
  · rw [← hlayers, List.filter_eq_self.mpr]
    intro c hc
    rw [FileCheck.isStale_iff, hnone c hc]
    exact fun h => nomatch h

end Detour

end Blueprint

end CrudLayers
