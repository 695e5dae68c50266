import CrudLayers.Generation.Generate
import CrudLayers.Proofs.Writing
import Mathlib.Data.List.Forall2

namespace CrudLayers

open Disk Write Attempt

theorem onDisk_noteAll (events : List Event) (d : Disk) : (noteAll events).onDisk d = ((), d) := by
  induction events generalizing d with
  | nil => rfl
  | cons event rest ih =>
    rw [noteAll, Program.onDisk_bind]
    exact ih d

namespace Blueprint

variable {b : Blueprint} {names : ModuleNames} {l : Layer} {d e : Disk} {place : Location}

section Steps

/-- Rendering touches no file. -/
theorem onDisk_render (b : Blueprint) (names : ModuleNames) (l : Layer) (d : Disk) :
    onDisk (b.render names l) d = ((b.text names l).mapError .text, d) := by
  rw [render, onDisk_bind_of_ok (onDisk_lift _), onDisk_noteAll]
  rfl

theorem text_of_isOk (h : (b.text names l).isOk = true) :
    b.text names l = .ok ((b.text names l).toOption.getD "") := by
  cases hb : b.text names l with
  | ok text => rfl
  | error fault =>
    rw [hb] at h
    cases h

theorem onDisk_generate {file : GeneratedFile} :
    onDisk (b.generate names l) d = (.ok file, e) ↔ ∃ text outcome, b.text names l = .ok text ∧
      onDisk (writeFile (b.filePath l) text) d = (.ok outcome, e) ∧
      file = ⟨l, b.filePath l, outcome⟩ := by
  constructor
  · intro h
    obtain ⟨text, m, hrender, hrest⟩ := ok_of_bind_ok h
    rw [onDisk_render, Prod.mk.injEq] at hrender
    obtain ⟨htext, rfl⟩ := hrender
    obtain ⟨outcome, m, hwrite, hlast⟩ := ok_of_bind_ok hrest
    cases hlast
    exact ⟨text, outcome, mapError_eq_ok htext, ok_of_adapt_ok hwrite, rfl⟩
  · rintro ⟨text, outcome, htext, hwrite, rfl⟩
    have hrender : onDisk (b.render names l) d = (.ok text, d) := by
      rw [onDisk_render, htext]
      rfl
    rw [generate, onDisk_bind_of_ok hrender, onDisk_bind_of_ok (onDisk_adapt_ok hwrite _)]
    rfl

theorem onDisk_checkLayer {check : FileCheck} :
    onDisk (b.checkLayer names l) d = (.ok check, e) ↔ e = d ∧ ∃ text current,
      b.text names l = .ok text ∧ onDisk (readExisting (b.filePath l)) d = (.ok current, d) ∧
      check = ⟨l, b.filePath l, current, text⟩ := by
  constructor
  · intro h
    obtain ⟨text, m, hrender, hrest⟩ := ok_of_bind_ok h
    rw [onDisk_render, Prod.mk.injEq] at hrender
    obtain ⟨htext, rfl⟩ := hrender
    obtain ⟨current, m, hadapt, hlast⟩ := ok_of_bind_ok hrest
    have hread := ok_of_adapt_ok hadapt
    obtain ⟨rfl, _⟩ := read_of_readExisting hread
    simp only at hlast
    split at hlast
    · cases hlast
      exact ⟨rfl, text, current, mapError_eq_ok htext, hread, rfl⟩
    · cases hlast
      exact ⟨rfl, text, current, mapError_eq_ok htext, hread, rfl⟩
  · rintro ⟨rfl, text, current, htext, hread, rfl⟩
    have hrender : onDisk (b.render names l) e = (.ok text, e) := by
      rw [onDisk_render, htext]
      rfl
    rw [checkLayer, onDisk_bind_of_ok hrender, onDisk_bind_of_ok (onDisk_adapt_ok hread _)]
    simp only
    split
    · rfl
    · rfl

theorem onDisk_generateEach_cons {rest : List Layer} {files : List GeneratedFile} :
    onDisk (b.generateEach names (l :: rest)) d = (.ok files, e) ↔ ∃ file m more,
      onDisk (b.generate names l) d = (.ok file, m) ∧
      onDisk (b.generateEach names rest) m = (.ok more, e) ∧ files = file :: more := by
  constructor
  · intro h
    obtain ⟨file, m, hfirst, hrest⟩ := ok_of_bind_ok h
    obtain ⟨more, m', hmore, hlast⟩ := ok_of_bind_ok hrest
    cases hlast
    exact ⟨file, m, more, hfirst, hmore, rfl⟩
  · rintro ⟨file, m, more, hfirst, hmore, rfl⟩
    rw [generateEach, onDisk_bind_of_ok hfirst, onDisk_bind_of_ok hmore]
    rfl

theorem onDisk_checkEach_cons {rest : List Layer} {checks : List FileCheck} :
    onDisk (b.checkEach names (l :: rest)) d = (.ok checks, e) ↔ ∃ check m more,
      onDisk (b.checkLayer names l) d = (.ok check, m) ∧
      onDisk (b.checkEach names rest) m = (.ok more, e) ∧ checks = check :: more := by
  constructor
  · intro h
    obtain ⟨check, m, hfirst, hrest⟩ := ok_of_bind_ok h
    obtain ⟨more, m', hmore, hlast⟩ := ok_of_bind_ok hrest
    cases hlast
    exact ⟨check, m, more, hfirst, hmore, rfl⟩
  · rintro ⟨check, m, more, hfirst, hmore, rfl⟩
    rw [checkEach, onDisk_bind_of_ok hfirst, onDisk_bind_of_ok hmore]
    rfl

end Steps

def target (b : Blueprint) (place : Location) (l : Layer) : Location :=
  place ++ [l.fileName b.name.text]

theorem target_ne_root (b : Blueprint) (place : Location) (l : Layer) : b.target place l ≠ [] := by
  simp [target]

theorem target_injective {k : Layer} (h : b.target place l = b.target place k) : l = k := by
  have hname : l.fileName b.name.text = k.fileName b.name.text := by simpa [target] using h
  exact Layer.fileName_injective hname

theorem fileName_ne_temporaryName (b : Blueprint) (l : Layer) (n : Nat) :
    l.fileName b.name.text ≠ temporaryName n := by
  obtain ⟨first, rest, ht, hl, _⟩ := b.name.shape
  intro he
  have hfirst : first = '.' := by
    have hc := congrArg (fun s : String => s.toList.head?) he
    simpa [Layer.fileName, temporaryName, ht] using hc
  rw [hfirst] at hl
  exact absurd hl (by decide)

/-- The file of a layer holds its text at a place where it can be written. -/
structure Written (b : Blueprint) (names : ModuleNames) (d : Disk) (place : Location) (l : Layer)
    (w : Location × Entry) : Prop where
  located : w.1 = b.target place l
  filled : ∃ text mode, b.text names l = .ok text ∧ w.2 = .file (Bytes.ofText text) mode
  ready : Ready d b.outputDir (l.fileName b.name.text) place
  found : d.find? w.1 = some w.2

theorem places_of_written {layers : List Layer} {writes : List (Location × Entry)}
    (h : List.Forall₂ (b.Written names d place) layers writes) :
    writes.map Prod.fst = layers.map (b.target place) := by
  induction h with
  | nil => rfl
  | cons hw _ ih => rw [List.map_cons, List.map_cons, hw.located, ih]

/-- In a directory that is there, generating a layer puts its text at its place. -/
theorem put_of_generate {file : GeneratedFile} (hs : d.Settled b.outputDir place)
    (h : onDisk (b.generate names l) d = (.ok file, e)) :
    ∃ text earlier mode, b.text names l = .ok text ∧
      Ready d b.outputDir (l.fileName b.name.text) place ∧
      onDisk (Write.readExisting (b.filePath l)) d = (.ok earlier, d) ∧
      file = ⟨l, b.filePath l, Write.status earlier text⟩ ∧
      e = d.put (b.target place l) (.file (Bytes.ofText text) mode) := by
  have he := b.endsInName_outputDir
  obtain ⟨text, outcome, htext, hwrite, hfile⟩ := onDisk_generate.mp h
  obtain ⟨m, place', earlier, hmake, hready, hread, hagain⟩ :=
    ready_of_writeFile he (l.isName_fileName b.name) hwrite
  rw [onDisk_makeDirectories hs he] at hmake
  cases hmake
  have hplace := hs.unique hready.settled
  subst hplace
  rw [hready.onDisk_writeFile he hread] at hagain
  cases hagain
  exact ⟨text, earlier, _, htext, hready, hread, hfile, rfl⟩

/-- Writing the layers of an entity into its directory puts one entry for each layer, and each of
them stays as it was put. -/
theorem writes_of_generateEach {layers : List Layer} {files : List GeneratedFile}
    (hs : d.Settled b.outputDir place) (hnodup : layers.Nodup)
    (h : onDisk (b.generateEach names layers) d = (.ok files, e)) :
    ∃ writes, e = d.putAll writes ∧ List.Forall₂ (b.Written names e place) layers writes ∧
      ∀ name, Ready d b.outputDir name place → Ready e b.outputDir name place := by
  induction layers generalizing d files with
  | nil =>
    cases h
    exact ⟨[], rfl, .nil, fun name hready => hready⟩
  | cons l rest ih =>
    obtain ⟨hl, hrest⟩ := List.nodup_cons.mp hnodup
    obtain ⟨file, m, more, hfirst, hmore, _⟩ := onDisk_generateEach_cons.mp h
    obtain ⟨text, earlier, mode, htext, hready, _, _, rfl⟩ := put_of_generate hs hfirst
    have hfile := b.fileName_ne_temporaryName l
    obtain ⟨writes, rfl, hall, hkeep⟩ := ih (hs.put hready.bars _) hrest hmore
    refine ⟨(b.target place l, _) :: writes, rfl,
      .cons ⟨rfl, ⟨text, _, htext, rfl⟩, ?_, ?_⟩ hall, ?_⟩
    · exact hkeep _ (hready.put hready.bars hfile _ _)
    · have hother : b.target place l ∉ writes.map Prod.fst := by
        rw [places_of_written hall]
        intro hmem
        obtain ⟨k, hk, heq⟩ := List.mem_map.mp hmem
        rw [target_injective heq] at hk
        exact hl hk
      exact (find?_putAll_other hother).trans (find?_put_self d _ (b.target_ne_root place l))
    · intro name hname
      exact hkeep name (hname.put hready.bars hfile _ _)

theorem onDisk_generateEach_made {m : Disk} {rest : List Layer} {files : List GeneratedFile}
    (hmake : (makeDirectories b.outputDir).onDisk d = (.ok (), m))
    (hs : m.Settled b.outputDir place) :
    onDisk (b.generateEach names (l :: rest)) d = (.ok files, e) ↔
      onDisk (b.generateEach names (l :: rest)) m = (.ok files, e) := by
  have hwrite := onDisk_writeFile_made b.endsInName_outputDir (l.isName_fileName b.name) hmake hs
  simp only [onDisk_generateEach_cons, onDisk_generate, filePath, hwrite]

/-- Generating some layers first makes their directory, and then goes on as if it had been there. -/
theorem settled_of_generateEach {rest : List Layer} {files : List GeneratedFile}
    (h : onDisk (b.generateEach names (l :: rest)) d = (.ok files, e)) :
    ∃ m place, (makeDirectories b.outputDir).onDisk d = (.ok (), m) ∧
      m.Settled b.outputDir place ∧
      onDisk (b.generateEach names (l :: rest)) m = (.ok files, e) := by
  obtain ⟨file, d', more, hfirst, _, _⟩ := onDisk_generateEach_cons.mp h
  obtain ⟨text, outcome, _, hwrite, _⟩ := onDisk_generate.mp hfirst
  obtain ⟨m, place, _, hmake, hready, _, _⟩ :=
    ready_of_writeFile b.endsInName_outputDir (l.isName_fileName b.name) hwrite
  exact ⟨m, place, hmake, hready.settled, (onDisk_generateEach_made hmake hready.settled).mp h⟩

/-- Putting what is found at a place keeps a written layer as it is. -/
theorem Written.put_again {k : Layer} {v w : Location × Entry} (h : b.Written names d place l w)
    (hv : b.Written names d place k v) : (d.put v.1 v.2).find? w.1 = some w.2 := by
  by_cases heq : w.1 = v.1
  · have hsome : some w.2 = some v.2 := by rw [← h.found, ← hv.found, heq]
    rw [hsome, heq]
    exact find?_put_self d v.2 (by rw [hv.located]; exact b.target_ne_root place k)
  · rw [find?_put_other d v.2 heq, h.found]

theorem Written.put {k : Layer} {v w : Location × Entry} (h : b.Written names d place l w)
    (hv : b.Written names d place k v) : b.Written names (d.put v.1 v.2) place l w := by
  refine ⟨h.located, h.filled, ?_, h.put_again hv⟩
  obtain ⟨text, mode, _, hfile⟩ := hv.filled
  rw [hfile, hv.located]
  exact h.ready.put hv.ready.bars (b.fileName_ne_temporaryName k) _ _

/-- At the place of a written layer there is a file with its text. -/
theorem Written.holds {w : Location × Entry} (h : b.Written names d place l w) :
    ∃ text mode, b.text names l = .ok text ∧ w.2 = .file (Bytes.ofText text) mode ∧
      d.find? (b.target place l) = some (.file (Bytes.ofText text) mode) := by
  obtain ⟨text, mode, htext, hfile⟩ := h.filled
  have hfound := h.found
  rw [h.located, hfile] at hfound
  exact ⟨text, mode, htext, hfile, hfound⟩

theorem Written.read {w : Location × Entry} (h : b.Written names d place l w) :
    ∃ text, b.text names l = .ok text ∧ d.read (b.filePath l) = .ok (Bytes.ofText text) := by
  obtain ⟨text, mode, htext, _, hfound⟩ := h.holds
  exact ⟨text, htext, h.ready.enters.read_file hfound⟩

/-- Generating a written layer again puts the same file over it. -/
theorem Written.generate {w : Location × Entry} (h : b.Written names d place l w) :
    onDisk (b.generate names l) d = (.ok ⟨l, b.filePath l, .unchanged⟩, d.put w.1 w.2) := by
  obtain ⟨text, mode, htext, hfile, hfound⟩ := h.holds
  have hread := onDisk_readExisting_text (h.ready.enters.read_file hfound)
  have hwrite := h.ready.onDisk_writeFile b.endsInName_outputDir hread text
  have hmode := h.ready.enters.mode?_file hfound
  rw [hmode, Option.getD_some, status, if_pos rfl] at hwrite
  refine onDisk_generate.mpr ⟨text, .unchanged, htext, ?_, rfl⟩
  rw [h.located, hfile]
  exact hwrite

theorem generateEach_again {layers : List Layer} {writes : List (Location × Entry)}
    (h : List.Forall₂ (b.Written names d place) layers writes) :
    onDisk (b.generateEach names layers) d =
      (.ok (layers.map (fun l => ⟨l, b.filePath l, .unchanged⟩)), d.putAll writes) := by
  induction layers generalizing d writes with
  | nil =>
    cases h
    rfl
  | cons l rest ih =>
    cases h with
    | cons hw hrest =>
      have hnext := hrest.imp (fun _ _ hv => hv.put hw)
      exact onDisk_generateEach_cons.mpr ⟨_, _, _, hw.generate, ih hnext, rfl⟩

/-- No written layer is found stale. -/
theorem checkEach_written {layers : List Layer} {writes : List (Location × Entry)}
    (h : List.Forall₂ (b.Written names d place) layers writes) :
    ∃ checks, onDisk (b.checkEach names layers) d = (.ok checks, d) ∧
      checks.map FileCheck.layer = layers ∧ ∀ c ∈ checks, c.isStale = false := by
  induction h with
  | nil => exact ⟨[], rfl, rfl, fun c hc => nomatch hc⟩
  | @cons l w rest writes hw _ ih =>
    obtain ⟨checks, hchecks, hlayers, hfresh⟩ := ih
    obtain ⟨text, htext, hread⟩ := hw.read
    have hcheck := onDisk_checkLayer.mpr
      ⟨rfl, text, some text, htext, onDisk_readExisting_text hread, rfl⟩
    refine ⟨_, onDisk_checkEach_cons.mpr ⟨_, _, _, hcheck, hchecks, rfl⟩, ?_, ?_⟩
    · rw [List.map_cons, hlayers]
    · intro c hc
      rcases List.mem_cons.mp hc with rfl | hmem
      · simp [FileCheck.isStale]
      · exact hfresh c hmem

/-- Layers whose files are not there yet are created, if there is a text for each of them. -/
theorem generateEach_created {layers : List Layer} (hnodup : layers.Nodup)
    (h : ∀ l ∈ layers, Ready d b.outputDir (l.fileName b.name.text) place ∧
      d.find? (b.target place l) = none ∧ ∃ text, b.text names l = .ok text) :
    ∃ e, onDisk (b.generateEach names layers) d =
      (.ok (layers.map (fun l => ⟨l, b.filePath l, .created⟩)), e) := by
  induction layers generalizing d with
  | nil => exact ⟨d, rfl⟩
  | cons l rest ih =>
    obtain ⟨hl, hrest⟩ := List.nodup_cons.mp hnodup
    obtain ⟨hready, hfree, text, htext⟩ := h l List.mem_cons_self
    have hread := onDisk_readExisting_none (hready.enters.read_none hfree)
    have hwrite := hready.onDisk_writeFile b.endsInName_outputDir hread text
    generalize (d.mode? (Path.join b.outputDir (l.fileName b.name.text))).getD
      Entry.defaultMode = mode at hwrite
    have hfirst := onDisk_generate.mpr ⟨text, .created, htext, hwrite, rfl⟩
    let next := d.put (b.target place l) (.file (Bytes.ofText text) mode)
    have hnext : ∀ k ∈ rest, Ready next b.outputDir (k.fileName b.name.text) place ∧
        next.find? (b.target place k) = none ∧ ∃ text, b.text names k = .ok text := by
      intro k hk
      obtain ⟨hready', hfree', htext'⟩ := h k (List.mem_cons_of_mem _ hk)
      have hother : b.target place k ≠ b.target place l := by
        intro heq
        rw [target_injective heq] at hk
        exact hl hk
      refine ⟨hready'.put hready.bars (b.fileName_ne_temporaryName l) _ _, ?_, htext'⟩
      exact (find?_put_other d _ hother).trans hfree'
    obtain ⟨e, hmore⟩ := ih hrest hnext
    exact ⟨e, onDisk_generateEach_cons.mpr ⟨_, _, _, hfirst, hmore, rfl⟩⟩

/-- Whatever the disk holds: once all layers of an entity have been generated, none of them is found
stale, and generating them again reports each as unchanged and leaves the disk as it was. -/
theorem regeneration_unchanged (n : EntityName) (o : Options) (names : ModuleNames)
    (s s' : Scene) (files : List GeneratedFile)
    (h : ((ofOptions s.disk.currentPath n o).generateLayers names Layer.all).run.run s =
      (.ok files, s')) :
    (∃ checks t, ((ofOptions s'.disk.currentPath n o).check names).run.run s' = (.ok checks, t) ∧
      t.disk = s'.disk ∧ checks.map FileCheck.layer = Layer.all ∧
      ∀ c ∈ checks, c.isStale = false) ∧
    ∃ again t, ((ofOptions s'.disk.currentPath n o).generateLayers names Layer.all).run.run s' =
      (.ok again, t) ∧ t.disk = s'.disk ∧ again.map GeneratedFile.layer = Layer.all ∧
      ∀ f ∈ again, f.status = .unchanged := by
  have hrun := onDisk_of_run h
  have hcurrent : s'.disk.currentPath = s.disk.currentPath := by
    rw [currentPath, currentPath, current_of_onDisk hrun]
  rw [hcurrent]
  obtain ⟨m, place, _, hsettled, hlayers⟩ := settled_of_generateEach hrun
  obtain ⟨writes, hdisk, hall, _⟩ := writes_of_generateEach hsettled (by decide) hlayers
  have hnodup : (writes.map Prod.fst).Nodup := by
    rw [places_of_written hall]
    exact List.Nodup.map (fun _ _ heq => target_injective heq) (by decide)
  constructor
  · obtain ⟨checks, hchecks, hlayer, hfresh⟩ := checkEach_written hall
    obtain ⟨t, ht, hsame⟩ := run_of_onDisk hchecks
    exact ⟨checks, t, ht, hsame, hlayer, hfresh⟩
  · obtain ⟨t, ht, hsame⟩ := run_of_onDisk (generateEach_again hall)
    refine ⟨_, t, ht, ?_, rfl, ?_⟩
    · rw [hsame, hdisk, putAll_again m hnodup]
    · intro f hf
      obtain ⟨l, _, rfl⟩ := List.mem_map.mp hf
      rfl

section Order

def orderName : EntityName :=
  ⟨"order", by decide⟩

def inDirectory (base : String) : Options :=
  ⟨some base, [], none, none⟩

def emptyOutput : Disk :=
  Disk.start ["generated", "order"]

def rootOrder : Blueprint :=
  ofOptions emptyOutput.currentPath orderName (inDirectory "/")

theorem settled_emptyOutput : emptyOutput.Settled rootOrder.outputDir ["generated", "order"] := by
  have hg : Fits "generated" := ⟨by decide, by decide, by decide⟩
  have ho : Fits "order" := ⟨by decide, by decide, by decide⟩
  have hpieces : Path.pieces rootOrder.outputDir = ["", "generated", "order"] := by decide +kernel
  have horigin : origin emptyOutput.current rootOrder.outputDir = [] := by decide +kernel
  refine settled_iff.mpr ⟨by decide +kernel, 0, Nat.zero_le _, ?_⟩
  rw [hpieces, horigin]
  exact .stay (Or.inl rfl) (.down hg (by decide +kernel) (.down ho (by decide +kernel) (.here _)))

theorem free_emptyOutput (l : Layer) :
    emptyOutput.find? (rootOrder.target ["generated", "order"] l) = none := by
  have hall : ∀ l ∈ Layer.all,
      emptyOutput.find? (rootOrder.target ["generated", "order"] l) = none := by decide +kernel
  exact hall l l.mem_all

theorem ready_emptyOutput (l : Layer) : Ready emptyOutput rootOrder.outputDir
    (l.fileName rootOrder.name.text) ["generated", "order"] := by
  have htmp : emptyOutput.freeTemporary? ["generated", "order"] = some (temporaryName 0) := by
    decide +kernel
  have hfit : pathFault? (Path.join rootOrder.outputDir (temporaryName 0)) = none ∧
      ¬(temporaryName 0).utf8ByteSize > longestName := by decide +kernel
  have hfits : ∀ l ∈ Layer.all, pathFault? (rootOrder.filePath l) = none ∧
      ¬(l.fileName rootOrder.name.text).utf8ByteSize > longestName := by decide +kernel
  exact ready_of_bars settled_emptyOutput rootOrder.endsInName_outputDir
    (l.isName_fileName rootOrder.name) (hfits l l.mem_all) (bars_of_none (free_emptyOutput l))
    htmp hfit

theorem text_rootOrder (l : Layer) : ∃ text, rootOrder.text .standard l = .ok text := by
  have hall : ∀ l ∈ Layer.all, (rootOrder.text .standard l).isOk = true := by decide +kernel
  exact ⟨_, text_of_isOk (hall l l.mem_all)⟩

theorem generate_emptyOutput : ∃ files e,
    onDisk (rootOrder.generateLayers .standard Layer.all) emptyOutput = (.ok files, e) := by
  obtain ⟨e, hrun⟩ := generateEach_created (show Layer.all.Nodup by decide)
    (fun l _ => ⟨ready_emptyOutput l, free_emptyOutput l, text_rootOrder l⟩)
  exact ⟨_, e, hrun⟩

theorem regeneration_unchanged_order : ∃ files s' again t,
    (rootOrder.generateLayers .standard Layer.all).run.run (Scene.ofDisk emptyOutput) =
      (.ok files, s') ∧
    ((ofOptions s'.disk.currentPath orderName (inDirectory "/")).generateLayers .standard
      Layer.all).run.run s' = (.ok again, t) ∧ t.disk = s'.disk := by
  obtain ⟨files, e, hrun⟩ := generate_emptyOutput
  obtain ⟨s', hs', _⟩ := run_of_onDisk (s := Scene.ofDisk emptyOutput) hrun
  obtain ⟨again, t, ht, hsame, _⟩ := (regeneration_unchanged orderName (inDirectory "/") .standard
    (Scene.ofDisk emptyOutput) s' files hs').2
  exact ⟨files, s', again, t, hs', ht, hsame⟩

end Order

end Blueprint

end CrudLayers
