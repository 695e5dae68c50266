import CrudLayers.Proofs.Dependence
import CrudLayers.Proofs.Enlarging
import CrudLayers.Proofs.FilePaths
import CrudLayers.Proofs.Regeneration

namespace CrudLayers

open Disk Write Attempt

namespace Write

/-- What a text is written as over what stands at a place: a file keeps its mode. -/
def entryOver (old : Option Entry) (text : String) : Entry :=
  match old with
  | some (.file _ mode) => .file (Bytes.ofText text) mode
  | _ => .file (Bytes.ofText text) Entry.defaultMode

def statusOver (old : Option Entry) (text : String) : WriteStatus :=
  match old with
  | some (.file bytes _) => if bytes = Bytes.ofText text then .unchanged else .updated
  | _ => .created

variable {d e : Disk} {directory name : String} {place : Location} {earlier : Option String}

/-- Where there is no link, writing a file depends on nothing but what stands at its place. -/
theorem Ready.onDisk_writeFile_over (h : Ready d directory name place)
    (he : Path.EndsInName directory)
    (hr : onDisk (readExisting (Path.join directory name)) d = (.ok earlier, d))
    (hlink : ∀ target, d.find? (place ++ [name]) ≠ some (.link target)) (text : String) :
    onDisk (writeFile (Path.join directory name) text) d =
      (.ok (statusOver (d.find? (place ++ [name])) text),
        d.put (place ++ [name]) (entryOver (d.find? (place ++ [name])) text)) := by
  rw [h.onDisk_writeFile he hr]
  obtain ⟨_, houtcome⟩ := read_of_readExisting hr
  cases hfind : d.find? (place ++ [name]) with
  | none =>
    have hmode : d.mode? (Path.join directory name) = none := by
      rw [mode?, stat, h.enters.resolve_none true hfind]
      rfl
    rcases houtcome with ⟨_, rfl⟩ | ⟨t, hread, _⟩
    · rw [hmode]
      rfl
    · rw [h.enters.read_none hfind] at hread
      cases hread
  | some entry =>
    cases entry with
    | directory => exact absurd hfind h.bars.1
    | link target => exact absurd hfind (hlink target)
    | file bytes mode =>
      have hbytes := h.enters.read_file hfind
      rcases houtcome with ⟨hnone, _⟩ | ⟨t, hread, rfl⟩
      · rw [hbytes] at hnone
        cases hnone
      · rw [hbytes] at hread
        cases hread
        rw [h.enters.mode?_file hfind]
        simp only [status, statusOver, entryOver, Option.getD_some, ofText_inj]

end Write

namespace Blueprint

variable {b : Blueprint} {names : ModuleNames} {l : Layer} {d e : Disk} {place : Location}

def fileText (b : Blueprint) (names : ModuleNames) (l : Layer) : String :=
  (b.text names l).toOption.getD ""

theorem text_eq_fileText (b : Blueprint) (names : ModuleNames) (l : Layer) :
    b.text names l = .ok (b.fileText names l) := by
  obtain ⟨text, htext⟩ := b.exists_text names l
  rw [fileText, htext]
  rfl

def fileEntry (b : Blueprint) (names : ModuleNames) (d : Disk) (place : Location) (l : Layer) :
    Entry :=
  entryOver (d.find? (b.target place l)) (b.fileText names l)

def fileReport (b : Blueprint) (names : ModuleNames) (d : Disk) (place : Location) (l : Layer) :
    GeneratedFile :=
  ⟨l, b.filePath l, statusOver (d.find? (b.target place l)) (b.fileText names l)⟩

theorem fileEntry_congr (h : e.find? (b.target place l) = d.find? (b.target place l)) :
    b.fileEntry names e place l = b.fileEntry names d place l := by
  rw [fileEntry, fileEntry, h]

theorem fileReport_congr (h : e.find? (b.target place l) = d.find? (b.target place l)) :
    b.fileReport names e place l = b.fileReport names d place l := by
  rw [fileReport, fileReport, h]

theorem put_of_generate_over {file : GeneratedFile} (hs : d.Settled b.outputDir place)
    (hlink : ∀ target, d.find? (b.target place l) ≠ some (.link target))
    (h : onDisk (b.generate names l) d = (.ok file, e)) :
    file = b.fileReport names d place l ∧
      e = d.put (b.target place l) (b.fileEntry names d place l) ∧
      d.Bars (b.target place l) := by
  obtain ⟨text, earlier, _, htext, hready, hread, _, _⟩ := put_of_generate hs h
  have hwrite := hready.onDisk_writeFile_over b.endsInName_outputDir hread hlink
    (b.fileText names l)
  rw [onDisk_generate.mpr ⟨_, _, b.text_eq_fileText names l, hwrite, rfl⟩] at h
  cases h
  exact ⟨rfl, rfl, hready.bars⟩

/-- In its directory, generating the layers of an entity is growth, and leads no walk astray. -/
theorem grows_of_generateEach {layers : List Layer} {files : List GeneratedFile}
    (hs : d.Settled b.outputDir place)
    (h : onDisk (b.generateEach names layers) d = (.ok files, e)) : Grows d e ∧ Carries d e := by
  induction layers generalizing d files with
  | nil =>
    cases h
    exact ⟨.refl _, .refl _⟩
  | cons l rest ih =>
    obtain ⟨file, m, more, hfirst, hmore, _⟩ := onDisk_generateEach_cons.mp h
    obtain ⟨text, _, mode, _, hready, _, _, rfl⟩ := put_of_generate hs hfirst
    obtain ⟨hgrows, hcarries⟩ := ih (hs.put hready.bars _) hmore
    exact ⟨(grows_put_file (b.target_ne_root place l) hready.bars.1 _ mode).trans hgrows,
      (hready.bars.carries _).trans hcarries⟩

/-- Where there are no links, each layer is put at its place, in view of what stood there before. -/
theorem putAll_of_generateEach {layers : List Layer} {files : List GeneratedFile}
    (hs : d.Settled b.outputDir place) (hnodup : layers.Nodup)
    (hlinks : ∀ l ∈ layers, ∀ target, d.find? (b.target place l) ≠ some (.link target))
    (h : onDisk (b.generateEach names layers) d = (.ok files, e)) :
    files = layers.map (b.fileReport names d place) ∧
      e = d.putAll (layers.map (fun l => (b.target place l, b.fileEntry names d place l))) ∧
      ∀ l ∈ layers, d.find? (b.target place l) ≠ some .directory := by
  induction layers generalizing d files with
  | nil =>
    cases h
    exact ⟨rfl, rfl, by simp⟩
  | cons l rest ih =>
    obtain ⟨hl, hrest⟩ := List.nodup_cons.mp hnodup
    obtain ⟨hlink, hlinks'⟩ := List.forall_mem_cons.mp hlinks
    obtain ⟨file, m, more, hfirst, hmore, rfl⟩ := onDisk_generateEach_cons.mp h
    obtain ⟨rfl, rfl, hbars⟩ := put_of_generate_over hs hlink hfirst
    -- The other layers find at their places what stood there before.
    have hsame : ∀ k ∈ rest, (d.put (b.target place l)
        (b.fileEntry names d place l)).find? (b.target place k) = d.find? (b.target place k) := by
      intro k hk
      apply find?_put_other
      intro heq
      rw [target_injective heq] at hk
      exact hl hk
    obtain ⟨rfl, rfl, hdirs⟩ := ih (hs.put hbars _) hrest
      (fun k hk => by rw [hsame k hk]; exact hlinks' k hk) hmore
    refine ⟨?_, ?_, List.forall_mem_cons.mpr ⟨hbars.1, ?_⟩⟩
    · rw [List.map_cons]
      congr 1
      exact List.map_congr_left (fun k hk => fileReport_congr (hsame k hk))
    · rw [List.map_cons, putAll_cons]
      congr 1
      refine List.map_congr_left (fun k hk => ?_)
      rw [fileEntry_congr (hsame k hk)]
    · intro k hk
      rw [← hsame k hk]
      exact hdirs k hk

/-- What a run that generates an entity leaves on the disk: its own files, in view of what stood at
their places, and directories that its path leads through. -/
structure Leaves (b : Blueprint) (names : ModuleNames) (d e : Disk) (place : Location)
    (files : List GeneratedFile) : Prop where
  settled : e.Settled b.outputDir place
  grows : Grows d e
  carries : Carries d e
  reported : files = Layer.all.map (b.fileReport names d place)
  free : ∀ l, d.find? (b.target place l) ≠ some .directory
  written : ∀ l, e.find? (b.target place l) = some (b.fileEntry names d place l)
  other : ∀ x, (∀ l, x ≠ b.target place l) →
    e.find? x = d.find? x ∨ d.find? x = none ∧ e.find? x = some .directory ∧
      e.Through b.outputDir x

theorem grows_of_generate {files : List GeneratedFile}
    (h : onDisk (b.generateLayers names Layer.all) d = (.ok files, e)) :
    Grows d e ∧ ∃ m place, Enlarged b.outputDir d m ∧ m.Settled b.outputDir place ∧
      onDisk (b.generateEach names Layer.all) m = (.ok files, e) := by
  obtain ⟨m, place, hmake, hsettled, hlayers⟩ := settled_of_generateEach h
  have henlarged := enlarged_of_makeDirectories b.endsInName_outputDir.ends hmake
  exact ⟨henlarged.grows.trans (grows_of_generateEach hsettled hlayers).1, m, place, henlarged,
    hsettled, hlayers⟩

/-- A run under whose directory there are no links leaves its own files and directories. -/
theorem leaves_of_generate {files : List GeneratedFile}
    (h : onDisk (b.generateLayers names Layer.all) d = (.ok files, e))
    (hlinks : ∀ place, e.Settled b.outputDir place →
      ∀ l target, d.find? (b.target place l) ≠ some (.link target)) :
    ∃ place, b.Leaves names d e place files := by
  obtain ⟨hgrows, m, place, henlarged, hsettled, hlayers⟩ := grows_of_generate h
  obtain ⟨_, hcarries⟩ := grows_of_generateEach hsettled hlayers
  have hplace := hcarries.settled hsettled
  have hlinks' : ∀ l ∈ Layer.all, ∀ target, m.find? (b.target place l) ≠ some (.link target) := by
    intro l _ target hlink
    exact hlinks place hplace l target (henlarged.grows.link hlink)
  obtain ⟨hreported, hputs, hdirs⟩ :=
    putAll_of_generateEach hsettled (by decide) hlinks' hlayers
  -- At the places of the files, the disk is still as it was when they are written.
  have hsame : ∀ l, m.find? (b.target place l) = d.find? (b.target place l) := by
    intro l
    rcases henlarged.find?_eq_or (b.target place l) with hsame | ⟨_, hdir, _⟩
    · exact hsame
    · exact absurd hdir (hdirs l l.mem_all)
  have hplaces : (Layer.all.map (fun l => (b.target place l, b.fileEntry names m place l))).map
      Prod.fst = Layer.all.map (b.target place) := by
    rw [List.map_map]
    rfl
  have hnodup : (Layer.all.map (b.target place)).Nodup :=
    List.Nodup.map (fun _ _ heq => target_injective heq) (by decide)
  refine ⟨place, hplace, hgrows, ?_, ?_, ?_, ?_, ?_⟩
  · exact (henlarged.keeps.carries henlarged.current).trans hcarries
  · rw [hreported]
    exact List.map_congr_left (fun l _ => fileReport_congr (hsame l))
  · intro l
    rw [← hsame l]
    exact hdirs l l.mem_all
  · intro l
    rw [hputs, ← fileEntry_congr (hsame l)]
    have hmem : (b.target place l, b.fileEntry names m place l) ∈
        Layer.all.map (fun l => (b.target place l, b.fileEntry names m place l)) :=
      List.mem_map_of_mem l.mem_all
    exact find?_putAll_mem (by rwa [hplaces]) hmem (b.target_ne_root place l)
  · intro x hx
    have hother : e.find? x = m.find? x := by
      rw [hputs]
      apply find?_putAll_other
      rw [hplaces]
      intro hmem
      obtain ⟨l, _, heq⟩ := List.mem_map.mp hmem
      exact hx l heq.symm
    rcases henlarged.find?_eq_or x with hsame | ⟨hfree, hdir, hthrough⟩
    · exact Or.inl (hother.trans hsame)
    · exact Or.inr ⟨hfree, hother.trans hdir, hcarries.through hthrough⟩

section Places

variable {base : Location} {f : Disk}

def Unlinked (d : Disk) (l : Location) : Prop :=
  ∀ below target, d.find? (l ++ below) ≠ some (.link target)

theorem Unlinked.of_grows (h : Unlinked d base) (hg : Grows d e) : Unlinked e base :=
  fun below target hlink => h below target (hg.link hlink)

/-- The path of an output directory leads through the base directory. -/
theorem base_of_settled (h : d.Settled b.outputDir place) :
    ∃ base links, d.Leads b.baseDir (Path.components b.baseDir) base ∧
      d.Reaches base [generatedDir, b.name.text] links place := by
  have hall := (settled_iff_leads.mp h).2
  rw [components_outputDir, List.append_assoc] at hall
  obtain ⟨base, links, hbase, hrest⟩ := hall.split
  refine ⟨base, links, (leads_congr ?_).mp hbase, hrest⟩
  rw [outputDir, Path.isAbsolute_join b.name.isName, Path.isAbsolute_join isName_generatedDir]

theorem Unlinked.reaches_cons {piece : String} {rest : List String} {links : Nat}
    (h : Unlinked d base) (hn : Path.IsName piece)
    (hr : d.Reaches base (piece :: rest) links place) :
    Unlinked d (base ++ [piece]) ∧ d.Reaches (base ++ [piece]) rest links place := by
  cases hr with
  | stay filler _ => exact absurd filler hn.not_filler
  | up _ => exact absurd rfl hn.no_parent
  | follow _ found _ => exact absurd found (h [piece] _)
  | down _ _ tail =>
    refine ⟨fun below target => ?_, tail⟩
    rw [List.append_assoc]
    exact h ([piece] ++ below) target

/-- Where there are no links, the output directory stands below the base directory. -/
theorem place_of_settled (he : Grows d e) (hf : Grows d f)
    (hbase : f.Leads b.baseDir (Path.components b.baseDir) base) (hno : Unlinked d base)
    (h : e.Settled b.outputDir place) : place = base ++ [generatedDir] ++ [b.name.text] := by
  obtain ⟨base', links, hbase', hr⟩ := base_of_settled h
  obtain rfl := he.leads_eq hf hbase' hbase
  obtain ⟨hno', hr'⟩ := (hno.of_grows he).reaches_cons isName_generatedDir hr
  obtain ⟨_, hr''⟩ := hno'.reaches_cons b.name.isName hr'
  cases hr''
  rfl

/-- A run leaves its files below the base directory. -/
theorem leaves_below {first : Disk} {files : List GeneratedFile} (hd : Grows first d)
    (hf : Grows first f) (hbase : f.Leads b.baseDir (Path.components b.baseDir) base)
    (hno : Unlinked first base)
    (h : onDisk (b.generateLayers names Layer.all) d = (.ok files, e)) :
    b.Leaves names d e (base ++ [generatedDir] ++ [b.name.text]) files := by
  have hgrows := hd.trans (grows_of_generate h).1
  have hlinks : ∀ place, e.Settled b.outputDir place →
      ∀ l target, d.find? (b.target place l) ≠ some (.link target) := by
    intro place hplace l target hlink
    rw [place_of_settled hgrows hf hbase hno hplace, Blueprint.target] at hlink
    refine (hno.of_grows hd) [generatedDir, b.name.text, l.fileName b.name.text] target ?_
    simpa using hlink
  obtain ⟨place, hleaves⟩ := leaves_of_generate h hlinks
  rwa [place_of_settled hgrows hf hbase hno hleaves.settled] at hleaves

end Places

section TwoEntities

variable {a : Blueprint} {d₁ d₂ d₃ d₄ : Disk} {there : Location}
  {filesA filesB filesA' filesB' : List GeneratedFile}

theorem target_ne (hne : a.name ≠ b.name) (here there : Location) (l k : Layer) :
    a.target here l ≠ b.target there k := by
  intro heq
  have hname : l.fileName a.name.text = k.fileName b.name.text := by
    simpa using (List.append_inj' heq rfl).2
  exact hne (Layer.fileName_inj hname).2

/-- What is there is left alone by a run whose file it is not. -/
theorem Leaves.kept {files : List GeneratedFile} {x : Location} (h : b.Leaves names d e place files)
    (hx : ∀ l, x ≠ b.target place l) (hthere : d.find? x ≠ none) : e.find? x = d.find? x := by
  rcases h.other x hx with hsame | ⟨hfree, _⟩
  · exact hsame
  · exact absurd hfree hthere

/-- So is everything that is no directory afterwards. -/
theorem Leaves.kept_of_free {files : List GeneratedFile} {x : Location}
    (h : b.Leaves names d e place files) (hx : ∀ l, x ≠ b.target place l)
    (hdir : e.find? x ≠ some .directory) : e.find? x = d.find? x := by
  rcases h.other x hx with hsame | ⟨_, hmade, _⟩
  · exact hsame
  · exact absurd hmade hdir

/-- What another run leaves before an entity is generated is, at the places of its files, what was
there. -/
theorem Leaves.before (hne : a.name ≠ b.name) (hb : b.Leaves names d d₁ there filesB)
    (ha : a.Leaves names d₁ d₂ place filesA) (l : Layer) :
    d₁.find? (a.target place l) = d.find? (a.target place l) :=
  hb.kept_of_free (target_ne hne place there l) (ha.free l)

/-- What another run leaves after an entity has been generated is, at the places of its files, what
it generated. -/
theorem Leaves.after (hne : a.name ≠ b.name) (ha : a.Leaves names d d₁ place filesA)
    (hb : b.Leaves names d₁ d₂ there filesB) (l : Layer) :
    d₂.find? (a.target place l) = d₁.find? (a.target place l) := by
  refine hb.kept (target_ne hne place there l) ?_
  rw [ha.written l]
  exact Option.some_ne_none _

/-- The reports about an entity do not depend on whether another one was generated before. -/
theorem Leaves.reports_eq (hne : a.name ≠ b.name) (ha : a.Leaves names d d₁ place filesA)
    (hb : b.Leaves names d d₃ there filesB) (ha' : a.Leaves names d₃ d₄ place filesA') :
    filesA = filesA' := by
  rw [ha.reported, ha'.reported]
  refine List.map_congr_left (fun l _ => ?_)
  rw [fileReport_congr (hb.before hne ha' l)]

/-- A directory that two runs make is made when they come in the other order, too. -/
theorem Leaves.directory_found {x : Location} (ha : a.Leaves names d d₁ place filesA)
    (hb : b.Leaves names d₁ d₂ there filesB) (hb' : b.Leaves names d d₃ there filesB')
    (ha' : a.Leaves names d₃ d₄ place filesA') (hxa : ∀ l, x ≠ a.target place l)
    (hxb : ∀ l, x ≠ b.target there l) (hfree : d.find? x = none) (hthere : d₂.find? x ≠ none) :
    d₂.find? x = some .directory ∧ d₄.find? x = some .directory := by
  have hlast := hb'.grows.trans ha'.grows
  by_cases hfirst : d₁.find? x = none
  · rcases hb.other x hxb with hsame | ⟨_, hdir, hthrough⟩
    · exact absurd (hsame.trans hfirst) hthere
    · have hfound := hthrough.found (ha.grows.trans hb.grows) hb'.grows hb'.settled hfree
      refine ⟨hdir, ?_⟩
      rw [ha'.kept hxa (by rw [hfound]; exact Option.some_ne_none _), hfound]
  · rcases ha.other x hxa with hsame | ⟨_, hdir, hthrough⟩
    · exact absurd (hsame.trans hfree) hfirst
    · refine ⟨?_, hthrough.found ha.grows hlast ha'.settled hfree⟩
      rw [hb.kept hxb hfirst, hdir]

/-- Two entities leave the same on the disk in either order. -/
theorem Leaves.same_found (hne : a.name ≠ b.name) (ha : a.Leaves names d d₁ place filesA)
    (hb : b.Leaves names d₁ d₂ there filesB) (hb' : b.Leaves names d d₃ there filesB')
    (ha' : a.Leaves names d₃ d₄ place filesA') (x : Location) : d₂.find? x = d₄.find? x := by
  by_cases hxa : ∃ l, x = a.target place l
  · obtain ⟨l, rfl⟩ := hxa
    rw [ha.after hne hb l, ha.written, ha'.written, fileEntry_congr (hb'.before hne ha' l)]
  by_cases hxb : ∃ l, x = b.target there l
  · obtain ⟨l, rfl⟩ := hxb
    rw [hb'.after hne.symm ha' l, hb.written, hb'.written,
      fileEntry_congr (ha.before hne.symm hb l)]
  push Not at hxa hxb
  by_cases hfree : d.find? x = none
  · -- Nothing was there, so that only a directory can be there now.
    by_cases hthere : d₂.find? x = none
    · by_cases hthere' : d₄.find? x = none
      · rw [hthere, hthere']
      · obtain ⟨hdir, hdir'⟩ := hb'.directory_found ha' ha hb hxb hxa hfree hthere'
        rw [hdir, hdir']
    · obtain ⟨hdir, hdir'⟩ := ha.directory_found hb hb' ha' hxa hxb hfree hthere
      rw [hdir, hdir']
  · have h₁ := ha.kept hxa hfree
    have h₃ := hb'.kept hxb hfree
    rw [hb.kept hxb (by rwa [h₁]), h₁, ha'.kept hxa (by rwa [h₃]), h₃]

end TwoEntities

theorem settled_of_generate {files : List GeneratedFile}
    (h : onDisk (b.generateLayers names Layer.all) d = (.ok files, e)) :
    ∃ place, e.Settled b.outputDir place := by
  obtain ⟨_, m, place, _, hsettled, hlayers⟩ := grows_of_generate h
  exact ⟨place, (grows_of_generateEach hsettled hlayers).2.settled hsettled⟩

/-- Entities under one base directory do not interfere, whatever text that directory is and whatever
the disk holds, as long as there are no links under it. A path belongs to one layer of one entity,
it lies in the entity's directory, and it is not the path of a directory on the way to another's
files. Two entities can be generated in either order: each file is reported with the same status,
the disk is the same afterwards, and what stands at the places of one entity's files is left alone
when the other is generated, before it or after it. -/
theorem entities_apart (a b : Blueprint) (names : ModuleNames) (hbase : a.baseDir = b.baseDir) :
    (∀ l k, a.filePath l = b.filePath k → a.name = b.name ∧ l = k) ∧
    (∀ l, Path.parent? (a.filePath l) = some a.outputDir) ∧
    (∀ l, ∀ directory ∈ Path.upward b.outputDir,
      Path.components (a.filePath l) ≠ Path.components directory) ∧
    ∀ (s s₁ s₂ s₃ s₄ : Scene) (filesA filesB filesA' filesB' : List GeneratedFile),
      a.name ≠ b.name →
      (a.generateLayers names Layer.all).run.run s = (.ok filesA, s₁) →
      (b.generateLayers names Layer.all).run.run s₁ = (.ok filesB, s₂) →
      (b.generateLayers names Layer.all).run.run s = (.ok filesB', s₃) →
      (a.generateLayers names Layer.all).run.run s₃ = (.ok filesA', s₄) →
      (∀ base, s₂.disk.Leads a.baseDir (Path.components a.baseDir) base → Unlinked s.disk base) →
      filesA = filesA' ∧ filesB = filesB' ∧ s₂.disk.current = s₄.disk.current ∧
      (∀ x, s₂.disk.find? x = s₄.disk.find? x) ∧
      ∃ place, s₂.disk.Settled a.outputDir place ∧ ∀ l,
        s₃.disk.find? (a.target place l) = s.disk.find? (a.target place l) ∧
        s₂.disk.find? (a.target place l) = s₁.disk.find? (a.target place l) := by
  refine ⟨fun l k => filePath_inj, a.parent?_filePath,
    fun l directory => components_ne_of_mem_upward hbase, ?_⟩
  intro s s₁ s₂ s₃ s₄ filesA filesB filesA' filesB' hne h₁ h₂ h₃ h₄ hlinks
  have ha := onDisk_of_run h₁
  have hb := onDisk_of_run h₂
  have hb' := onDisk_of_run h₃
  have ha' := onDisk_of_run h₄
  have hg₁ := (grows_of_generate ha).1
  have hg₂ := hg₁.trans (grows_of_generate hb).1
  have hg₃ := (grows_of_generate hb').1
  obtain ⟨_, hsettled⟩ := settled_of_generate hb
  obtain ⟨base, _, hleads, _⟩ := base_of_settled hsettled
  have hleadsA : s₂.disk.Leads a.baseDir (Path.components a.baseDir) base := by
    rwa [hbase]
  have hno := hlinks base hleadsA
  have hA := leaves_below (.refl _) hg₂ hleadsA hno ha
  have hB := leaves_below hg₁ hg₂ hleads hno hb
  have hB' := leaves_below (.refl _) hg₂ hleads hno hb'
  have hA' := leaves_below hg₃ hg₂ hleadsA hno ha'
  refine ⟨hA.reports_eq hne hB' hA', (hB'.reports_eq hne.symm hA hB).symm, ?_,
    hA.same_found hne hB hB' hA', _, hB.carries.settled hA.settled, ?_⟩
  · rw [hg₂.current, (hg₃.trans hA'.grows).current]
  · intro l
    exact ⟨hB'.before hne hA' l, hA.after hne hB l⟩

section Orders

/-- An output directory that is there, with room for the files of an entity. -/
structure Roomy (d : Disk) (b : Blueprint) (place : Location) : Prop where
  settled : d.Settled b.outputDir place
  free : ∀ l, d.find? (b.target place l) = none
  temporary : d.find? (place ++ [temporaryName 0]) = none
  fit : ∀ name ∈ temporaryName 0 :: Layer.all.map (fun l : Layer => l.fileName b.name.text),
    pathFault? (Path.join b.outputDir name) = none ∧ ¬name.utf8ByteSize > longestName

/-- A run into a roomy directory succeeds and changes nothing but its files. -/
theorem Roomy.generate (h : Roomy d b place) (names : ModuleNames) : ∃ files e,
    onDisk (b.generateLayers names Layer.all) d = (.ok files, e) ∧ Carries d e ∧
      ∀ x, (∀ l, x ≠ b.target place l) → e.find? x = d.find? x := by
  obtain ⟨hfit, hfits⟩ := List.forall_mem_cons.mp h.fit
  have htmp : d.freeTemporary? place = some (temporaryName 0) :=
    freeTemporary?_iff.mpr ⟨0, rfl, h.temporary, by simp⟩
  have hready : ∀ l : Layer, Ready d b.outputDir (l.fileName b.name.text) place := fun l =>
    ready_of_bars h.settled b.endsInName_outputDir (l.isName_fileName b.name)
      (hfits _ (List.mem_map_of_mem l.mem_all)) (bars_of_none (h.free l)) htmp hfit
  obtain ⟨e, hrun⟩ := generateEach_created (show Layer.all.Nodup by decide)
    (fun l _ => ⟨hready l, h.free l, _, b.text_eq_fileText names l⟩)
  have hlinks : ∀ l ∈ Layer.all, ∀ target, d.find? (b.target place l) ≠ some (.link target) := by
    intro l _ target hlink
    rw [h.free l] at hlink
    cases hlink
  obtain ⟨_, hputs, _⟩ := putAll_of_generateEach h.settled (by decide) hlinks hrun
  refine ⟨_, e, hrun, (grows_of_generateEach h.settled hrun).2, fun x hx => ?_⟩
  rw [hputs]
  apply find?_putAll_other
  simpa [Layer.all] using And.intro (hx .repository) ⟨hx .service, hx .resolver⟩

/-- A run leaves the directory of another entity roomy. -/
theorem Roomy.after {a : Blueprint} {there : Location} (h : Roomy d b place) (hne : b.name ≠ a.name)
    (hcarries : Carries d e) (hother : ∀ x, (∀ l, x ≠ a.target there l) → e.find? x = d.find? x) :
    Roomy e b place := by
  refine ⟨hcarries.settled h.settled, fun l => ?_, ?_, h.fit⟩
  · rw [hother _ (target_ne hne place there l), h.free l]
  · rw [hother _ ?_, h.temporary]
    intro l heq
    have hname : temporaryName 0 = l.fileName a.name.text := by
      simpa using (List.append_inj' heq rfl).2
    exact a.fileName_ne_temporaryName l 0 hname.symm

def twoOutputs : Disk :=
  ⟨[(["generated"], .directory), (["generated", "order"], .directory),
    (["generated", "user"], .directory)], []⟩

def rootUser : Blueprint :=
  ofOptions "/" ⟨"user", by decide⟩ (inDirectory "/")

theorem unlinked_twoOutputs (l : Location) : Unlinked twoOutputs l := by
  intro below target hlink
  rw [find?] at hlink
  split at hlink
  · cases hlink
  · obtain ⟨before, after, hentries, _⟩ := List.lookup_eq_some_iff.mp hlink
    have hmem : (l ++ below, Entry.link target) ∈ twoOutputs.entries := by
      rw [hentries]
      exact List.mem_append_right _ List.mem_cons_self
    simp [twoOutputs] at hmem

theorem settled_twoOutputs :
    ∀ b ∈ [rootOrder, rootUser], twoOutputs.Settled b.outputDir ["generated", b.name.text] := by
  have hfit : ∀ b ∈ [rootOrder, rootUser], pathFault? b.outputDir = none ∧
      Path.pieces b.outputDir = ["", "generated", b.name.text] ∧
      origin twoOutputs.current b.outputDir = [] ∧ ¬b.name.text.utf8ByteSize > longestName ∧
      twoOutputs.find? ["generated", b.name.text] = some .directory := by decide +kernel
  intro b hb
  obtain ⟨hfault, hpieces, horigin, hshort, hfound⟩ := hfit b hb
  have hg : Fits "generated" := ⟨by decide, by decide, by decide⟩
  have hn : Fits b.name.text := ⟨b.name.isName.not_filler, b.name.isName.no_parent, hshort⟩
  refine settled_iff.mpr ⟨hfault, 0, Nat.zero_le _, ?_⟩
  rw [hpieces, horigin]
  exact .stay (Or.inl rfl) (.down hg (by decide +kernel) (.down hn hfound (.here _)))

theorem roomy_twoOutputs :
    ∀ b ∈ [rootOrder, rootUser], Roomy twoOutputs b ["generated", b.name.text] := by
  have hfree : ∀ b ∈ [rootOrder, rootUser], ∀ l ∈ Layer.all,
      twoOutputs.find? (b.target ["generated", b.name.text] l) = none := by decide +kernel
  have htemporary : ∀ b ∈ [rootOrder, rootUser],
      twoOutputs.find? (["generated", b.name.text] ++ [temporaryName 0]) = none := by
    decide +kernel
  have hfit : ∀ b ∈ [rootOrder, rootUser],
      ∀ name ∈ temporaryName 0 :: Layer.all.map (fun l : Layer => l.fileName b.name.text),
        pathFault? (Path.join b.outputDir name) = none ∧ ¬name.utf8ByteSize > longestName := by
    decide +kernel
  exact fun b hb => ⟨settled_twoOutputs b hb, fun l => hfree b hb l l.mem_all, htemporary b hb,
    hfit b hb⟩

theorem entities_apart_order : rootOrder.baseDir = rootUser.baseDir ∧
    rootOrder.name ≠ rootUser.name ∧ ∃ s₁ s₂ s₃ s₄ filesA filesB,
    (rootOrder.generateLayers .standard Layer.all).run.run (Scene.ofDisk twoOutputs) =
      (.ok filesA, s₁) ∧
    (rootUser.generateLayers .standard Layer.all).run.run s₁ = (.ok filesB, s₂) ∧
    (rootUser.generateLayers .standard Layer.all).run.run (Scene.ofDisk twoOutputs) =
      (.ok filesB, s₃) ∧
    (rootOrder.generateLayers .standard Layer.all).run.run s₃ = (.ok filesA, s₄) ∧
    ∀ x, s₂.disk.find? x = s₄.disk.find? x := by
  have hbase : rootOrder.baseDir = rootUser.baseDir := rfl
  have hne : rootOrder.name ≠ rootUser.name := by decide
  have horder := roomy_twoOutputs rootOrder (by simp)
  have huser := roomy_twoOutputs rootUser (by simp)
  obtain ⟨filesA, d₁, ha, hcarries₁, hother₁⟩ := horder.generate .standard
  obtain ⟨filesB, d₂, hb, _⟩ := (huser.after hne.symm hcarries₁ hother₁).generate .standard
  obtain ⟨filesB', d₃, hb', hcarries₃, hother₃⟩ := huser.generate .standard
  obtain ⟨filesA', d₄, ha', _⟩ := (horder.after hne hcarries₃ hother₃).generate .standard
  obtain ⟨s₁, h₁, rfl⟩ := run_of_onDisk (s := Scene.ofDisk twoOutputs) ha
  obtain ⟨s₂, h₂, rfl⟩ := run_of_onDisk hb
  obtain ⟨s₃, h₃, rfl⟩ := run_of_onDisk (s := Scene.ofDisk twoOutputs) hb'
  obtain ⟨s₄, h₄, rfl⟩ := run_of_onDisk ha'
  obtain ⟨rfl, rfl, _, hsame, _⟩ := (entities_apart rootOrder rootUser .standard hbase).2.2.2
    _ s₁ s₂ s₃ s₄ filesA filesB filesA' filesB' hne h₁ h₂ h₃ h₄
    (fun base _ => unlinked_twoOutputs base)
  exact ⟨hbase, hne, s₁, s₂, s₃, s₄, filesA, filesB, h₁, h₂, h₃, h₄, hsame⟩

end Orders

end Blueprint

end CrudLayers
