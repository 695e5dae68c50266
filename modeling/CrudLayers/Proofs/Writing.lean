import CrudLayers.Generation.Write
import CrudLayers.Proofs.Entering
import CrudLayers.Proofs.Parents
import CrudLayers.Proofs.Replacing
import CrudLayers.Proofs.Runs

namespace CrudLayers

open Disk

variable {d e : Disk} {path directory name : String} {place : Location}

section Calls

theorem onDisk_read {ε : Type} :
    @Attempt.onDisk ε (Except DiskFault (List UInt8)) (ask (.read path)) d =
      (.ok (d.read path), d) := rfl

theorem onDisk_mode {ε : Type} :
    @Attempt.onDisk ε (Option Nat) (ask (.mode path)) d = (.ok (d.mode? path), d) := rfl

theorem onDisk_sync :
    @Program.onDisk (Except DiskFault Unit) (Program.call (.sync path)) d = (.ok (), d) := rfl

theorem onDisk_makeDirectory (h : d.makeDirectory path = .ok e) :
    @Program.onDisk (Except DiskFault Unit) (Program.call (.makeDirectory path)) d =
      (.ok (), e) := by
  change d.answer (.makeDirectory path) = (.ok (), e)
  simp [Disk.answer, Scene.answer, Scene.ofDisk, Scene.change, h]

theorem onDisk_makeDirectory_error {fault : DiskFault} (h : d.makeDirectory path = .error fault) :
    @Program.onDisk (Except DiskFault Unit) (Program.call (.makeDirectory path)) d =
      (.error fault, d) := by
  change d.answer (.makeDirectory path) = (.error fault, d)
  simp [Disk.answer, Scene.answer, Scene.ofDisk, Scene.change, h]

theorem onDisk_append {bytes : List UInt8} (h : d.append path bytes = .ok e) :
    @Program.onDisk (Except DiskFault Nat) (Program.call (.append path bytes)) d =
      (.ok bytes.length, e) := by
  change d.answer (.append path bytes) = (.ok bytes.length, e)
  simp [Disk.answer, Scene.answer, Scene.ofDisk, h]

theorem onDisk_setMode {mode : Nat} (h : d.setMode path mode = .ok e) :
    @Program.onDisk (Except DiskFault Unit) (Program.call (.setMode path mode)) d =
      (.ok (), e) := by
  change d.answer (.setMode path mode) = (.ok (), e)
  simp [Disk.answer, Scene.answer, Scene.ofDisk, Scene.change, h]

theorem onDisk_makeTemporary {made : String} :
    @Program.onDisk (Except DiskFault String) (Program.call (.makeTemporary directory)) d =
      (.ok made, e) ↔ d.makeTemporary directory = .ok (made, e) := by
  change d.answer (.makeTemporary directory) = (.ok made, e) ↔ _
  simp only [Disk.answer, Scene.answer, Scene.ofDisk]
  cases d.makeTemporary directory with
  | ok r => simp [Prod.ext_iff]
  | error fault => simp

theorem onDisk_rename {target : String} :
    @Program.onDisk (Except DiskFault Unit) (Program.call (.rename path target)) d =
      (.ok (), e) ↔ d.rename path target = .ok e := by
  change d.answer (.rename path target) = (.ok (), e) ↔ _
  simp only [Disk.answer, Scene.answer, Scene.ofDisk]
  cases d.rename path target with
  | ok r => simp [Scene.change]
  | error fault => simp [Scene.change]

end Calls

namespace Write

open Attempt

section Reading

variable {earlier : Option String} {bytes : List UInt8}

/-- Reading changes nothing, and its outcome is that of the disk. -/
theorem onDisk_readExisting (path : String) (d : Disk) : onDisk (readExisting path) d =
    (match d.read path with
      | .ok bytes =>
        match Bytes.text? bytes with
        | some text => .ok (some text)
        | none => .error ⟨path, .notText⟩
      | .error .noEntry => .ok none
      | .error fault => .error ⟨path, fault⟩, d) := by
  rw [readExisting, onDisk_bind_of_ok onDisk_read]
  cases hr : d.read path with
  | ok bytes =>
    simp only
    cases Bytes.text? bytes with
    | some text => rfl
    | none => rfl
  | error fault => cases fault <;> rfl

theorem onDisk_readExisting_none (h : d.read path = .error .noEntry) :
    onDisk (readExisting path) d = (.ok none, d) := by
  rw [onDisk_readExisting, h]

theorem onDisk_readExisting_text {text : String} (h : d.read path = .ok (Bytes.ofText text)) :
    onDisk (readExisting path) d = (.ok (some text), d) := by
  rw [onDisk_readExisting, h]
  simp only [Bytes.text?_ofText]

/-- What can be read is the text of a file, or there is nothing to read. -/
theorem read_of_readExisting (h : onDisk (readExisting path) d = (.ok earlier, e)) :
    e = d ∧ (d.read path = .error .noEntry ∧ earlier = none ∨
      ∃ text, d.read path = .ok (Bytes.ofText text) ∧ earlier = some text) := by
  rw [onDisk_readExisting] at h
  cases hr : d.read path with
  | ok bytes =>
    simp only [hr] at h
    cases ht : Bytes.text? bytes with
    | some text =>
      simp only [ht] at h
      cases h
      exact ⟨rfl, Or.inr ⟨text, by rw [Bytes.ofText_of_text? ht], rfl⟩⟩
    | none =>
      simp only [ht] at h
      cases h
  | error fault =>
    cases fault <;> simp only [hr] at h <;> cases h
    exact ⟨rfl, Or.inl ⟨rfl, rfl⟩⟩

/-- A path that has been read, or behind which there was nothing to read, ends in no directory. -/
theorem bars_of_readExisting (h : d.Enters path place name)
    (hr : onDisk (readExisting path) d = (.ok earlier, d)) : d.Bars (place ++ [name]) := by
  rcases (read_of_readExisting hr).2 with ⟨hnone, _⟩ | ⟨text, htext, _⟩
  · exact h.bars_of_read (.inr hnone)
  · exact h.bars_of_read (.inl ⟨_, htext⟩)

end Reading

theorem ofText_inj {s t : String} : Bytes.ofText s = Bytes.ofText t ↔ s = t := by
  constructor
  · intro h
    have htext := congrArg Bytes.text? h
    rwa [Bytes.text?_ofText, Bytes.text?_ofText, Option.some.injEq] at htext
  · rintro rfl
    rfl

section Statuses

variable (earlier : Option String) (text : String)

theorem status_created : status earlier text = .created ↔ earlier = none := by
  cases earlier with
  | none => simp [status]
  | some t =>
    by_cases ht : t = text
    · simp [status, ht]
    · simp [status, ht]

theorem status_updated :
    status earlier text = .updated ↔ ∃ t, earlier = some t ∧ t ≠ text := by
  cases earlier with
  | none => simp [status]
  | some t =>
    by_cases ht : t = text
    · simp [status, ht]
    · simp [status, ht]

theorem status_unchanged : status earlier text = .unchanged ↔ earlier = some text := by
  cases earlier with
  | none => simp [status]
  | some t =>
    by_cases ht : t = text
    · simp [status, ht]
    · simp [status, ht]

end Statuses

section Directories

theorem isDirectory_of_settled (h : d.Settled path place) : d.isDirectory path = true := by
  rw [isDirectory, stat, h]
  rfl

variable {missing parents rest : List String} {fault : DiskFault}

theorem onDisk_makeEach_ok (h : d.makeDirectory path = .ok e) :
    (makeEach (path :: rest)).onDisk d = (makeEach rest).onDisk e := by
  rw [makeEach, Program.onDisk_bind, onDisk_makeDirectory h]

theorem onDisk_makeEach_error (h : d.makeDirectory path = .error fault) :
    (makeEach (path :: rest)).onDisk d =
      if d.isDirectory path then (makeEach rest).onDisk d else (.error fault, d) := by
  rw [makeEach, Program.onDisk_bind, onDisk_makeDirectory_error h]
  change (if d.isDirectory path then makeEach rest else return .error fault).onDisk d = _
  by_cases hdir : d.isDirectory path = true
  · rw [if_pos hdir, if_pos hdir]
  · rw [if_neg hdir, if_neg hdir]
    rfl

theorem onDisk_makeMissing_ok (h : d.makeDirectory path = .ok e) :
    (makeMissing missing (path :: parents)).onDisk d = (makeEach missing).onDisk e := by
  rw [makeMissing, Program.onDisk_bind, onDisk_makeDirectory h]

theorem onDisk_makeMissing_noEntry (h : d.makeDirectory path = .error .noEntry) :
    (makeMissing missing (path :: parents)).onDisk d =
      (makeMissing (path :: missing) parents).onDisk d := by
  rw [makeMissing, Program.onDisk_bind, onDisk_makeDirectory_error h]

theorem onDisk_makeMissing_error (h : d.makeDirectory path = .error fault)
    (hf : fault ≠ .noEntry) : (makeMissing missing (path :: parents)).onDisk d =
      if d.isDirectory path then (makeEach missing).onDisk d else (.error fault, d) := by
  rw [makeMissing, Program.onDisk_bind, onDisk_makeDirectory_error h]
  simp only [Program.onDisk_bind]
  change (if d.isDirectory path then makeEach missing else return .error fault).onDisk d = _
  by_cases hdir : d.isDirectory path = true
  · rw [if_pos hdir, if_pos hdir]
  · rw [if_neg hdir, if_neg hdir]
    rfl

/-- What every directory that is made keeps is kept when several are made. -/
theorem makeEach_preserves {P : Disk → Prop} (h : P d)
    (step : ∀ directory ∈ rest, ∀ m e, P m → m.makeDirectory directory = .ok e → P e) :
    P ((makeEach rest).onDisk d).2 := by
  induction rest generalizing d with
  | nil => exact h
  | cons directory rest ih =>
    obtain ⟨hself, hmore⟩ := List.forall_mem_cons.mp step
    cases hmade : d.makeDirectory directory with
    | ok e =>
      rw [onDisk_makeEach_ok hmade]
      exact ih (hself d e h hmade) hmore
    | error fault =>
      rw [onDisk_makeEach_error hmade]
      split
      · exact ih h hmore
      · exact h

theorem makeMissing_preserves {P : Disk → Prop} (h : P d)
    (stepMissing : ∀ directory ∈ missing, ∀ m e, P m → m.makeDirectory directory = .ok e → P e)
    (step : ∀ directory ∈ parents, ∀ m e, P m → m.makeDirectory directory = .ok e → P e) :
    P ((makeMissing missing parents).onDisk d).2 := by
  induction parents generalizing missing with
  | nil => exact makeEach_preserves h stepMissing
  | cons directory parents ih =>
    obtain ⟨hself, hmore⟩ := List.forall_mem_cons.mp step
    cases hmade : d.makeDirectory directory with
    | ok e =>
      rw [onDisk_makeMissing_ok hmade]
      exact makeEach_preserves (hself d e h hmade) stepMissing
    | error fault =>
      by_cases hnone : fault = .noEntry
      · subst hnone
        rw [onDisk_makeMissing_noEntry hmade]
        exact ih (List.forall_mem_cons.mpr ⟨hself, stepMissing⟩) hmore
      · rw [onDisk_makeMissing_error hmade hnone]
        split
        · exact makeEach_preserves h stepMissing
        · exact h

/-- What every directory that is made on the way to a path keeps is kept when all that are missing
are made. -/
theorem makeDirectories_preserves {P : Disk → Prop} {reply : Except DiskFault Unit}
    (hmake : (makeDirectories directory).onDisk d = (reply, e)) (h : P d)
    (step : ∀ parent ∈ Path.upward directory, ∀ m e, P m → m.makeDirectory parent = .ok e → P e) :
    P e := by
  have hnone : ∀ parent ∈ ([] : List String), ∀ m e, P m → m.makeDirectory parent = .ok e → P e :=
    fun _ hmem => absurd hmem List.not_mem_nil
  have hall := makeMissing_preserves h hnone step
  rw [makeDirectories] at hmake
  rwa [hmake] at hall

/-- Nothing is made on the way to a directory that is there and is refused for that. -/
theorem onDisk_makeDirectories_refused (hne : directory ≠ "")
    (hmade : d.makeDirectory directory = .error fault) (hf : fault ≠ .noEntry)
    (h : d.Settled directory place) : (makeDirectories directory).onDisk d = (.ok (), d) := by
  have hup : ∃ parents, Path.upward directory = directory :: parents := by
    rw [Path.upward]
    cases hl : directory.length with
    | zero => exact absurd (String.length_eq_zero_iff.mp hl) hne
    | succ steps => exact ⟨_, by rw [Path.upwardFrom, if_neg hne]⟩
  obtain ⟨parents, hup⟩ := hup
  rw [makeDirectories, hup, onDisk_makeMissing_error hmade hf, if_pos (isDirectory_of_settled h)]
  rfl

/-- Nothing is made on the way to a directory that is there. -/
theorem onDisk_makeDirectories (h : d.Settled directory place) (he : Path.EndsInName directory) :
    (makeDirectories directory).onDisk d = (.ok (), d) := by
  obtain ⟨holder, name, henter, htaken⟩ := h.enters he
  have hmade : d.makeDirectory directory = .error .occupied := henter.make_taken htaken _
  exact onDisk_makeDirectories_refused he.ends.ne_empty hmade (by decide) h

end Directories

section Filling

variable {temporary tmp : String}

/-- The bytes of a text are all taken at once. -/
theorem onDisk_appendAll (h : d.Enters temporary place tmp)
    (hf : d.find? (place ++ [tmp]) = none) (bytes : List UInt8) (mode : Nat) :
    (appendAll temporary bytes).onDisk (d.put (place ++ [tmp]) (.file [] mode)) =
      (.ok (), d.put (place ++ [tmp]) (.file bytes mode)) := by
  cases bytes with
  | nil =>
    rw [appendAll]
    rfl
  | cons byte rest =>
    have hnew := find?_put_self d (.file [] mode) (l := place ++ [tmp]) (by simp)
    have happ := (h.put (bars_of_none hf) (.file [] mode)).append_file hnew (byte :: rest)
    rw [put_put, List.nil_append] at happ
    rw [appendAll, Program.onDisk_bind, onDisk_append happ]
    simp only [List.length_cons, List.drop_length]
    rw [appendAll]
    rfl

/-- Before it takes the target's name, the temporary file holds the text and has its mode. -/
theorem onDisk_fillAndRename (h : d.Enters temporary place tmp)
    (hf : d.find? (place ++ [tmp]) = none) (path text : String) (first mode : Nat) :
    onDisk (fillAndRename temporary path text mode) (d.put (place ++ [tmp]) (.file [] first)) =
      onDisk (attempt (Program.call (.rename temporary path)) (PathFault.mk path ·))
        (d.put (place ++ [tmp]) (.file (Bytes.ofText text) mode)) := by
  have hnew := find?_put_self d (.file (Bytes.ofText text) first) (l := place ++ [tmp]) (by simp)
  have hmode := (h.put (bars_of_none hf) (.file (Bytes.ofText text) first)).setMode_file hnew mode
  rw [put_put] at hmode
  rw [fillAndRename, onDisk_bind_of_ok (onDisk_attempt_ok (onDisk_appendAll h hf _ _) _),
    onDisk_bind_of_ok (onDisk_attempt_ok onDisk_sync _),
    onDisk_bind_of_ok (onDisk_attempt_ok (onDisk_setMode hmode) _)]

end Filling

/-- A file can be written under a name of the directory at `place`: the walk to it ends there, no
other walk passes it, and the directory has a free name for a temporary file. -/
structure Ready (d : Disk) (directory name : String) (place : Location) : Prop where
  settled : d.Settled directory place
  enters : d.Enters (Path.join directory name) place name
  bars : d.Bars (place ++ [name])
  temporary : ∃ tmp, d.freeTemporary? place = some tmp ∧
    d.Enters (Path.join directory tmp) place tmp

/-- A name that no walk passes can be written under if it is not too long, nor that of the temporary
file. -/
theorem ready_of_bars {tmp : String} (h : d.Settled directory place)
    (he : Path.EndsInName directory) (hn : Path.IsName name)
    (hfit : pathFault? (Path.join directory name) = none ∧ ¬name.utf8ByteSize > longestName)
    (hbars : d.Bars (place ++ [name])) (htmp : d.freeTemporary? place = some tmp)
    (hfit' : pathFault? (Path.join directory tmp) = none ∧ ¬tmp.utf8ByteSize > longestName) :
    Ready d directory name place := by
  obtain ⟨n, rfl, _⟩ := freeTemporary?_iff.mp htmp
  exact ⟨h, h.enters_join he hn hfit.1 hfit.2, hbars, _, htmp,
    h.enters_join he (isName_temporaryName n) hfit'.1 hfit'.2⟩

/-- Writing beside a file changes nothing about how it can be written itself. -/
theorem Ready.put {other : String} (h : Ready d directory name place)
    (hb : d.Bars (place ++ [other])) (ho : ∀ n, other ≠ temporaryName n) (bytes : List UInt8)
    (mode : Nat) : Ready (d.put (place ++ [other]) (.file bytes mode)) directory name place := by
  obtain ⟨tmp, hfree, hat⟩ := h.temporary
  refine ⟨h.settled.put hb _, h.enters.put hb _, h.bars.put_file (by simp) _ _, tmp, ?_,
    hat.put hb _⟩
  have hsame : ∀ n, (d.put (place ++ [other]) (.file bytes mode)).find?
      (place ++ [temporaryName n]) = d.find? (place ++ [temporaryName n]) := by
    intro n
    apply find?_put_other
    intro he
    apply ho n
    simpa using he.symm
  rw [freeTemporary?_iff] at hfree ⊢
  simpa only [hsame] using hfree

theorem makeTemporary_of_settled (h : d.Settled directory place) : d.makeTemporary directory =
    match d.freeTemporary? place with
    | some tmp => (d.make (Path.join directory tmp) (.file [] Entry.privateMode)).map
        (fun m => (Path.join directory tmp, m))
    | none => .error .occupied := by
  unfold Settled at h
  rw [makeTemporary, h]
  rfl

/-- Making a temporary file fills the first free name of the directory. -/
theorem makeTemporary_eq {tmp : String} (h : d.Settled directory place)
    (hfree : d.freeTemporary? place = some tmp)
    (hat : d.Enters (Path.join directory tmp) place tmp) :
    d.makeTemporary directory = .ok (Path.join directory tmp,
      d.put (place ++ [tmp]) (.file [] Entry.privateMode)) := by
  obtain ⟨n, rfl, hnone, _⟩ := freeTemporary?_iff.mp hfree
  rw [makeTemporary_of_settled h, hfree]
  simp only [hat.make_free hnone]
  rfl

theorem exists_settled_of_makeTemporary {made : String}
    (h : d.makeTemporary directory = .ok (made, e)) : ∃ place, d.Settled directory place := by
  unfold makeTemporary at h
  cases hr : d.resolve true directory with
  | error fault =>
    rw [hr] at h
    cases h
  | ok a =>
    rw [hr] at h
    rcases a with ⟨place, entry⟩ | ⟨place, slash⟩
    · cases entry with
      | directory => exact ⟨place, hr⟩
      | file bytes mode => cases h
      | link target => cases h
    · cases h

theorem settled_of_makeTemporary {made : String} (he : Path.EndsInName directory)
    (h : d.makeTemporary directory = .ok (made, e)) :
    ∃ place tmp, d.Settled directory place ∧ d.freeTemporary? place = some tmp ∧
      d.Enters (Path.join directory tmp) place tmp := by
  obtain ⟨place, hsettled⟩ := exists_settled_of_makeTemporary h
  rw [makeTemporary_of_settled hsettled] at h
  cases hf : d.freeTemporary? place with
  | none =>
    rw [hf] at h
    cases h
  | some tmp =>
    refine ⟨place, tmp, hsettled, hf, ?_⟩
    obtain ⟨n, rfl, _⟩ := freeTemporary?_iff.mp hf
    cases hs : d.slot (Path.join directory (temporaryName n)) with
    | ok slot => exact hsettled.enters_of_slot he (isName_temporaryName n) hs
    | error fault =>
      have hmake : d.make (Path.join directory (temporaryName n))
          (.file [] Entry.privateMode) = .error fault := by
        rw [make, hs]
        rfl
      simp only [hf, hmake] at h
      cases h

/-- A write succeeds if its directory can be made, what its path leads to can be read, and the
filled temporary file can take the name of the target. -/
theorem onDisk_writeFile_renamed {m : Disk} {earlier : Option String} {temporary tmp text : String}
    (hmake : (makeDirectories (Path.holder path)).onDisk d = (.ok (), m))
    (hread : onDisk (readExisting path) m = (.ok earlier, m))
    (htemp : m.makeTemporary (Path.holder path) =
      .ok (temporary, m.put (place ++ [tmp]) (.file [] Entry.privateMode)))
    (hat : m.Enters temporary place tmp) (hnone : m.find? (place ++ [tmp]) = none)
    (hrename : (m.put (place ++ [tmp]) (.file (Bytes.ofText text)
      ((m.mode? path).getD Entry.defaultMode))).rename temporary path = .ok e) :
    onDisk (writeFile path text) d = (.ok (status earlier text), e) := by
  have hfill := onDisk_fillAndRename hat hnone path text Entry.privateMode
    ((m.mode? path).getD Entry.defaultMode)
  rw [onDisk_attempt_ok (onDisk_rename.mpr hrename)] at hfill
  rw [writeFile, onDisk_bind_of_ok (onDisk_attempt_ok hmake _),
    onDisk_bind_of_ok onDisk_mode, onDisk_bind_of_ok hread,
    onDisk_bind_of_ok (onDisk_attempt_ok (onDisk_makeTemporary.mpr htemp) _),
    onDisk_bind_of_ok (onDisk_caught hfill)]
  rfl

/-- Writing a file that is ready puts the text at its place, with the mode that the file had. -/
theorem Ready.onDisk_writeFile {earlier : Option String} (h : Ready d directory name place)
    (he : Path.EndsInName directory)
    (hr : onDisk (readExisting (Path.join directory name)) d = (.ok earlier, d)) (text : String) :
    onDisk (writeFile (Path.join directory name) text) d =
      (.ok (status earlier text), d.put (place ++ [name]) (.file (Bytes.ofText text)
        ((d.mode? (Path.join directory name)).getD Entry.defaultMode))) := by
  obtain ⟨tmp, hfree, hat⟩ := h.temporary
  obtain ⟨n, rfl, hnone, _⟩ := freeTemporary?_iff.mp hfree
  let mode := (d.mode? (Path.join directory name)).getD Entry.defaultMode
  let filled := d.put (place ++ [temporaryName n]) (.file (Bytes.ofText text) mode)
  have hbars := bars_of_none hnone
  have hself : filled.find? (place ++ [temporaryName n]) = some (.file (Bytes.ofText text) mode) :=
    find?_put_self d _ (by simp)
  have hover : filled.find? (place ++ [name]) ≠ some .directory :=
    (h.bars.put_file (by simp) _ _).1
  have hrename := (hat.put hbars (.file (Bytes.ofText text) mode)).rename_over
    (h.enters.put hbars (.file (Bytes.ofText text) mode)) hself hover
  rw [erase_put, erase_of_free (by simp) hnone] at hrename
  have hholder := he.ends.holder_join h.enters.isName
  exact onDisk_writeFile_renamed (by rw [hholder]; exact onDisk_makeDirectories h.settled he) hr
    (by rw [hholder]; exact makeTemporary_eq h.settled hfree hat) hat hnone hrename

/-- What a rename replaces stands under a name, with no slash behind it, and is no directory. -/
theorem slot_of_rename {target : String} (h : d.rename path target = .ok e) :
    ∃ l, d.slot target = .ok (.name l false) ∧ d.find? l ≠ some .directory := by
  unfold rename at h
  cases hs : d.slot path with
  | error fault =>
    rw [hs] at h
    cases h
  | ok start =>
    cases ht : d.slot target with
    | error fault =>
      rw [hs, ht] at h
      cases h
    | ok finish =>
      rw [hs, ht] at h
      cases start with
      | directory => cases h
      | name source _ =>
        cases finish with
        | directory => cases h
        | name l slash =>
          simp only [ok_bind] at h
          cases hf : d.find? source with
          | none =>
            simp only [hf] at h
            cases h
          | some entry =>
            simp only [hf] at h
            split at h
            · cases h
            rename_i hslash
            split at h
            · cases h
            rename_i hover
            rw [Bool.not_eq_true] at hslash
            exact ⟨l, by rw [hslash], hover⟩

/-- Writing a file first makes its directory, and then goes on as if that had been there. -/
theorem onDisk_writeFile_made (he : Path.EndsInName directory) (hn : Path.IsName name)
    (hmake : (makeDirectories directory).onDisk d = (.ok (), e)) (hs : e.Settled directory place)
    (text : String) : onDisk (writeFile (Path.join directory name) text) d =
      onDisk (writeFile (Path.join directory name) text) e := by
  rw [writeFile, he.ends.holder_join hn, onDisk_bind_of_ok (onDisk_attempt_ok hmake _),
    onDisk_bind_of_ok (onDisk_attempt_ok (onDisk_makeDirectories hs he) _)]

/-- If the temporary file can take the name of the target, the walk to the target ends there. -/
theorem enters_of_fillAndRename {tmp text : String} {first mode : Nat}
    (hs : d.Settled directory place) (he : Path.EndsInName directory) (hn : Path.IsName name)
    (hnone : d.find? (place ++ [tmp]) = none) (hat : d.Enters (Path.join directory tmp) place tmp)
    (h : onDisk (fillAndRename (Path.join directory tmp) (Path.join directory name) text mode)
      (d.put (place ++ [tmp]) (.file [] first)) = (.ok (), e)) :
    d.Enters (Path.join directory name) place name := by
  rw [onDisk_fillAndRename hat hnone] at h
  obtain ⟨_, hslot, _⟩ := slot_of_rename (onDisk_rename.mp (ok_of_attempt_ok h))
  have hfilled := (hs.put (bars_of_none hnone) _).enters_of_slot he hn hslot
  exact hs.enters_join he hn hfilled.fit hfilled.short

/-- A write that succeeds has gone through all its steps. -/
theorem steps_of_writeFile {text : String} {outcome : WriteStatus}
    (h : onDisk (writeFile path text) d = (.ok outcome, e)) :
    ∃ m earlier temporary empty, (makeDirectories (Path.holder path)).onDisk d = (.ok (), m) ∧
      onDisk (readExisting path) m = (.ok earlier, m) ∧ outcome = status earlier text ∧
      m.makeTemporary (Path.holder path) = .ok (temporary, empty) ∧
      onDisk (fillAndRename temporary path text ((m.mode? path).getD Entry.defaultMode)) empty =
        (.ok (), e) := by
  rw [writeFile] at h
  obtain ⟨_, m, hmake, hafter⟩ := ok_of_bind_ok h
  rw [onDisk_bind_of_ok onDisk_mode] at hafter
  obtain ⟨earlier, m', hread, hlater⟩ := ok_of_bind_ok hafter
  obtain ⟨rfl, _⟩ := read_of_readExisting hread
  obtain ⟨temporary, empty, htemp, hlast⟩ := ok_of_bind_ok hlater
  cases hfill : onDisk (fillAndRename temporary path text
      ((m'.mode? path).getD Entry.defaultMode)) empty with
  | mk reply last =>
    rw [onDisk_bind_of_ok (onDisk_caught hfill)] at hlast
    cases reply with
    | error fault => cases hlast
    | ok done =>
      cases hlast
      exact ⟨m', earlier, temporary, empty, ok_of_attempt_ok hmake, hread, rfl,
        onDisk_makeTemporary.mp (ok_of_attempt_ok htemp), hfill⟩

/-- If a file is written, then it was ready for that once its directory was there. -/
theorem ready_of_writeFile {text : String} {outcome : WriteStatus}
    (he : Path.EndsInName directory) (hn : Path.IsName name)
    (h : onDisk (writeFile (Path.join directory name) text) d = (.ok outcome, e)) :
    ∃ m place earlier, (makeDirectories directory).onDisk d = (.ok (), m) ∧
      Ready m directory name place ∧
      onDisk (readExisting (Path.join directory name)) m = (.ok earlier, m) ∧
      onDisk (writeFile (Path.join directory name) text) m = (.ok outcome, e) := by
  obtain ⟨m, earlier, temporary, empty, hmake, hread, _, hmade, hfill⟩ := steps_of_writeFile h
  rw [he.ends.holder_join hn] at hmake hmade
  obtain ⟨place, tmp, hsettled, hfree, hat⟩ := settled_of_makeTemporary he hmade
  rw [makeTemporary_eq hsettled hfree hat] at hmade
  cases hmade
  obtain ⟨n, rfl, hnone, _⟩ := freeTemporary?_iff.mp hfree
  have henters := enters_of_fillAndRename hsettled he hn hnone hat hfill
  have hbars := bars_of_readExisting henters hread
  refine ⟨m, place, earlier, hmake, ⟨hsettled, henters, hbars, _, hfree, hat⟩, hread, ?_⟩
  exact (onDisk_writeFile_made he hn hmake hsettled text).symm.trans h

end Write

end CrudLayers
