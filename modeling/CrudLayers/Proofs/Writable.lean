import CrudLayers.Proofs.Overwriting

namespace CrudLayers.Write

open Disk Attempt

variable {d : Disk} {path text : String} {mode : Nat}

/-- The directory that receives the file is there and takes a temporary file, and the path leads to
a regular file or to nothing. -/
structure Writable (d : Disk) (path : String) : Prop where
  holder : ∃ made e, d.makeTemporary (Path.holder path) = .ok (made, e)
  target : d.stat path = .error .noEntry ∨ ∃ bytes mode, d.stat path = .ok (.file bytes mode)

theorem Writable.onDisk_makeDirectories (h : Writable d path) :
    (makeDirectories (Path.holder path)).onDisk d = (.ok (), d) := by
  obtain ⟨_, _, htemp⟩ := h.holder
  obtain ⟨place, hsettled⟩ := exists_settled_of_makeTemporary htemp
  exact onDisk_makeDirectories_settled (Path.shape_holder path) hsettled

theorem Writable.enters (h : Writable d path) (he : Path.EndsInName path) :
    ∃ place name, d.Enters path place name ∧ d.find? (place ++ [name]) ≠ some .directory := by
  obtain ⟨_, _, htemp⟩ := h.holder
  obtain ⟨place, hsettled⟩ := exists_settled_of_makeTemporary htemp
  have hfault : ∀ fault, d.resolve true path = .error fault → fault = .noEntry := by
    intro fault hf
    have htarget := h.target
    rw [stat, hf] at htarget
    rcases htarget with hno | ⟨_, _, hfile⟩
    · cases hno
      rfl
    · cases hfile
  obtain ⟨name, henters⟩ := hsettled.enters_of_holder he hfault
  refine ⟨place, name, henters, fun hdir => ?_⟩
  have hstat : d.stat path = .ok .directory :=
    stat_eq_ok.mpr ⟨_, henters.resolve_directory true hdir⟩
  rcases h.target with hno | ⟨_, _, hfile⟩
  · rw [hstat] at hno
    cases hno
  · rw [hstat] at hfile
    cases hfile

/-- Where there is a text to replace, or nothing, a path that ends in a name is written. -/
theorem Writable.onDisk_writeFile {earlier : Option String} (h : Writable d path)
    (he : Path.EndsInName path) (hread : onDisk (readExisting path) d = (.ok earlier, d))
    (text : String) : ∃ e, onDisk (writeFile path text) d = (.ok (status earlier text), e) := by
  obtain ⟨place, name, henters, hdir⟩ := h.enters he
  obtain ⟨made, filled, htemp⟩ := h.holder
  obtain ⟨spot, tmp, hat, hnone, rfl⟩ := put_of_makeTemporary htemp
  let entry := Entry.file (Bytes.ofText text) ((d.mode? path).getD Entry.defaultMode)
  have hbars := bars_of_none hnone
  have hover : (d.put (spot ++ [tmp]) entry).find? (place ++ [name]) ≠ some .directory := by
    by_cases hsame : place ++ [name] = spot ++ [tmp]
    · rw [hsame, find?_put_self d entry (by simp)]
      simp [entry]
    · rwa [find?_put_other d entry hsame]
  have hrename := (hat.put hbars entry).rename_over (henters.put hbars entry)
    (find?_put_self d entry (by simp)) hover
  exact ⟨_, onDisk_writeFile_renamed h.onDisk_makeDirectories hread htemp hat hnone hrename⟩

/-- What a write reads of its target is the text of the file that the path leads to, if there is
one. -/
theorem Writable.readExisting (h : Writable d path)
    (htext : ∀ bytes mode, d.stat path = .ok (.file bytes mode) → (Bytes.text? bytes).isSome) :
    ∃ earlier, onDisk (Write.readExisting path) d = (.ok earlier, d) := by
  rcases h.target with hno | ⟨bytes, mode, hfile⟩
  · have hread : d.read path = .error .noEntry := by
      rw [Disk.read, hno]
      rfl
    exact ⟨none, onDisk_readExisting_none hread⟩
  · obtain ⟨old, hold⟩ := Option.isSome_iff_exists.mp (htext bytes mode hfile)
    have hread := read_eq_ok.mpr ⟨mode, hfile⟩
    rw [← Bytes.ofText_of_text? hold] at hread
    exact ⟨some old, onDisk_readExisting_text hread⟩

theorem Writable.refused {bytes : List UInt8} (h : Writable d path)
    (hfile : d.stat path = .ok (.file bytes mode)) (htext : Bytes.text? bytes = none) :
    onDisk (writeFile path text) d = (.error ⟨path, .notText⟩, d) := by
  have hread : onDisk (Write.readExisting path) d = (.error ⟨path, .notText⟩, d) := by
    rw [onDisk_readExisting, read_eq_ok.mpr ⟨mode, hfile⟩]
    simp only [htext]
  rw [writeFile, onDisk_bind_of_ok (onDisk_attempt_ok h.onDisk_makeDirectories _),
    onDisk_bind_of_ok onDisk_mode, onDisk_bind, hread]

/-- Where a file could be written, it is if its path ends in a name and what it holds is text. A
file with other bytes is left as it is. -/
theorem overwritten_iff_text (s : Scene) (path text : String) (h : Writable s.disk path) :
    ((∃ outcome s', (writeFile path text).run.run s = (.ok outcome, s') ∧
        s'.disk.read path = .ok (Bytes.ofText text)) ↔
      Path.EndsInName path ∧ ∀ bytes mode, s.disk.stat path = .ok (.file bytes mode) →
        (Bytes.text? bytes).isSome) ∧
    ∀ bytes mode, s.disk.stat path = .ok (.file bytes mode) → Bytes.text? bytes = none →
      ∃ s', (writeFile path text).run.run s = (.error ⟨path, .notText⟩, s') ∧
        s'.disk = s.disk := by
  refine ⟨⟨?_, ?_⟩, fun bytes mode hfile htext => run_of_onDisk (h.refused hfile htext)⟩
  · rintro ⟨outcome, s', hrun, _⟩
    have hdone := onDisk_of_run hrun
    obtain ⟨_, _, _, _, _, _, _, henters, _, _⟩ := put_of_writeFile hdone
    refine ⟨henters.endsInName, fun bytes mode hfile => ?_⟩
    by_contra hnone
    rw [h.refused hfile (Option.not_isSome_iff_eq_none.mp hnone)] at hdone
    cases hdone
  · rintro ⟨he, htext⟩
    obtain ⟨earlier, hread⟩ := h.readExisting htext
    obtain ⟨e, hdone⟩ := h.onDisk_writeFile he hread text
    obtain ⟨s', hrun, hdisk⟩ := run_of_onDisk hdone
    refine ⟨_, s', hrun, ?_⟩
    rw [hdisk]
    exact read_of_writeFile hdone

section Bytes

def legible : Disk :=
  ⟨[(["f"], .file (Bytes.ofText "old") Entry.privateMode)], []⟩

def garbled : Disk :=
  ⟨[(["f"], .file [0xff] Entry.defaultMode)], []⟩

theorem endsInName_f : Path.EndsInName "f" :=
  @Path.endsInName_of_pieces "f" "f" [] (by decide +kernel) (by decide) (by decide)

theorem writable_legible : Writable legible "f" :=
  ⟨⟨"./.tmp0", legible.put [".tmp0"] (.file [] Entry.privateMode), by decide +kernel⟩,
    Or.inr ⟨_, Entry.privateMode, (by decide +kernel : legible.stat "f" =
      .ok (.file (Bytes.ofText "old") Entry.privateMode))⟩⟩

theorem overwritten_iff_text_legible : Writable legible "f" ∧ ∃ outcome s',
    (writeFile "f" "new").run.run (.ofDisk legible) = (.ok outcome, s') ∧
      s'.disk.read "f" = .ok (Bytes.ofText "new") := by
  refine ⟨writable_legible, (overwritten_iff_text (.ofDisk legible) "f" "new"
    writable_legible).1.mpr ⟨?_, ?_⟩⟩
  · exact endsInName_f
  · intro bytes mode hfile
    have hold : legible.stat "f" = .ok (.file (Bytes.ofText "old") Entry.privateMode) := by
      decide +kernel
    cases hold.symm.trans hfile
    rw [Bytes.text?_ofText]
    rfl

/-- A file that does not hold text is not written over, and stays as it was. -/
theorem bytes_refused : ∃ (s s' : Scene) (path text : String), Writable s.disk path ∧
    Path.EndsInName path ∧ s.disk.stat path = .ok (.file [0xff] Entry.defaultMode) ∧
      (writeFile path text).run.run s = (.error ⟨path, .notText⟩, s') ∧ s'.disk = s.disk := by
  have hfile : garbled.stat "f" = .ok (.file [0xff] Entry.defaultMode) := by decide +kernel
  have hwritable : Writable garbled "f" :=
    ⟨⟨"./.tmp0", garbled.put [".tmp0"] (.file [] Entry.privateMode), by decide +kernel⟩,
      Or.inr ⟨_, _, hfile⟩⟩
  have hnone : Bytes.text? [0xff] = none := by decide +kernel
  obtain ⟨s', hrun, hdisk⟩ := @run_of_onDisk _ _ _ _ (.ofDisk garbled) _
    (@Writable.refused _ _ "x" _ _ hwritable hfile hnone)
  exact ⟨_, s', "f", "x", hwritable, endsInName_f, hfile, hrun, hdisk⟩

end Bytes

end CrudLayers.Write
