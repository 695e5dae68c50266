import CrudLayers.Proofs.Publishing

namespace CrudLayers

namespace Write

open Disk Attempt

variable {d e m : Disk} {path directory text : String} {outcome : WriteStatus} {mode : Nat}

theorem put_of_makeTemporary {made : String} (h : d.makeTemporary directory = .ok (made, e)) :
    ∃ place name, d.Enters made place name ∧ d.find? (place ++ [name]) = none ∧
      e = d.put (place ++ [name]) (.file [] Entry.privateMode) := by
  obtain ⟨name, _, hname, rfl, hmake⟩ :=
    @mayReply_makeTemporary (fun _ => True) d e directory made (fun _ => trivial) h
  obtain ⟨place, henters, hfree, rfl⟩ := put_of_make_join hname hmake
  exact ⟨place, name, henters, hfree, rfl⟩

/-- Once the directories on the way to it are there, a write that succeeds has looked at what its
path leads to, and puts the text at the place that the path names. -/
theorem put_of_writeFile (h : onDisk (writeFile path text) d = (.ok outcome, e)) :
    ∃ m earlier holder name, (makeDirectories (Path.holder path)).onDisk d = (.ok (), m) ∧
      onDisk (readExisting path) m = (.ok earlier, m) ∧ outcome = status earlier text ∧
      m.Enters path holder name ∧ m.Bars (holder ++ [name]) ∧
      e = m.put (holder ++ [name]) (.file (Bytes.ofText text)
        ((m.mode? path).getD Entry.defaultMode)) := by
  obtain ⟨m, earlier, _, _, hmake, hread, houtcome, htemp, hfill⟩ := steps_of_writeFile h
  obtain ⟨spot, tmp, hat, hnone, rfl⟩ := put_of_makeTemporary htemp
  rw [onDisk_fillAndRename hat hnone] at hfill
  obtain ⟨holder, name, henters, _, rfl⟩ :=
    put_of_rename hat hnone (onDisk_rename.mp (ok_of_attempt_ok hfill))
  exact ⟨m, earlier, holder, name, hmake, hread, houtcome, henters,
    bars_of_readExisting henters hread, rfl⟩

theorem read_of_writeFile (h : onDisk (writeFile path text) d = (.ok outcome, e)) :
    e.read path = .ok (Bytes.ofText text) := by
  obtain ⟨m, _, holder, name, _, _, _, henters, hbars, rfl⟩ := put_of_writeFile h
  exact (henters.put hbars _).read_file (find?_put_self m _ (by simp))

/-- What a write reports, and the mode of its file, told by the file that the path led to, if it
led to one. -/
structure Told (d : Disk) (path text : String) (outcome : WriteStatus) (mode : Nat) : Prop where
  created : outcome = .created ↔ ∀ bytes m, d.stat path ≠ .ok (.file bytes m)
  unchanged : outcome = .unchanged ↔ ∃ m, d.stat path = .ok (.file (Bytes.ofText text) m)
  updated : outcome = .updated ↔
    ∃ bytes m, d.stat path = .ok (.file bytes m) ∧ bytes ≠ Bytes.ofText text
  same_mode : ∀ bytes m, d.stat path = .ok (.file bytes m) → mode = m
  default_mode : (∀ bytes m, d.stat path ≠ .ok (.file bytes m)) → mode = Entry.defaultMode

theorem Told.congr (ht : Told m path text outcome mode)
    (h : ∀ bytes n, m.stat path = .ok (.file bytes n) ↔ d.stat path = .ok (.file bytes n)) :
    Told d path text outcome mode where
  created := by simpa only [ne_eq, h] using ht.created
  unchanged := by simpa only [h] using ht.unchanged
  updated := by simpa only [h] using ht.updated
  same_mode := by simpa only [h] using ht.same_mode
  default_mode := by simpa only [ne_eq, h] using ht.default_mode

theorem told_of_readExisting {earlier : Option String}
    (h : onDisk (readExisting path) d = (.ok earlier, d)) :
    Told d path text (status earlier text) ((d.mode? path).getD Entry.defaultMode) := by
  rcases (read_of_readExisting h).2 with ⟨hnone, rfl⟩ | ⟨old, hread, rfl⟩
  · have hfile : ∀ bytes n, d.stat path ≠ .ok (.file bytes n) := by
      intro bytes n hstat
      rw [read_eq_ok.mpr ⟨n, hstat⟩] at hnone
      cases hnone
    refine ⟨?_, ?_, ?_, fun bytes n hstat => absurd hstat (hfile bytes n), ?_⟩
    · rw [status_created]
      exact ⟨fun _ => hfile, fun _ => rfl⟩
    · rw [status_unchanged]
      exact ⟨nofun, fun ⟨n, hstat⟩ => absurd hstat (hfile _ n)⟩
    · rw [status_updated]
      exact ⟨nofun, fun ⟨bytes, n, hstat, _⟩ => absurd hstat (hfile bytes n)⟩
    · rw [mode?_of_no_file hfile]
      exact fun _ => rfl
  · obtain ⟨held, hstat⟩ := read_eq_ok.mp hread
    have hsame : ∀ bytes n, d.stat path = .ok (.file bytes n) ↔
        Bytes.ofText old = bytes ∧ held = n := by simp [hstat]
    refine ⟨?_, ?_, ?_, ?_, fun hfile => absurd hstat (hfile _ _)⟩
    · rw [status_created]
      exact ⟨nofun, fun hfile => absurd hstat (hfile _ _)⟩
    · rw [status_unchanged]
      simp [hsame, ofText_inj]
    · rw [status_updated]
      simp [hsame, ofText_inj]
    · rw [mode?_of_stat hstat]
      exact fun bytes n hother => ((hsame bytes n).mp hother).2

/-- What a write that succeeds has done. -/
structure Replaced (path text : String) (mode : Nat) (d e : Disk) (place : Location) : Prop where
  /-- The path names a file that holds the text; it is no link. -/
  found : ∀ follow, e.resolve follow path = .ok (.found place (.file (Bytes.ofText text) mode))
  /-- What stood anywhere else is as it was. -/
  kept : ∀ l, l ≠ place → d.find? l ≠ none → e.find? l = d.find? l
  /-- What is new anywhere else are directories that were made on the way to the path. -/
  made : ∀ l, l ≠ place → d.find? l = none → e.find? l ≠ none → e.find? l = some .directory ∧
    ∃ directory ∈ Path.upward (Path.holder path), e.Settled directory l
  /-- If the path was a link, the file stands in its place, and what it pointed to is as it was. -/
  link : ∀ l target, d.resolve false path = .ok (.found l (.link target)) → l = place ∧
    ∀ there bytes m, d.resolve true path = .ok (.found there (.file bytes m)) →
      e.find? there = some (.file bytes m)

/-- A path that was a link when the directories on the way to it were there names that link. -/
theorem place_of_link {holder l : Location} {name target : String} (h : d.Enters path holder name)
    (hlink : d.resolve false path = .ok (.found l (.link target))) : l = holder ++ [name] := by
  cases hf : d.find? (holder ++ [name]) with
  | none =>
    rw [h.resolve_none false hf] at hlink
    cases hlink
  | some entry =>
    cases entry with
    | directory =>
      rw [h.resolve_directory false hf] at hlink
      cases hlink
    | file bytes mode =>
      rw [h.resolve_file false hf] at hlink
      cases hlink
    | link other =>
      rw [h.resolve_link hf] at hlink
      cases hlink
      rfl

theorem Grown.replaced {holder : Location} {name : String} (h : Grown path d m)
    (henters : m.Enters path holder name) (hbars : m.Bars (holder ++ [name])) :
    Replaced path text mode d (m.put (holder ++ [name]) (.file (Bytes.ofText text) mode))
      (holder ++ [name]) where
  found follow := (henters.put hbars _).resolve_file follow (find?_put_self m _ (by simp))
  kept l hl hthere := by rw [find?_put_other m _ hl, h.keeps l hthere]
  made l hl hfree hthere := by
    rw [find?_put_other m _ hl] at hthere ⊢
    obtain ⟨hdir, directory, hmem, _, hsettled, _⟩ := h.made l hfree hthere
    exact ⟨hdir, directory, hmem, hsettled.put hbars _⟩
  link l target hlink := by
    have hplace := place_of_link henters (h.keeps.resolve h.current hlink)
    refine ⟨hplace, fun there bytes n hfile => ?_⟩
    have hold := find?_of_resolve hfile (by simp)
    have hother : there ≠ holder ++ [name] := by
      rintro rfl
      rw [← hplace, find?_of_resolve hlink (by simp)] at hold
      cases hold
    rw [find?_put_other m _ hother, h.keeps.find? hold]

/-- A write that succeeds has put the text where its path leads, replacing a link and not following
it, and has changed nothing else but for directories on the way. It reports of what the path leads
to once these are there, which is what it led to before if no `..` in it leaves a directory that was
missing. -/
theorem replaced_of_ok (s s' : Scene) (path text : String) (outcome : WriteStatus)
    (h : (writeFile path text).run.run s = (.ok outcome, s')) :
    ∃ place mode, Replaced path text mode s.disk s'.disk place ∧
      (∃ m, (makeDirectories (Path.holder path)).onDisk s.disk = (.ok (), m) ∧
        Told m path text outcome mode) ∧
      (s.disk.Sound → s.disk.Straight path → Told s.disk path text outcome mode) := by
  obtain ⟨m, earlier, holder, name, hmake, hread, rfl, henters, hbars, he⟩ :=
    put_of_writeFile (onDisk_of_run h)
  have hgrown := grown_of_makeDirectories hmake
  have htold := @told_of_readExisting m path text earlier hread
  rw [he]
  refine ⟨_, _, hgrown.replaced henters hbars, ⟨m, hmake, htold⟩, fun hsound hstraight => ?_⟩
  have hback := hgrown.rolledBack hsound
  refine htold.congr (fun bytes n => ?_)
  rw [stat_eq_ok, stat_eq_ok]
  exact ⟨fun ⟨l, hl⟩ => ⟨l, hback.absent hstraight true l _ hl⟩,
    fun ⟨l, hl⟩ => ⟨l, hback.found true l _ hl⟩⟩

section Linked

def linked : Disk :=
  ⟨[(["l"], .link "t"), (["t"], .file (Bytes.ofText "old") Entry.privateMode)], []⟩

theorem onDisk_writeFile_linked : onDisk (writeFile "l" "new") linked =
    (.ok .updated, ⟨[(["l"], .file (Bytes.ofText "new") Entry.privateMode),
      (["t"], .file (Bytes.ofText "old") Entry.privateMode)], []⟩) := by
  decide +kernel

theorem resolve_linked : linked.resolve false "l" = .ok (.found ["l"] (.link "t")) := by
  have henters : linked.Enters "l" [] "l" :=
    ⟨by decide +kernel, ⟨by decide, by decide, by decide⟩, by decide +kernel, [], 0,
      by decide +kernel, Nat.zero_le _, .here _⟩
  exact henters.resolve_link (by decide +kernel)

theorem replaced_of_ok_linked : ∃ s', (writeFile "l" "new").run.run (.ofDisk linked) =
    (.ok .updated, s') ∧ linked.resolve false "l" = .ok (.found ["l"] (.link "t")) ∧
      ∃ place mode, Replaced "l" "new" mode linked s'.disk place ∧
        Told linked "l" "new" .updated mode := by
  obtain ⟨s', hrun, _⟩ := @run_of_onDisk _ _ _ _ (.ofDisk linked) _ onDisk_writeFile_linked
  have hsound : linked.Sound := sound_of_entries (by decide +kernel)
  have hstraight : linked.Straight "l" :=
    ⟨[], ["l"], [], by decide +kernel, by decide, 0, Nat.zero_le _, .here _⟩
  obtain ⟨place, mode, hreplaced, _, htold⟩ := replaced_of_ok _ s' "l" "new" .updated hrun
  exact ⟨s', hrun, resolve_linked, place, mode, hreplaced, htold hsound hstraight⟩

end Linked

section Detour

/-- A file that only its owner may read, in a directory beside the one that the path goes
through. -/
def beside : Disk :=
  ⟨[(["y"], .directory), (["y", "f"], .file (Bytes.ofText "x") Entry.privateMode)], []⟩

theorem onDisk_writeFile_beside : onDisk (writeFile "x/../y/f" "x") beside =
    (.ok .unchanged, ⟨[(["y", "f"], .file (Bytes.ofText "x") Entry.privateMode),
      (["x"], .directory), (["y"], .directory)], []⟩) := by
  decide +kernel

/-- A write may find its file unchanged, and leave it the mode that it had, although its path led to
nothing before. -/
theorem unchanged_of_absent : ∃ (s s' : Scene) (path text : String), s.disk.Sound ∧
    s.disk.stat path = .error .noEntry ∧
      (writeFile path text).run.run s = (.ok .unchanged, s') ∧
      s'.disk.mode? path = some Entry.privateMode := by
  obtain ⟨s', hrun, hdisk⟩ := @run_of_onDisk _ _ _ _ (.ofDisk beside) _ onDisk_writeFile_beside
  refine ⟨_, s', "x/../y/f", "x", sound_of_entries (by decide +kernel), by decide +kernel, hrun, ?_⟩
  rw [hdisk]
  decide +kernel

end Detour

end Write

end CrudLayers
