import CrudLayers.Proofs.Growing
import CrudLayers.Proofs.Making
import CrudLayers.Proofs.Stages

namespace CrudLayers.Write

open Disk

variable {d e m : Disk} {path text : String} {spare : String → Prop}

/-- All that is new on the second disk are directories on the way to the path, each made under the
name that ends the path of one of them. -/
structure Grown (path : String) (d e : Disk) : Prop where
  current : e.current = d.current
  keeps : Keeps d e
  made : ∀ l, d.find? l = none → e.find? l ≠ none → e.find? l = some .directory ∧
    ∃ directory ∈ Path.upward (Path.holder path), Path.Ends directory ∧ e.Settled directory l ∧
      ∃ names last, Path.components directory = names ++ [last] ∧ Fits last

theorem Grown.refl (path : String) (d : Disk) : Grown path d d :=
  ⟨rfl, fun _ _ => rfl, fun _ hfree hthere => absurd hfree hthere⟩

theorem Grown.makeDirectory {directory : String} (h : Grown path d m)
    (hp : directory ∈ Path.upward (Path.holder path)) (hm : m.makeDirectory directory = .ok e) :
    Grown path d e := by
  have hends := ends_of_makeDirectory (Path.shape_of_mem_upward hp) hm
  obtain ⟨place, hplace, hfree, rfl, hsettled, hname⟩ := settled_of_makeDirectory hends hm
  refine ⟨h.current, ?_, ?_⟩
  · intro l hl
    rw [find?_put_other, h.keeps l hl]
    rintro rfl
    rw [← h.keeps _ hl] at hl
    exact hl hfree
  · intro l hl hthere
    by_cases hself : l = place
    · subst hself
      exact ⟨find?_put_self m _ hplace, directory, hp, hends, hsettled, hname⟩
    · rw [find?_put_other m _ hself] at hthere ⊢
      obtain ⟨hdir, other, hother, hends', hsettled', hname'⟩ := h.made l hl hthere
      exact ⟨hdir, other, hother, hends', hsettled'.put (bars_of_none hfree) _, hname'⟩

theorem grown_of_makeDirectories {reply : Except DiskFault Unit}
    (h : (makeDirectories (Path.holder path)).onDisk d = (reply, e)) : Grown path d e :=
  makeDirectories_preserves h (.refl path d) (fun _ hp _ _ hold => hold.makeDirectory hp)

/-- What a write that can still be undone has done: directories on the way to its file, and its
temporary file in one of them. -/
def Undoable (path : String) (d : Disk) : Stage → Disk → Prop
  | .bare, m => Grown path d m
  | .filling temporary held, m => ∃ base place name mode, Grown path d base ∧
      base.Enters temporary place name ∧ base.find? (place ++ [name]) = none ∧
      m = base.put (place ++ [name]) (.file held mode)
  | .renamed, _ => True

/-- A call that a write makes undoes what it has done or adds what can be undone, until the target
is replaced. -/
theorem Undoable.move {stage after : Stage} (h : Undoable path d stage m)
    (hm : Move spare path text stage m after e) : Undoable path d after e := by
  cases hm with
  | stay => exact h
  | enlarge parent made => exact Grown.makeDirectory h parent made
  | start free isName made =>
    obtain ⟨place, henters, hfree, rfl⟩ := put_of_make_join isName made
    exact ⟨m, place, _, _, h, henters, hfree, rfl⟩
  | fill added =>
    obtain ⟨base, place, name, mode, hgrown, henters, hfree, rfl⟩ := h
    have hbars := bars_of_none hfree
    rw [(henters.put hbars _).append_file (find?_put_self base _ (by simp)), put_put] at added
    cases added
    exact ⟨base, place, name, mode, hgrown, henters, hfree, rfl⟩
  | permit changed =>
    obtain ⟨base, place, name, mode, hgrown, henters, hfree, rfl⟩ := h
    have hbars := bars_of_none hfree
    rw [(henters.put hbars _).setMode_file (find?_put_self base _ (by simp)), put_put] at changed
    cases changed
    exact ⟨base, place, name, _, hgrown, henters, hfree, rfl⟩
  | publish moved => trivial
  | drop removed =>
    obtain ⟨base, place, name, mode, hgrown, henters, hfree, rfl⟩ := h
    have hbars := bars_of_none hfree
    rw [(henters.put hbars _).remove_file (find?_put_self base _ (by simp)), erase_put,
      erase_of_free (by simp) hfree] at removed
    cases removed
    exact hgrown
  | leave refused =>
    obtain ⟨base, place, name, mode, hgrown, henters, hfree, rfl⟩ := h
    have hbars := bars_of_none hfree
    rw [(henters.put hbars _).remove_file (find?_put_self base _ (by simp))] at refused
    cases refused

/-- A run that ends with a fault has undone what it did, but for directories. -/
theorem Undoable.run {stage : Stage} {p : Program (Except PathFault WriteStatus)}
    {fault : PathFault} (h : Undoable path d stage m) (hp : AtStage path text stage p)
    (hr : p.Runs spare m (.error fault) e) : Grown path d e := by
  generalize hreply : Except.error fault = reply at hr
  induction hr generalizing stage with
  | done a m =>
    subst hreply
    cases hp
    exact h
  | ask replied tail ih =>
    obtain ⟨after, hnext, hmove⟩ := hp.move replied
    exact ih (h.move hmove) hnext hreply

section Straight

/-- The new directories on the way to a path that goes straight on come behind all that was there,
and no `..` comes behind them. -/
theorem Grown.behind {kept rest more : List String} {directory : String} {place l : Location}
    (h : Grown path d e) (hsound : d.Sound) (hsplit : Path.components path = kept ++ rest)
    (hleads : d.Leads path kept place) (hl : d.find? l ≠ some .directory)
    (hstart : Path.isAbsolute directory = Path.isAbsolute path)
    (hmore : Path.components path = Path.components directory ++ more)
    (hname : ∃ names last, Path.components directory = names ++ [last] ∧ Fits last)
    (hsettled : e.Settled directory l) :
    ∃ middle, Path.components directory = kept ++ middle ∧ rest = middle ++ more := by
  have hall := (leads_congr hstart).mp (settled_iff_leads.mp hsettled).2
  rw [hmore] at hsplit
  rcases List.append_eq_append_iff.mp hsplit with ⟨middle, hkept, _⟩ | ⟨middle, hdir, hrest⟩
  · -- The directory would be one that was there before.
    rw [hkept] at hleads
    obtain ⟨before, _, ⟨links, hlimit, hr⟩, _⟩ := hleads.split
    have hr' : e.Reaches (origin e.current path) (Path.components directory) links before := by
      rw [h.current]
      exact h.keeps.reaches hr
    have hsame := hall.unique ⟨links, hlimit, hr'⟩
    obtain ⟨names, last, hdir, hfits⟩ := hname
    rw [hdir] at hr
    exact absurd (hsame ▸ hsound.directory_of_last hfits hr) hl
  · exact ⟨middle, hdir, hrest⟩

/-- The entries below a new directory are new directories. -/
theorem Grown.below {l : Location} (h : Grown path d e) (hsound : d.Sound)
    (hl : d.find? l = none) (m : Location) (hm : e.find? (l ++ m) ≠ none) :
    d.find? (l ++ m) = none ∧ e.find? (l ++ m) = some .directory := by
  have hfree := hsound.free_below hl m
  exact ⟨hfree, (h.made _ hfree hm).1⟩

/-- A path that goes straight on finds nothing once a directory on the way to it is new. -/
theorem Grown.not_found {follow : Bool} {l found : Location} {entry : Entry} (h : Grown path d e)
    (hsound : d.Sound) (hstraight : d.Straight path) (hfree : d.find? l = none)
    (hthere : e.find? l ≠ none) : e.resolve follow path ≠ .ok (.found found entry) := by
  intro hfound
  obtain ⟨kept, rest, place, hsplit, hup, hleads⟩ := hstraight
  obtain ⟨hdir, directory, hmem, hends, hsettled, hname⟩ := h.made l hfree hthere
  obtain ⟨hstart, more, hne, hmore⟩ := Path.above_of_mem_upward hmem hends
  obtain ⟨middle, hmiddle, rfl⟩ := h.behind hsound hsplit hleads (by simp [hfree]) hstart hmore
    hname hsettled
  have hbelow : ∀ m, e.find? (l ++ m) ≠ none → e.find? (l ++ m) = some .directory :=
    fun m hm => (h.below hsound hfree m hm).2
  obtain ⟨rfl, hend⟩ := hsettled.below hstart hmore hne
    (fun hm => hup (List.mem_append_right _ hm)) hdir hbelow hfound
  -- The end of the path is new itself, so that there is another directory on the way which leads
  -- there; and of two such directories the path comes to one after the other.
  have hfree' := hsound.free_below hfree more
  obtain ⟨_, other, hmem', hends', hsettled', hname'⟩ := h.made _ hfree' (by simp [hend])
  obtain ⟨hstart', more', hne', hmore'⟩ := Path.above_of_mem_upward hmem' hends'
  obtain ⟨middle', hmiddle', hrest⟩ := h.behind hsound hsplit hleads (by simp [hfree']) hstart'
    hmore' hname' hsettled'
  have hleads₁ := (leads_congr hstart).mp (settled_iff_leads.mp hsettled).2
  have hleads₂ := (leads_congr hstart').mp (settled_iff_leads.mp hsettled').2
  rcases List.append_eq_append_iff.mp hrest with ⟨x, rfl, rfl⟩ | ⟨x, rfl, rfl⟩
  · rw [hmiddle', ← List.append_assoc, ← hmiddle] at hleads₂
    obtain ⟨start, links, hfirst, hsecond⟩ := hleads₂.split
    rw [← hleads₁.unique hfirst] at hsecond
    have hup' : ".." ∉ x := by
      intro hm
      exact hup (List.mem_append_right _ (List.mem_append_left _ hm))
    have hlength := congrArg List.length (hsecond.ends_below hdir hbelow hup')
    have hle := List.length_filter_le (fun piece : String => !Path.isFiller piece.toList) x
    have hpos := List.length_pos_iff.mpr hne'
    simp only [List.length_append, Path.bare] at hlength
    omega
  · rw [hmiddle, ← List.append_assoc, ← hmiddle'] at hleads₁
    obtain ⟨start, links, hfirst, hsecond⟩ := hleads₁.split
    rw [← hleads₂.unique hfirst] at hsecond
    have hup' : ".." ∉ x := by
      intro hm
      exact hup (List.mem_append_left _ (List.mem_append_right _ hm))
    have hlength := congrArg List.length
      (hsecond.ends_below hend (fun m hm => (h.below hsound hfree' m hm).2) hup')
    have hpos := List.length_pos_iff.mpr hne
    simp only [List.length_append] at hlength
    omega

structure RolledBack (path : String) (d e : Disk) : Prop where
  /-- What was there is as it was. -/
  kept : ∀ l, d.find? l ≠ none → e.find? l = d.find? l
  /-- What is new are directories that were made on the way to the path. -/
  made : ∀ l, d.find? l = none → e.find? l ≠ none → e.find? l = some .directory ∧
    ∃ directory ∈ Path.upward (Path.holder path), e.Settled directory l
  /-- They hold nothing but one another. -/
  below : ∀ l, d.find? l = none → ∀ m, e.find? (l ++ m) ≠ none →
    d.find? (l ++ m) = none ∧ e.find? (l ++ m) = some .directory
  /-- The path leads to what it led to. -/
  found : ∀ follow l entry, d.resolve follow path = .ok (.found l entry) →
    e.resolve follow path = .ok (.found l entry)
  /-- It leads to nothing else if each `..` in it leaves a directory that was there. -/
  absent : d.Straight path → ∀ follow l entry, e.resolve follow path = .ok (.found l entry) →
    d.resolve follow path = .ok (.found l entry)

theorem Grown.rolledBack (h : Grown path d e) (hsound : d.Sound) : RolledBack path d e := by
  refine ⟨h.keeps, ?_, fun l hl => h.below hsound hl,
    fun follow l entry => h.keeps.resolve h.current,
    ?_⟩
  · intro l hl hthere
    obtain ⟨hdir, directory, hmem, _, hsettled, _⟩ := h.made l hl hthere
    exact ⟨hdir, directory, hmem, hsettled⟩
  · intro hstraight follow l entry hfound
    by_cases hnew : ∃ l, d.find? l = none ∧ e.find? l ≠ none
    · obtain ⟨new, hfree, hthere⟩ := hnew
      exact absurd hfound (h.not_found hsound hstraight hfree hthere)
    · push Not at hnew
      have hback : Keeps e d := by
        intro m hm
        by_cases hfree : d.find? m = none
        · exact absurd (hnew m hfree) hm
        · exact (h.keeps m hfree).symm
      exact hback.resolve h.current.symm hfound

/-- Whichever call fails: when a write ends with a fault, there is nothing new but directories on
the way to its file, and everything else is as it was. -/
theorem rolledBack_of_fault (spare : String → Prop) (d e : Disk) (path text : String)
    (fault : PathFault) (hsound : d.Sound)
    (h : (writeFile path text).run.Runs spare d (.error fault) e) : RolledBack path d e := by
  have hstart : Undoable path d .bare d := Grown.refl path d
  exact (hstart.run (writeFile_atStage path text) h).rolledBack hsound

end Straight

section Detour

/-- On an empty disk, a write to a path with a `..` in it makes the directory that the path then
leads to, and fails because of it. -/
theorem onDisk_writeFile_detour : Attempt.onDisk (writeFile "a/b/.." "x") ⟨[], []⟩ =
    (.error ⟨"a/b/..", .isDirectory⟩, ⟨[(["a", "b"], .directory), (["a"], .directory)], []⟩) := by
  decide +kernel

theorem runs_writeFile_detour : (writeFile "a/b/.." "x").run.Runs (fun _ => True) ⟨[], []⟩
    (.error ⟨"a/b/..", .isDirectory⟩) ⟨[(["a", "b"], .directory), (["a"], .directory)], []⟩ := by
  have hruns : (writeFile "a/b/.." "x").run.Runs (fun _ => True) ⟨[], []⟩
      (Attempt.onDisk (writeFile "a/b/.." "x") ⟨[], []⟩).1
      (Attempt.onDisk (writeFile "a/b/.." "x") ⟨[], []⟩).2 :=
    Program.runs_onDisk (fun _ => trivial) _ _
  rwa [onDisk_writeFile_detour] at hruns

theorem rolledBack_detour : Sound ⟨[], []⟩ ∧ RolledBack "a/b/.." ⟨[], []⟩
    ⟨[(["a", "b"], .directory), (["a"], .directory)], []⟩ := by
  have hsound : Sound ⟨[], []⟩ := sound_of_entries (by simp)
  exact ⟨hsound, rolledBack_of_fault _ _ _ "a/b/.." "x" _ hsound runs_writeFile_detour⟩

/-- A failed write may leave a directory where its path led to nothing. -/
theorem fault_makes_target : ∃ (d e : Disk) (path text : String) (fault : PathFault),
    d.Sound ∧ (writeFile path text).run.Runs (fun _ => True) d (.error fault) e ∧
      d.stat path = .error .noEntry ∧ e.stat path = .ok .directory :=
  ⟨_, _, _, _, _, sound_of_entries (by simp), runs_writeFile_detour, by decide +kernel,
    by decide +kernel⟩

end Detour

end CrudLayers.Write
