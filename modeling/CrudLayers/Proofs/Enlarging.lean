import CrudLayers.Proofs.Making
import CrudLayers.Proofs.Growing

namespace CrudLayers

namespace Disk

variable {d e m : Disk} {path directory : String} {here place : Location}

theorem Keeps.trans (h : Keeps d m) (h' : Keeps m e) : Keeps d e := by
  intro l hl
  have hm := h l hl
  rw [← hm] at hl
  rw [h' l hl, hm]

/-- Whatever walk comes to a directory on the first disk comes to it on the second. -/
structure Carries (d e : Disk) : Prop where
  current : e.current = d.current
  reaches : ∀ {here : Location} {ps : List String} {links : Nat} {place : Location},
    d.Reaches here ps links place → e.Reaches here ps links place

theorem Carries.refl (d : Disk) : Carries d d :=
  ⟨rfl, id⟩

theorem Carries.trans (h : Carries d m) (h' : Carries m e) : Carries d e :=
  ⟨h'.current.trans h.current, fun hr => h'.reaches (h.reaches hr)⟩

theorem Keeps.carries (h : Keeps d e) (hcurrent : e.current = d.current) : Carries d e :=
  ⟨hcurrent, h.reaches⟩

theorem Bars.carries {l : Location} (h : d.Bars l) (entry : Entry) : Carries d (d.put l entry) :=
  ⟨rfl, fun hr => hr.update h (fun _ hm => find?_put_other d entry hm)⟩

theorem Carries.leads {names : List String} (hc : Carries d e) (h : d.Leads path names place) :
    e.Leads path names place := by
  obtain ⟨links, hlimit, hr⟩ := h
  refine ⟨links, hlimit, ?_⟩
  rw [hc.current]
  exact hc.reaches hr

theorem Carries.settled (hc : Carries d e) (h : d.Settled path place) : e.Settled path place := by
  obtain ⟨hf, hleads⟩ := settled_iff_leads.mp h
  exact settled_iff_leads.mpr ⟨hf, hc.leads hleads⟩

/-- A directory that the path leads through stands at the place: some components of the path lead to
the directory that holds it, and the next one is its name. -/
def Through (e : Disk) (path : String) (l : Location) : Prop :=
  ∃ names last more holder, Path.components path = names ++ last :: more ∧ Fits last ∧
    l = holder ++ [last] ∧ e.Leads path names holder

theorem Carries.through {l : Location} (hc : Carries d e) (h : d.Through path l) :
    e.Through path l := by
  obtain ⟨names, last, more, holder, hpath, hfits, hl, hleads⟩ := h
  exact ⟨names, last, more, holder, hpath, hfits, hl, hc.leads hleads⟩

/-- All that is new on the second disk are directories that the path leads through. -/
structure Enlarged (path : String) (d e : Disk) : Prop where
  current : e.current = d.current
  keeps : Keeps d e
  made : ∀ l, d.find? l = none → e.find? l ≠ none →
    e.find? l = some .directory ∧ e.Through path l

theorem Enlarged.refl (path : String) (d : Disk) : Enlarged path d d :=
  ⟨rfl, fun _ _ => rfl, fun _ hfree hthere => absurd hfree hthere⟩

theorem Enlarged.find?_eq_or (h : Enlarged path d e) (l : Location) : e.find? l = d.find? l ∨
    d.find? l = none ∧ e.find? l = some .directory ∧ e.Through path l := by
  by_cases hfree : d.find? l = none
  · by_cases hthere : e.find? l = none
    · exact Or.inl (hthere.trans hfree.symm)
    · exact Or.inr ⟨hfree, h.made l hfree hthere⟩
  · exact Or.inl (h.keeps l hfree)

theorem keeps_put_free {l : Location} (hfree : d.find? l = none) (entry : Entry) :
    Keeps d (d.put l entry) := by
  intro k hk
  apply find?_put_other
  rintro rfl
  exact hk hfree

theorem Enlarged.makeDirectory (h : Enlarged path d m) (hp : Path.Above directory path)
    (hm : m.makeDirectory directory = .ok e) : Enlarged path d e := by
  obtain ⟨_, names, last, holder, hc, hfits, hleads, hfree, rfl⟩ :=
    put_of_makeDirectory (ends_of_makeDirectory hp.shape hm) hm
  have hcarries := (bars_of_none hfree).carries .directory
  refine ⟨h.current, h.keeps.trans (keeps_put_free hfree _), ?_⟩
  intro l hl hthere
  by_cases hself : l = holder ++ [last]
  · obtain ⟨more, hmore⟩ := hp.components
    rw [hc, List.append_assoc] at hmore
    subst hself
    exact ⟨find?_put_self m _ (by simp), names, last, more, holder, hmore, hfits, rfl,
      hcarries.leads ((leads_congr hp.start).mp hleads)⟩
  · rw [find?_put_other m _ hself] at hthere ⊢
    obtain ⟨hdir, hthrough⟩ := h.made l hl hthere
    exact ⟨hdir, hcarries.through hthrough⟩

/-- Making a directory makes nothing but directories that its path leads through. -/
theorem enlarged_of_makeDirectories {reply : Except DiskFault Unit} (he : Path.Ends path)
    (h : (Write.makeDirectories path).onDisk d = (reply, e)) : Enlarged path d e :=
  Write.makeDirectories_preserves h (.refl path d)
    (fun _ hp _ _ hold => hold.makeDirectory (Path.above_upwardFrom (.inr (.inr he)) _ _ hp))

section Growing

/-- What may have come of what stood at a place: it is still there, a directory has been made where
there was nothing, or a file has been written where there was no directory. -/
inductive Comes : Option Entry → Option Entry → Prop where
  | same (x : Option Entry) : Comes x x
  | made : Comes none (some .directory)
  | written {x : Option Entry} (ne : x ≠ some .directory) (bytes : List UInt8) (mode : Nat) :
      Comes x (some (.file bytes mode))

theorem Comes.trans {x y z : Option Entry} (h : Comes x y) (h' : Comes y z) : Comes x z := by
  cases h' with
  | same => exact h
  | made =>
    cases h
    exact .made
  | written ne bytes mode =>
    cases h with
    | same => exact .written ne bytes mode
    | made => exact absurd rfl ne
    | written ne' => exact .written ne' bytes mode

/-- The second disk has come from the first by making directories and writing files. -/
structure Grows (d e : Disk) : Prop where
  current : e.current = d.current
  comes : ∀ l, Comes (d.find? l) (e.find? l)

theorem Grows.refl (d : Disk) : Grows d d :=
  ⟨rfl, fun _ => .same _⟩

theorem Grows.trans (h : Grows d m) (h' : Grows m e) : Grows d e :=
  ⟨h'.current.trans h.current, fun l => (h.comes l).trans (h'.comes l)⟩

theorem Enlarged.grows (h : Enlarged path d e) : Grows d e := by
  refine ⟨h.current, fun l => ?_⟩
  rcases h.find?_eq_or l with hsame | ⟨hfree, hdir, _⟩
  · rw [hsame]
    exact .same _
  · rw [hfree, hdir]
    exact .made

theorem grows_put_file {l : Location} (hl : l ≠ []) (hdir : d.find? l ≠ some .directory)
    (bytes : List UInt8) (mode : Nat) : Grows d (d.put l (.file bytes mode)) := by
  refine ⟨rfl, fun k => ?_⟩
  by_cases hself : k = l
  · subst hself
    rw [find?_put_self d _ hl]
    exact .written hdir bytes mode
  · rw [find?_put_other d _ hself]
    exact .same _

theorem Grows.stays_directory {l : Location} (h : Grows d e) (hl : d.find? l = some .directory) :
    e.find? l = some .directory := by
  have hcomes := h.comes l
  rw [hl] at hcomes
  generalize e.find? l = y at hcomes
  cases hcomes with
  | same => rfl
  | written ne => exact absurd rfl ne

theorem Grows.stays_file {l : Location} {bytes : List UInt8} {mode : Nat} (h : Grows d e)
    (hl : d.find? l = some (.file bytes mode)) :
    ∃ bytes' mode', e.find? l = some (.file bytes' mode') := by
  have hcomes := h.comes l
  rw [hl] at hcomes
  generalize e.find? l = y at hcomes
  cases hcomes with
  | same => exact ⟨bytes, mode, rfl⟩
  | written _ bytes' mode' => exact ⟨bytes', mode', rfl⟩

theorem Grows.file_of_link {l : Location} {target : String} (h : Grows d e)
    (hl : d.find? l = some (.link target)) (hne : e.find? l ≠ d.find? l) :
    ∃ bytes mode, e.find? l = some (.file bytes mode) := by
  have hcomes := h.comes l
  rw [hl] at hcomes hne
  generalize e.find? l = y at hcomes hne
  cases hcomes with
  | same => exact absurd rfl hne
  | written _ bytes mode => exact ⟨bytes, mode, rfl⟩

theorem Grows.link {l : Location} {target : String} (h : Grows d e)
    (hl : e.find? l = some (.link target)) : d.find? l = some (.link target) := by
  have hcomes := h.comes l
  rw [hl] at hcomes
  generalize d.find? l = x at hcomes
  cases hcomes
  rfl

variable {f : Disk}

/-- Where one disk has a directory, no other that has come from the same one has a link. -/
theorem Grows.not_link {l : Location} (he : Grows d e) (hf : Grows d f)
    (hdir : e.find? l = some .directory) (target : String) :
    f.find? l ≠ some (.link target) := by
  intro hlink
  have hcomes := he.comes l
  rw [hdir, hf.link hlink] at hcomes
  cases hcomes

/-- Two disks that have come from one are alike. -/
theorem Grows.alike (he : Grows d e) (hf : Grows d f) : Alike e f where
  no_link hdir := he.not_link hf hdir _
  no_directory hlink hdir := hf.not_link he hdir _ hlink
  same_link hlink hother := by
    have hsame := (he.link hlink).symm.trans (hf.link hother)
    cases hsame
    rfl

theorem Grows.leads_eq {names : List String} {there : Location} (he : Grows d e) (hf : Grows d f)
    (h : e.Leads path names place) (h' : f.Leads path names there) : place = there := by
  obtain ⟨_, _, hr⟩ := h
  obtain ⟨_, _, hr'⟩ := h'
  rw [he.current] at hr
  rw [hf.current] at hr'
  exact (he.alike hf).place_eq hr hr'

/-- A new directory that a path leads through on one disk is there on the other too, if the path
leads anywhere on that one. -/
theorem Through.found {l : Location} (h : e.Through path l) (he : Grows d e) (hf : Grows d f)
    (hs : f.Settled path place) (hfree : d.find? l = none) : f.find? l = some .directory := by
  obtain ⟨names, last, more, holder, hc, hfits, rfl, hleads⟩ := h
  have hall := (settled_iff_leads.mp hs).2
  rw [hc] at hall
  obtain ⟨holder', links, hfirst, hrest⟩ := hall.split
  rw [← he.leads_eq hf hleads hfirst] at hrest
  cases hrest with
  | stay filler _ => exact absurd filler hfits.no_filler
  | up _ => exact absurd rfl hfits.no_parent
  | down _ found _ => exact found
  | follow _ found _ =>
    rw [hf.link found] at hfree
    cases hfree

end Growing

end Disk

end CrudLayers
