import CrudLayers.Proofs.Writing
import Mathlib.Data.List.Induction

namespace CrudLayers.Disk

variable {d e : Disk} {here place : Location} {path : String}

/-- Every entry stands in a directory. -/
def Sound (d : Disk) : Prop :=
  ∀ place name, d.find? (place ++ [name]) ≠ none → d.find? place = some .directory

/-- Nothing stands under a place where nothing stands. -/
theorem Sound.free_below (h : d.Sound) {l : Location} (hl : d.find? l = none) (m : Location) :
    d.find? (l ++ m) = none := by
  induction m using List.reverseRecOn with
  | nil => rwa [List.append_nil]
  | append_singleton front name ih =>
    rw [← List.append_assoc]
    by_contra hfound
    have hdir := h (l ++ front) name hfound
    rw [ih] at hdir
    cases hdir

theorem sound_of_entries (h : ∀ e ∈ d.entries, d.find? e.1.dropLast = some .directory) :
    d.Sound := by
  intro place name hfound
  rw [find?, if_neg (by simp), Ne, List.lookup_eq_none_iff] at hfound
  push Not at hfound
  obtain ⟨e, he, heq⟩ := hfound
  have hkey : place ++ [name] = e.1 := by simpa using heq
  have hdir := h e he
  rwa [← hkey, List.dropLast_concat] at hdir

section Fillers

theorem Reaches.fillers {before rest : List String} {links : Nat} (hb : Path.bare before = [])
    (h : d.Reaches here rest links place) : d.Reaches here (before ++ rest) links place := by
  induction before with
  | nil => exact h
  | cons piece more ih =>
    by_cases hp : piece = "" ∨ piece = "."
    · rw [Path.bare_filler hp] at hb
      exact .stay hp (ih hb)
    · rw [Path.bare_name hp] at hb
      cases hb

theorem exists_of_bare_cons {piece : String} {qs rest : List String}
    (h : Path.bare qs = piece :: rest) :
    ∃ before after, qs = before ++ piece :: after ∧ Path.bare before = [] ∧
      Path.bare after = rest := by
  obtain ⟨before, after, rfl, hbefore, _, hafter⟩ := List.filter_eq_cons_iff.mp h
  exact ⟨before, after, rfl, List.filter_eq_nil_iff.mpr hbefore, hafter⟩

/-- Fillers do not matter to a walk. -/
theorem Reaches.respell {ps qs : List String} {links : Nat} (h : d.Reaches here ps links place)
    (hq : Path.bare qs = Path.bare ps) : d.Reaches here qs links place := by
  induction h generalizing qs with
  | here place => simpa using Reaches.fillers hq (.here place)
  | stay filler tail ih =>
    rw [Path.bare_filler filler] at hq
    exact ih hq
  | up tail ih =>
    rw [Path.bare_name (by decide)] at hq
    obtain ⟨before, after, rfl, hbefore, hafter⟩ := exists_of_bare_cons hq
    exact .fillers hbefore (.up (ih hafter))
  | down fits found tail ih =>
    rw [Path.bare_name fits.no_filler] at hq
    obtain ⟨before, after, rfl, hbefore, hafter⟩ := exists_of_bare_cons hq
    exact .fillers hbefore (.down fits found (ih hafter))
  | follow fits found tail ih =>
    rw [Path.bare_name fits.no_filler] at hq
    obtain ⟨before, after, rfl, hbefore, hafter⟩ := exists_of_bare_cons hq
    refine .fillers hbefore (.follow fits found (ih ?_))
    rw [Path.bare_append, Path.bare_append, hafter]

theorem reaches_components {links : Nat} :
    d.Reaches here (Path.components path) links place ↔
      d.Reaches here (Path.pieces path) links place := by
  have hsame : Path.bare (Path.components path) = Path.bare (Path.pieces path) := by
    rw [Path.components_eq, Path.bare_bare]
  exact ⟨fun h => h.respell hsame.symm, fun h => h.respell hsame⟩

end Fillers

/-- The names lead from where the path starts to the directory at `place`, and not through too many
links. -/
def Leads (d : Disk) (path : String) (names : List String) (place : Location) : Prop :=
  ∃ links, links ≤ linkLimit ∧ d.Reaches (origin d.current path) names links place

theorem settled_iff_leads : d.Settled path place ↔
    pathFault? path = none ∧ d.Leads path (Path.components path) place := by
  simp only [settled_iff, Leads, reaches_components]

theorem Leads.unique {names : List String} {other : Location} (h : d.Leads path names place)
    (h' : d.Leads path names other) : place = other := by
  obtain ⟨_, _, hr⟩ := h
  obtain ⟨_, _, hr'⟩ := h'
  exact hr.unique hr'

theorem Leads.split {names more : List String} (h : d.Leads path (names ++ more) place) :
    ∃ middle links, d.Leads path names middle ∧ d.Reaches middle more links place := by
  obtain ⟨links, hl, hr⟩ := h
  obtain ⟨i, j, middle, hij, hfirst, hsecond⟩ := hr.split rfl
  exact ⟨middle, j, ⟨i, by omega, hfirst⟩, hsecond⟩

/-- Where a path starts is the same for its parent. -/
theorem leads_congr {other : String} {names : List String}
    (h : Path.isAbsolute other = Path.isAbsolute path) :
    d.Leads other names place ↔ d.Leads path names place := by
  rw [Leads, Leads, origin, origin, h]

section Making

theorem ends_pieces (h : Path.Ends path) : ∃ front last, Path.pieces path = front ++ [last] ∧
    Path.components path = Path.bare front ++ [last] ∧ ¬(last = "" ∨ last = ".") := by
  obtain ⟨front, last, hs, hl⟩ := h
  have hfiller : ¬(String.ofList last = "" ∨ String.ofList last = ".") := by
    rw [← Path.isFiller_iff]
    simpa using hl
  have hp : Path.pieces path = front.map String.ofList ++ [String.ofList last] := by
    simp [Path.pieces, hs]
  refine ⟨_, _, hp, ?_, hfiller⟩
  rw [Path.components_eq, hp, Path.bare_append, Path.bare_name hfiller]
  rfl

theorem pathFault?_ne_noEntry (h : path ≠ "") : pathFault? path ≠ some .noEntry := by
  intro hno
  rw [pathFault?, if_neg h] at hno
  split at hno
  · cases hno
  split at hno
  · cases hno
  · cases hno

/-- A directory is not refused for want of the one that holds it if that one is there. -/
theorem makeDirectory_ne_noEntry {names : List String} {last : String} (he : Path.Ends path)
    (hc : Path.components path = names ++ [last]) (hl : d.Leads path names place) :
    d.makeDirectory path ≠ .error .noEntry := by
  obtain ⟨front, last', hp, hbare, hfiller⟩ := ends_pieces he
  rw [hbare] at hc
  obtain ⟨rfl, hlast⟩ := List.append_inj' hc rfl
  obtain ⟨links, hlimit, hr⟩ := hl
  rw [makeDirectory]
  cases hf : pathFault? path with
  | some fault =>
    have hslot : d.slot path = .error fault := by
      unfold slot
      rw [hf]
      rfl
    rw [make, hslot]
    rintro hno
    cases hno
    exact pathFault?_ne_noEntry he.ne_empty hf
  | none =>
    have hfront : d.Reaches (origin d.current path) (front ++ [""]) (links + 0) place :=
      (hr.respell (Path.bare_bare front).symm).append (.stay (Or.inl rfl) (.here place))
    have hslot := slot_last (d := d) hf hp (fun h => hfiller (Or.inl h))
    rw [walk_to_directory hfront hlimit] at hslot
    simp only at hslot
    split at hslot
    · rw [make, hslot]
      intro hno
      cases hno
    split at hslot
    · rw [make, hslot]
      intro hno
      cases hno
    · rw [make_of_slot hslot]
      split
      · intro hno
        cases hno
      · intro hno
        cases hno

/-- What the last piece of a path names stands in a directory that the pieces before it lead to. -/
theorem slot_of_ends {slot : Slot} (he : Path.Ends path) (h : d.slot path = .ok slot) :
    pathFault? path = none ∧ ∃ names last place, Path.components path = names ++ [last] ∧
      d.Leads path names place ∧
      (slot = .directory ∨ Fits last ∧ slot = .name (place ++ [last]) false) := by
  obtain ⟨front, last, hp, hbare, hfiller⟩ := ends_pieces he
  have hf := pathFault?_of_slot h
  have hslot := slot_last (d := d) hf hp (fun h => hfiller (Or.inl h))
  cases hw : d.walk true linkLimit (origin d.current path) (front ++ [""]) with
  | error fault =>
    rw [hw, h] at hslot
    cases hslot
  | ok a =>
    rw [hw, h] at hslot
    cases a with
    | free place slash => cases hslot
    | found place entry =>
      obtain ⟨links, there, hl, hr⟩ := reaches_of_walk hw
        (Or.inr (Or.inr ⟨by simp, place, entry, rfl⟩))
      have hthere := walk_to_directory (hr.append (.stay (Or.inl rfl) (.here there))) hl
      rw [hw] at hthere
      cases hthere
      refine ⟨hf, Path.bare front, last, place, hbare,
        ⟨links, hl, hr.respell (Path.bare_bare front)⟩, ?_⟩
      simp only at hslot
      split at hslot
      · cases hslot
        exact Or.inl rfl
      split at hslot
      · cases hslot
      · rename_i hdots hshort
        cases hslot
        exact Or.inr ⟨⟨hfiller, fun hup => hdots (Or.inr hup), hshort⟩, rfl⟩

/-- A directory that is made is put at a free name of the one that holds it. -/
theorem put_of_makeDirectory (he : Path.Ends path) (h : d.makeDirectory path = .ok e) :
    pathFault? path = none ∧ ∃ names last place, Path.components path = names ++ [last] ∧
      Fits last ∧ d.Leads path names place ∧ d.find? (place ++ [last]) = none ∧
      e = d.put (place ++ [last]) .directory := by
  rw [makeDirectory] at h
  cases hs : d.slot path with
  | error fault =>
    rw [make, hs] at h
    cases h
  | ok slot =>
    obtain ⟨hf, names, last, place, hc, hleads, rfl | ⟨hfits, rfl⟩⟩ := slot_of_ends he hs
    · rw [make, hs] at h
      cases h
    · rw [make_of_slot hs] at h
      split at h
      · cases h
      · rename_i hfree
        rw [if_neg (fun hslash => absurd hslash.1 (by decide))] at h
        cases h
        exact ⟨hf, names, last, place, hc, hfits, hleads, by simpa using hfree, rfl⟩

structure New (d : Disk) (path : String) (place : Location) : Prop where
  leads : d.Leads path (Path.components path) place
  empty : ∀ m, m ≠ [] → d.find? (place ++ m) = none

/-- A directory that is made where nothing stands below is new. -/
theorem new_of_put {names : List String} {last : String}
    (hc : Path.components path = names ++ [last]) (hfits : Fits last)
    (hl : d.Leads path names place) (hfree : ∀ m, d.find? (place ++ [last] ++ m) = none) :
    (d.put (place ++ [last]) .directory).New path (place ++ [last]) := by
  have hnone : d.find? (place ++ [last]) = none := by simpa using hfree []
  obtain ⟨links, hlimit, hr⟩ := hl
  constructor
  · refine ⟨links, hlimit, ?_⟩
    rw [hc]
    have hfront := hr.update (bars_of_none hnone)
      (fun m hm => find?_put_other d Entry.directory hm)
    exact hfront.append (.down hfits (find?_put_self d _ (by simp)) (.here _))
  · intro m hm
    rw [find?_put_other d _ (by simpa using hm)]
    exact hfree m

/-- Down from a path to another: each of the paths is the parent of the next. -/
inductive Descends : String → List String → String → Prop where
  | here (path : String) : Descends path [] path
  | step {path child directory : String} {rest : List String}
      (parent : Path.parent? child = some path) (ne_empty : path ≠ "") (ends : Path.Ends child)
      (tail : Descends child rest directory) : Descends path (child :: rest) directory

inductive Ascends : String → List String → Prop where
  | stop (path : String) : Ascends path []
  | up {path parent : String} {rest : List String} (above : Path.parent? path = some parent)
      (ne_empty : parent ≠ "") (tail : Ascends parent rest) : Ascends path (parent :: rest)

theorem Descends.components {directory : String} {missing : List String}
    (h : Descends path missing directory) :
    ∃ names, Path.components directory = Path.components path ++ names := by
  induction h with
  | here path => exact ⟨[], by simp⟩
  | step parent ne_empty ends tail ih =>
    obtain ⟨names, hnames⟩ := ih
    obtain ⟨_, ⟨last, hlast⟩, _⟩ := Path.parent?_spec parent ne_empty
    exact ⟨last :: names, by rw [hnames, hlast, List.append_assoc]; rfl⟩

theorem ascends_upwardFrom (steps : Nat) (hne : path ≠ "") :
    ∃ parents, Path.upwardFrom (steps + 1) path = path :: parents ∧ Ascends path parents := by
  induction steps generalizing path with
  | zero =>
    refine ⟨[], ?_, .stop path⟩
    rw [Path.upwardFrom, if_neg hne]
    cases Path.parent? path <;> rfl
  | succ steps ih =>
    rw [Path.upwardFrom, if_neg hne]
    cases hp : Path.parent? path with
    | none => exact ⟨[], rfl, .stop path⟩
    | some parent =>
      by_cases he : parent = ""
      · subst he
        have hstop : Path.upwardFrom (steps + 1) "" = [] := by rw [Path.upwardFrom, if_pos rfl]
        exact ⟨[], by simp only [hstop], .stop path⟩
      · obtain ⟨parents, hup, htail⟩ := ih he
        exact ⟨parent :: parents, by simp only [hup], .up hp he htail⟩

theorem isDirectory_iff : d.isDirectory path = true ↔ ∃ place, d.Settled path place := by
  constructor
  · intro h
    rw [isDirectory, stat] at h
    cases hr : d.resolve true path with
    | error fault =>
      rw [hr] at h
      cases h
    | ok a =>
      rw [hr] at h
      cases a with
      | free place slash => cases h
      | found place entry =>
        cases entry with
        | directory => exact ⟨place, hr⟩
        | file bytes mode => cases h
        | link target => cases h
  · rintro ⟨place, h⟩
    rw [isDirectory, stat, h]
    rfl

/-- No name leads on from a new directory. -/
theorem New.not_leads {last : String} {there : Location} (h : d.New path place)
    (hfiller : ¬(last = "" ∨ last = ".")) (hup : last ≠ "..") :
    ¬d.Leads path (Path.components path ++ [last]) there := by
  intro hl
  obtain ⟨middle, links, hfirst, hlast⟩ := hl.split
  have hplace := h.leads.unique hfirst
  subst hplace
  exact not_reaches_of_free hfiller hup (h.empty [last] (by simp)) hlast

theorem makeDirectory_of_free {first : String} {rest : List String} (hf : pathFault? path = none)
    (hp : Path.pieces path = first :: rest) (hfits : Fits first)
    (hfree : d.find? (origin d.current path ++ [first]) = none) (hrest : rest ≠ [])
    (he : Path.Ends path) : d.makeDirectory path = .error .noEntry := by
  obtain ⟨front, last, hp', _, hfiller⟩ := ends_pieces he
  have hfront : ∃ more, front = first :: more := by
    cases front with
    | nil =>
      rw [hp, List.nil_append, List.cons.injEq] at hp'
      exact absurd hp'.2 hrest
    | cons a more =>
      rw [hp] at hp'
      cases hp'
      exact ⟨more, rfl⟩
  obtain ⟨more, rfl⟩ := hfront
  have hslot := slot_last (d := d) hf hp' (fun h => hfiller (Or.inl h))
  have hstroll := @stroll_name d true (origin d.current path) _ (more ++ [""]) hfits
  rw [hfree] at hstroll
  have herror : d.slot path = .error .noEntry := by
    by_cases hall : (more ++ [""]).all (· == "") = true
    · simp only [hall, if_true] at hstroll
      rw [hslot, List.cons_append, walk_arrival hstroll]
    · rw [Bool.not_eq_true] at hall
      rw [hslot, List.cons_append, walk_of_free hfits hfree hall]
  rw [makeDirectory, make, herror]
  rfl

/-- A directory that is there is not made. -/
theorem makeDirectory_of_settled {place : Location} (he : Path.Ends path)
    (hs : d.Settled path place) : ∃ fault, d.makeDirectory path = .error fault := by
  cases hmade : d.makeDirectory path with
  | error fault => exact ⟨fault, rfl⟩
  | ok m =>
    obtain ⟨_, names, last, there, hc, hfits, hleads, hfree, _⟩ := put_of_makeDirectory he hmade
    have hall := (settled_iff_leads.mp hs).2
    rw [hc] at hall
    obtain ⟨middle, links, hfirst, hlast⟩ := hall.split
    have hplace := hleads.unique hfirst
    subst hplace
    exact absurd hlast (not_reaches_of_free hfits.no_filler hfits.no_parent hfree)

theorem onDisk_makeEach_settled {rest : List String}
    (h : ∀ path ∈ rest, Path.Ends path ∧ d.isDirectory path = true) :
    (Write.makeEach rest).onDisk d = (.ok (), d) := by
  induction rest with
  | nil => rfl
  | cons path rest ih =>
    obtain ⟨he, hdir⟩ := h path List.mem_cons_self
    obtain ⟨place, hs⟩ := isDirectory_iff.mp hdir
    obtain ⟨fault, hfault⟩ := makeDirectory_of_settled he hs
    rw [Write.onDisk_makeEach_error hfault, if_pos hdir]
    exact ih (fun p hp => h p (List.mem_cons_of_mem _ hp))

theorem onDisk_makeMissing_waiting {waiting rest missing : List String}
    (h : ∀ path ∈ waiting, d.makeDirectory path = .error .noEntry) :
    (Write.makeMissing missing (waiting ++ rest)).onDisk d =
      (Write.makeMissing (waiting.reverse ++ missing) rest).onDisk d := by
  induction waiting generalizing missing with
  | nil => rfl
  | cons path waiting ih =>
    rw [List.cons_append, Write.onDisk_makeMissing_noEntry (h path List.mem_cons_self),
      ih (fun p hp => h p (List.mem_cons_of_mem _ hp)), List.reverse_cons, List.append_assoc]
    rfl

/-- A directory that is made in a new one is new too. -/
theorem New.of_makeDirectory {child last : String} (h : d.New path place)
    (hparent : Path.isAbsolute path = Path.isAbsolute child)
    (hlast : Path.components child = Path.components path ++ [last]) (he : Path.Ends child)
    (hmade : d.makeDirectory child = .ok e) : e.New child (place ++ [last]) := by
  obtain ⟨_, names, last', there, hc, hfits, hleads, _, rfl⟩ := put_of_makeDirectory he hmade
  rw [hlast] at hc
  obtain ⟨rfl, hsame⟩ := List.append_inj' hc rfl
  cases hsame
  have hplace := ((leads_congr hparent).mp h.leads).unique hleads
  subst hplace
  apply new_of_put hlast hfits hleads
  intro m
  rw [List.append_assoc]
  exact h.empty _ (by simp)

/-- In a new directory there is no directory yet. -/
theorem New.not_isDirectory {child last : String} (h : d.New path place)
    (hparent : Path.isAbsolute path = Path.isAbsolute child)
    (hlast : Path.components child = Path.components path ++ [last]) (he : Path.Ends child)
    (hup : last ≠ "..") : d.isDirectory child ≠ true := by
  intro hdir
  obtain ⟨there, hthere⟩ := isDirectory_iff.mp hdir
  obtain ⟨front, last', _, hbare, hfiller⟩ := ends_pieces he
  rw [hlast] at hbare
  obtain ⟨_, hsame⟩ := List.append_inj' hbare rfl
  cases hsame
  have hleads := (settled_iff_leads.mp hthere).2
  rw [hlast, ← leads_congr hparent] at hleads
  exact h.not_leads hfiller hup hleads

/-- Below a new directory every name is new once it is made. -/
theorem makeEach_new {directory : String} {missing names : List String}
    (hd : Descends path missing directory) (hnew : d.New path place)
    (hc : Path.components directory = Path.components path ++ names) (hup : ".." ∉ names)
    (h : (Write.makeEach missing).onDisk d = (.ok (), e)) : ∃ there, e.New directory there := by
  induction hd generalizing d place names with
  | here path =>
    cases h
    exact ⟨place, hnew⟩
  | @step path child directory rest parent ne_empty ends tail ih =>
    obtain ⟨hparent, ⟨last, hlast⟩, _⟩ := Path.parent?_spec parent ne_empty
    obtain ⟨more, hmore⟩ := tail.components
    have hnames : names = last :: more := by
      rw [hmore, hlast, List.append_assoc] at hc
      exact (List.append_cancel_left hc).symm
    subst hnames
    rw [List.mem_cons, not_or] at hup
    cases hmade : d.makeDirectory child with
    | ok m =>
      rw [Write.onDisk_makeEach_ok hmade] at h
      exact ih (hnew.of_makeDirectory hparent hlast ends hmade) hmore hup.2 h
    | error fault =>
      have hnot := hnew.not_isDirectory hparent hlast ends (fun he => hup.1 he.symm)
      rw [Write.onDisk_makeEach_error hmade, if_neg hnot] at h
      cases h

/-- Every `..` of the path leaves a directory that is there: none comes behind the names that lead
to a directory. -/
def Straight (d : Disk) (path : String) : Prop :=
  ∃ kept rest place, Path.components path = kept ++ rest ∧ ".." ∉ rest ∧ d.Leads path kept place

/-- What follows a path that leads nowhere has no `..` in it. -/
theorem Straight.not_up {directory : String} {names : List String} (h : d.Straight directory)
    (hc : Path.components directory = Path.components path ++ names)
    (hn : ∀ place, ¬d.Leads directory (Path.components path) place) : ".." ∉ names := by
  obtain ⟨kept, rest, place, hsplit, hup, hleads⟩ := h
  rw [hc] at hsplit
  rcases List.append_eq_append_iff.mp hsplit with ⟨more, rfl, hrest⟩ | ⟨more, _, rfl⟩
  · obtain ⟨middle, _, hmiddle, _⟩ := hleads.split
    exact absurd hmiddle (hn middle)
  · intro hmem
    exact hup (List.mem_append_right _ hmem)

/-- A name behind a path goes straight on. -/
theorem Straight.join {name : String} (h : d.Straight path) (hn : Path.IsName name) :
    d.Straight (Path.join path name) := by
  obtain ⟨kept, rest, place, hsplit, hup, hleads⟩ := h
  refine ⟨kept, rest ++ [name], place, ?_, ?_,
    (leads_congr (Path.isAbsolute_join hn path)).mpr hleads⟩
  · rw [Path.components_join hn path, hsplit, List.append_assoc]
  · intro hmem
    rcases List.mem_append.mp hmem with hmem | hmem
    · exact hup hmem
    · exact hn.no_parent (List.mem_singleton.mp hmem).symm

theorem Descends.isAbsolute {directory : String} {missing : List String}
    (h : Descends path missing directory) :
    Path.isAbsolute directory = Path.isAbsolute path := by
  induction h with
  | here path => rfl
  | step parent ne_empty ends tail ih => rw [ih, (Path.parent?_spec parent ne_empty).1]

/-- The start of a path is always there, so a path that leads nowhere does not end in filler. -/
theorem ends_of_not_settled (h : path = "/" ∨ path = "." ∨ Path.Ends path)
    (hn : ∀ place, ¬d.Settled path place) : Path.Ends path := by
  rcases h with rfl | rfl | h
  · exact absurd (settled_iff_leads.mpr ⟨by decide, 0, Nat.zero_le _, .here _⟩) (hn _)
  · exact absurd (settled_iff_leads.mpr ⟨by decide, 0, Nat.zero_le _, .here _⟩) (hn _)
  · exact h

theorem not_settled_of_noEntry {parent : String} (hends : Path.Ends path)
    (above : Path.parent? path = some parent) (hne : parent ≠ "")
    (h : d.makeDirectory path = .error .noEntry) (place : Location) : ¬d.Settled parent place := by
  intro hs
  obtain ⟨habsolute, ⟨last, hlast⟩, _⟩ := Path.parent?_spec above hne
  have hleads := (leads_congr habsolute).mp (settled_iff_leads.mp hs).2
  exact makeDirectory_ne_noEntry hends hlast hleads h

/-- A path that is no directory is made, or it waits for its parent. -/
theorem cases_of_makeMissing {missing parents : List String} (hn : ∀ place, ¬d.Settled path place)
    (h : (Write.makeMissing missing (path :: parents)).onDisk d = (.ok (), e)) :
    (∃ m, d.makeDirectory path = .ok m ∧ (Write.makeEach missing).onDisk m = (.ok (), e)) ∨
      d.makeDirectory path = .error .noEntry ∧
        (Write.makeMissing (path :: missing) parents).onDisk d = (.ok (), e) := by
  cases hmade : d.makeDirectory path with
  | ok m =>
    rw [Write.onDisk_makeMissing_ok hmade] at h
    exact Or.inl ⟨m, rfl, h⟩
  | error fault =>
    by_cases hf : fault = .noEntry
    · subst hf
      rw [Write.onDisk_makeMissing_noEntry hmade] at h
      exact Or.inr ⟨rfl, h⟩
    · rw [Write.onDisk_makeMissing_error hmade hf] at h
      split at h
      · rename_i hdir
        obtain ⟨place, hplace⟩ := isDirectory_iff.mp hdir
        exact absurd hplace (hn place)
      · cases h

/-- The first directory that can be made is new, and so is what is made below it. -/
theorem new_of_first {m : Disk} {directory : String} {missing : List String} (hsound : d.Sound)
    (hstraight : d.Straight directory) (hd : Descends path missing directory)
    (hends : Path.Ends path) (hn : ∀ place, ¬d.Settled path place)
    (hmade : d.makeDirectory path = .ok m)
    (h : (Write.makeEach missing).onDisk m = (.ok (), e)) : ∃ place, e.New directory place := by
  obtain ⟨hfit, names, last, place, hc, hfits, hleads, hfree, rfl⟩ :=
    put_of_makeDirectory hends hmade
  obtain ⟨more, hmore⟩ := hd.components
  have hnew := new_of_put hc hfits hleads (hsound.free_below hfree)
  have hnot : ∀ there, ¬d.Leads directory (Path.components path) there := by
    intro there hl
    exact hn there (settled_iff_leads.mpr ⟨hfit, (leads_congr hd.isAbsolute).mp hl⟩)
  exact makeEach_new hd hnew hmore (hstraight.not_up hmore hnot) h

theorem makeMissing_new {directory : String} {missing parents : List String} (hsound : d.Sound)
    (hstraight : d.Straight directory) (hd : Descends path missing directory)
    (ha : Ascends path parents) (hends : Path.Ends path) (hn : ∀ place, ¬d.Settled path place)
    (h : (Write.makeMissing missing (path :: parents)).onDisk d = (.ok (), e)) :
    ∃ place, e.New directory place := by
  induction ha generalizing missing with
  | stop path =>
    rcases cases_of_makeMissing hn h with ⟨m, hmade, hrest⟩ | ⟨hno, hrest⟩
    · exact new_of_first hsound hstraight hd hends hn hmade hrest
    · -- The topmost parent has been refused, and it is refused once more.
      rw [Write.makeMissing, Write.onDisk_makeEach_error hno] at hrest
      split at hrest
      · rename_i hdir
        obtain ⟨place, hplace⟩ := isDirectory_iff.mp hdir
        exact absurd hplace (hn place)
      · cases hrest
  | @up path parent rest above ne_empty tail ih =>
    rcases cases_of_makeMissing hn h with ⟨m, hmade, hrest⟩ | ⟨hno, hrest⟩
    · exact new_of_first hsound hstraight hd hends hn hmade hrest
    · have hparent := not_settled_of_noEntry hends above ne_empty hno
      have hstart := (Path.parent?_spec above ne_empty).2.2
      exact ih (.step above ne_empty hends hd) (ends_of_not_settled hstart hparent) hparent hrest

/-- Where there was no directory there is a new one after all that is missing has been made. -/
theorem new_of_makeDirectories {directory : String} (hsound : d.Sound)
    (hstraight : d.Straight directory) (hends : Path.Ends directory)
    (hn : ∀ place, ¬d.Settled directory place)
    (h : (Write.makeDirectories directory).onDisk d = (.ok (), e)) :
    ∃ place, e.New directory place := by
  rw [Write.makeDirectories, Path.upward] at h
  cases hl : directory.length with
  | zero => exact absurd (String.length_eq_zero_iff.mp hl) hends.ne_empty
  | succ steps =>
    obtain ⟨parents, hup, ha⟩ := ascends_upwardFrom steps hends.ne_empty
    rw [hl, hup] at h
    exact makeMissing_new hsound hstraight (.here directory) ha hends hn h

end Making

end CrudLayers.Disk
