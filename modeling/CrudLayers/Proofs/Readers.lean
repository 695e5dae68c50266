import CrudLayers.Proofs.Enlarging
import CrudLayers.Proofs.Interleaving

namespace CrudLayers

namespace Disk

variable {spare : String → Prop} {d e : Disk} {path : String} {here place l : Location}

/-- On its way along some pieces, a walk comes to a name under which there is nothing, with a `..`
still behind it. -/
inductive Strays (d : Disk) : Location → List String → Prop where
  | stay {here : Location} {piece : String} {rest : List String} (filler : piece = "" ∨ piece = ".")
      (tail : Strays d here rest) : Strays d here (piece :: rest)
  | up {here : Location} {rest : List String} (tail : Strays d here.dropLast rest) :
      Strays d here (".." :: rest)
  | down {here : Location} {piece : String} {rest : List String} (fits : Fits piece)
      (found : d.find? (here ++ [piece]) = some .directory)
      (tail : Strays d (here ++ [piece]) rest) : Strays d here (piece :: rest)
  | follow {here : Location} {piece target : String} {rest : List String} (fits : Fits piece)
      (found : d.find? (here ++ [piece]) = some (.link target))
      (tail : Strays d (origin here target) (Path.pieces target ++ rest)) :
      Strays d here (piece :: rest)
  | free {here : Location} {piece : String} {rest : List String} (fits : Fits piece)
      (free : d.find? (here ++ [piece]) = none) (back : ".." ∈ rest) : Strays d here (piece :: rest)

/-- Where there are no links, a walk without `..` ends below its start. -/
theorem below_of_unlinked {follow : Bool} {limit : Nat} {ps : List String} {entry : Entry}
    (hlinks : ∀ m target, d.find? (here ++ m) ≠ some (.link target)) (hup : ".." ∉ ps)
    (h : d.walk follow limit here ps = .ok (.found l entry)) : ∃ m, l = here ++ m := by
  induction walked_of_walk h with
  | done ends =>
    cases ends
    exact ⟨[], by simp⟩
  | stay _ tail ih => exact ih hlinks (List.not_mem_of_not_mem_cons hup) tail.walk_eq
  | up => exact absurd List.mem_cons_self hup
  | free _ _ _ ends => cases ends
  | @down _ here piece rest _ _ tail ih =>
    obtain ⟨m, rfl⟩ := ih (fun m target => by
      rw [List.append_assoc]
      exact hlinks _ target) (List.not_mem_of_not_mem_cons hup) tail.walk_eq
    exact ⟨piece :: m, by simp⟩
  | found _ _ _ _ _ ends =>
    cases ends
    exact ⟨[_], rfl⟩
  | follow _ found => exact absurd found (hlinks _ _)

section Files

variable {limit : Nat} {ps : List String} {bytes : List UInt8} {mode : Nat}

/-- A walk that comes to a file comes to a directory first and looks up the last piece there: the
file itself, or a link to it. -/
theorem last_of_walk (h : d.walk true limit here ps = .ok (.found l (.file bytes mode))) :
    ∃ front name place links, ps = front ++ [name] ∧ Fits name ∧ links ≤ limit ∧
      d.Reaches here front links place ∧ (l = place ++ [name] ∨
        ∃ target fewer, d.find? (place ++ [name]) = some (.link target) ∧ fewer < limit ∧
          d.walk true fewer (origin place target) (Path.pieces target) =
            .ok (.found l (.file bytes mode))) := by
  cases ps using List.reverseRecOn with
  | nil =>
    cases walked_of_walk h with
    | done ends => cases ends
  | append_singleton front name =>
    obtain ⟨links, place, hlimit, hr⟩ := reaches_of_walk h (Or.inr (Or.inr ⟨by simp, _, _, rfl⟩))
    have hlast := walk_of_reaches hr true limit [name] (Or.inl rfl)
    rw [if_pos hlimit, h] at hlast
    generalize hleft : limit - links = left at hlast
    cases walked_of_walk hlast.symm with
    | stay _ tail =>
      cases tail with
      | done ends => cases ends
    | up tail =>
      cases tail with
      | done ends => cases ends
    | free _ _ _ ends => cases ends
    | down _ _ tail =>
      cases tail with
      | done ends => cases ends
    | found fits _ _ _ _ ends =>
      cases ends
      exact ⟨front, name, place, links, rfl, fits, hlimit, hr, Or.inl rfl⟩
    | @follow fewer _ _ target _ fits found _ tail =>
      have hon := tail.walk_eq
      rw [List.append_nil] at hon
      exact ⟨front, name, place, links, rfl, fits, hlimit, hr,
        Or.inr ⟨target, fewer, found, by omega, hon⟩⟩

/-- What the last piece names is no temporary file. -/
def LastsIn (spare : String → Prop) (ps : List String) : Prop :=
  ∀ front name, ps = front ++ [name] → Fits name → ¬spare name

theorem lastsIn_of_fileName (h : ∀ name, Path.fileName? path = some name → ¬spare name) :
    LastsIn spare (Path.pieces path) := by
  intro front name hp fits
  have hd : (Path.pieces path).reverse.dropWhile (· == "") = name :: front.reverse := by
    rw [hp, List.reverse_append]
    exact List.dropWhile_cons_of_neg (by simpa using fun he => fits.no_filler (Or.inl he))
  refine h name (Path.fileName?_of_pieces rfl hd ?_)
  rintro (hdot | hup)
  · exact fits.no_filler (Or.inr hdot)
  · exact fits.no_parent hup

/-- A file that a walk comes to is no temporary file, unless the last piece names one, or that of
the target of a link. -/
theorem lasting_of_walk (hlinks : ∀ l target, d.find? l = some (.link target) →
      LastsIn spare (Path.pieces target)) (hps : LastsIn spare ps)
    (h : d.walk true limit here ps = .ok (.found l (.file bytes mode))) : Lasting spare l := by
  induction limit using Nat.strongRecOn generalizing here ps with
  | ind limit ih =>
    obtain ⟨front, name, place, _, rfl, fits, _, _, rfl | ⟨target, fewer, hlink, hfewer, hon⟩⟩ :=
      last_of_walk h
    · intro place' name' heq
      obtain ⟨_, hlast⟩ := List.append_inj' heq rfl
      cases hlast
      exact hps front name rfl fits
    · exact ih fewer hfewer (hlinks _ target hlink) hon

/-- What stood at the place of a file that a walk comes to when there is more on the disk: the same
walk came to it before, or the file is new, or it has been written over. -/
theorem Grows.walk_back (hg : Grows d e) (hsound : d.Sound) (hstrays : ¬d.Strays here ps)
    (h : e.walk true limit here ps = .ok (.found l (.file bytes mode)))
    (hsame : e.find? l = d.find? l) :
    d.walk true limit here ps = .ok (.found l (.file bytes mode)) := by
  have hw := walked_of_walk h
  induction hw with
  | done ends => cases ends
  | stay filler tail ih =>
    rw [walk_congr (stroll_filler filler)]
    exact ih (fun hs => hstrays (.stay filler hs)) tail.walk_eq
  | up tail ih =>
    rw [walk_congr stroll_up]
    exact ih (fun hs => hstrays (.up hs)) tail.walk_eq
  | free _ _ _ ends => cases ends
  | @down _ here piece rest fits hdir tail ih =>
    have hcomes := hg.comes (here ++ [piece])
    rw [hdir] at hcomes
    generalize hbefore : d.find? (here ++ [piece]) = before at hcomes
    cases hcomes with
    | same =>
      rw [walk_of_directory fits hbefore]
      exact ih (fun hs => hstrays (.down fits hbefore hs)) tail.walk_eq
    | made =>
      -- There is nothing but what is new behind a new directory.
      have hup : ".." ∉ rest := fun hmem => hstrays (.free fits hbefore hmem)
      have hlinks : ∀ m target, e.find? (here ++ [piece] ++ m) ≠ some (.link target) := by
        intro m target hlink
        have hold := hg.link hlink
        rw [hsound.free_below hbefore m] at hold
        cases hold
      obtain ⟨m, rfl⟩ := below_of_unlinked hlinks hup tail.walk_eq
      rw [hsound.free_below hbefore m, find?_of_walk h (by simp)] at hsame
      cases hsame
  | found fits found _ _ last ends =>
    subst last
    cases ends
    exact walk_of_file fits (hsame.symm.trans found)
  | follow fits found _ tail ih =>
    have hold := hg.link found
    rw [walk_of_link fits hold (Or.inl rfl)]
    exact ih (fun hs => hstrays (.follow fits hold hs)) tail.walk_eq

/-- A walk that comes to a file comes to one still when there is more on the disk, if none of the
links that were replaced led to a directory. -/
theorem Grows.walk_on (hg : Grows d e)
    (hbars : ∀ l target, d.find? l = some (.link target) → e.find? l ≠ d.find? l → d.Bars l)
    (h : d.walk true limit here ps = .ok (.found l (.file bytes mode))) :
    ∃ l' bytes' mode', e.walk true limit here ps = .ok (.found l' (.file bytes' mode')) := by
  induction walked_of_walk h with
  | done ends => cases ends
  | stay filler tail ih =>
    rw [walk_congr (stroll_filler filler)]
    exact ih tail.walk_eq
  | up tail ih =>
    rw [walk_congr stroll_up]
    exact ih tail.walk_eq
  | free _ _ _ ends => cases ends
  | down fits found tail ih =>
    rw [walk_of_directory fits (hg.stays_directory found)]
    exact ih tail.walk_eq
  | found fits found _ _ last ends =>
    subst last
    cases ends
    obtain ⟨bytes', mode', hthere⟩ := hg.stays_file found
    exact ⟨_, _, _, walk_of_file fits hthere⟩
  | @follow _ here piece target rest fits found _ tail ih =>
    by_cases hsame : e.find? (here ++ [piece]) = d.find? (here ++ [piece])
    · rw [walk_of_link fits (hsame.trans found) (Or.inl rfl)]
      exact ih tail.walk_eq
    · obtain ⟨bytes', mode', hthere⟩ := hg.file_of_link found hsame
      cases rest with
      | nil => exact ⟨_, _, _, walk_of_file fits hthere⟩
      | cons next more =>
        -- There is more behind the link, so that it leads to a directory.
        obtain ⟨links, there, _, hr⟩ :=
          reaches_of_walk tail.walk_eq (Or.inr (Or.inr ⟨by simp, _, _, rfl⟩))
        rw [← @List.dropLast_concat _ here piece] at hr
        exact absurd hr ((hbars _ target found hsame).2 target found links there)

end Files

/-- What is read at a path stands at the place that the path leads to. -/
theorem read_eq_ok_iff {bytes : List UInt8} : d.read path = .ok bytes ↔
    ∃ l mode, d.resolve true path = .ok (.found l (.file bytes mode)) := by
  rw [read_eq_ok]
  constructor
  · rintro ⟨mode, hstat⟩
    obtain ⟨l, hl⟩ := stat_eq_ok.mp hstat
    exact ⟨l, mode, hl⟩
  · rintro ⟨l, mode, hl⟩
    exact ⟨mode, stat_eq_ok.mpr ⟨l, hl⟩⟩

theorem walk_of_resolve {follow : Bool} {a : Arrival} (h : d.resolve follow path = .ok a) :
    pathFault? path = none ∧
      d.walk follow linkLimit (origin d.current path) (Path.pieces path) = .ok a := by
  rw [resolve] at h
  cases hf : pathFault? path with
  | some fault =>
    rw [hf] at h
    cases h
  | none =>
    rw [hf] at h
    exact ⟨rfl, h⟩

theorem resolve_of_walk {follow : Bool} {a : Arrival} (hf : pathFault? path = none)
    (h : d.walk follow linkLimit (origin d.current path) (Path.pieces path) = .ok a) :
    d.resolve follow path = .ok a := by
  rw [resolve, hf]
  exact h

end Disk

namespace Write

open Disk

variable {spare : String → Prop} {ι : Type} [DecidableEq ι] {tasks : ι → Task} {d m : Disk}
  {s : Site ι}

/-- Whatever the writes have come to, the disk has come from what it was by making directories and
writing files. -/
theorem Orderly.grows {stages : ι → Stage} {spots : ι → Location}
    (h : Orderly spare tasks d stages spots s) : Grows d s.disk := by
  refine ⟨h.later.current, fun l => ?_⟩
  by_cases hlasting : Lasting spare l
  · have hbecomes := h.later.becomes l
    rcases h.whole l hlasting with hsame | ⟨hdir, _⟩ | ⟨j, mode, _, hfile⟩
    · rw [hsame]
      exact .same _
    · rw [hdir] at hbecomes ⊢
      generalize d.find? l = x at hbecomes
      cases hbecomes with
      | same => exact .same _
      | new => exact .made
      | temporary _ _ short => exact absurd hlasting short
    · rw [hfile] at hbecomes ⊢
      generalize d.find? l = x at hbecomes
      cases hbecomes with
      | same => exact .same _
      | new => exact .written (by simp) _ _
      | replaced _ ne => exact .written ne _ _
      | temporary _ _ short => exact absurd hlasting short
  · by_cases hthere : d.find? l = none
    · rw [hthere]
      cases hfound : s.disk.find? l with
      | none => exact .same none
      | some entry =>
        cases entry with
        | directory => exact .made
        | file bytes mode => exact .written (by simp) bytes mode
        | link target =>
          rw [h.links l target hfound] at hthere
          cases hthere
    · rw [h.spared l hlasting hthere]
      exact .same _

/-- A path leads to a file that has all of the text of a write to its place. -/
def Written (spare : String → Prop) (tasks : ι → Task) (d m : Disk) (path : String)
    (l : Location) : Prop :=
  ∃ j mode, Named spare tasks d j l ∧
    m.resolve true path = .ok (.found l (.file (Bytes.ofText (tasks j).text) mode))

/-- What readers find on a disk while some writes are being made. -/
structure Untorn (spare : String → Prop) (tasks : ι → Task) (d m : Disk) : Prop where
  /-- At a target is what was there at first, or a file with all of the text of a write to it. -/
  target : ∀ i l, Named spare tasks d i l → m.find? l = d.find? l ∨
    ∃ j mode, Named spare tasks d j l ∧ m.find? l = some (.file (Bytes.ofText (tasks j).text) mode)
  /-- Elsewhere all stays as it was, but for temporary files and directories on the way. -/
  elsewhere : ∀ l, (∀ i, ¬Named spare tasks d i l) → Lasting spare l ∨ d.find? l ≠ none →
    m.find? l = d.find? l ∨ d.find? l = none ∧ m.find? l = some .directory ∧
      ∃ j, Entered spare tasks d j l
  /-- What is read at a path, through whatever links, is all of what stood at first where the path
  leads, or all of the text of a write to that place. -/
  read : ∀ path bytes, (∀ name, Path.fileName? path = some name → ¬spare name) →
    m.read path = .ok bytes → ∃ l mode, m.resolve true path = .ok (.found l (.file bytes mode)) ∧
      (d.find? l = some (.file bytes mode) ∨
        ∃ j, Named spare tasks d j l ∧ bytes = Bytes.ofText (tasks j).text)
  /-- Unless a `..` came behind a name that was missing, the former is what was read at the path
  itself at first, or nothing if it could not be read. -/
  direct : ∀ path, (∀ name, Path.fileName? path = some name → ¬spare name) →
    ¬d.Strays (origin d.current path) (Path.pieces path) →
    (m.read path).toOption = (d.read path).toOption ∨ ∃ l, Written spare tasks d m path l
  /-- The latter is the text of a write to the same target where that was no link at first. -/
  own : ∀ i l, (∀ l' target, Named spare tasks d i l' → d.find? l' ≠ some (.link target)) →
    Written spare tasks d m (tasks i).path l → Named spare tasks d i l

section Readers

variable {stages : ι → Stage} {spots : ι → Location} {path : String} {l : Location}
  {bytes : List UInt8} {mode : Nat}

/-- A file that is not as it was at first has all of the text of a write. -/
theorem Orderly.named_of_file (h : Orderly spare tasks d stages spots s)
    (hfile : s.disk.find? l = some (.file bytes mode)) (hne : s.disk.find? l ≠ d.find? l)
    (hl : Lasting spare l) :
    ∃ j, Named spare tasks d j l ∧ bytes = Bytes.ofText (tasks j).text := by
  rcases h.whole l hl with hsame | ⟨hdir, _⟩ | ⟨j, mode', hnamed, hwritten⟩
  · exact absurd hsame hne
  · rw [hfile] at hdir
    cases hdir
  · rw [hfile] at hwritten
    cases hwritten
    exact ⟨j, hnamed, rfl⟩

theorem Orderly.lasting_of_resolve (h : Orderly spare tasks d stages spots s)
    (hlinks : ∀ l target name, d.find? l = some (.link target) →
      Path.fileName? target = some name → ¬spare name)
    (hpath : ∀ name, Path.fileName? path = some name → ¬spare name)
    (hr : s.disk.resolve true path = .ok (.found l (.file bytes mode))) : Lasting spare l := by
  refine lasting_of_walk ?_ (lastsIn_of_fileName hpath) (walk_of_resolve hr).2
  intro l target hlink
  exact lastsIn_of_fileName (fun name => hlinks l target name (h.links l target hlink))

/-- A link to a directory is left alone if no target is one. -/
theorem Orderly.bars_of_replaced (h : Orderly spare tasks d stages spots s)
    (hbars : ∀ i l target, Named spare tasks d i l → d.find? l = some (.link target) → d.Bars l)
    {target : String} (hlink : d.find? l = some (.link target))
    (hne : s.disk.find? l ≠ d.find? l) : d.Bars l := by
  have hlasting : Lasting spare l := by
    by_contra hshort
    exact hne (h.spared l hshort (by simp [hlink]))
  obtain ⟨_, _, hfile⟩ := h.grows.file_of_link hlink hne
  obtain ⟨j, hnamed, _⟩ := h.named_of_file hfile hne hlasting
  exact hbars j l target hnamed hlink

/-- What a target leads to without a link is what its path names. -/
theorem named_of_resolve {i : ι} (hs : Reachable spare tasks d s)
    (hlinks : ∀ l target, Named spare tasks d i l → s.disk.find? l ≠ some (.link target))
    (hr : s.disk.resolve true (tasks i).path = .ok (.found l (.file bytes mode))) :
    Named spare tasks d i l := by
  obtain ⟨hf, hw⟩ := walk_of_resolve hr
  obtain ⟨front, name, place, links, hp, fits, hlimit, hreach, hlast⟩ := last_of_walk hw
  have hall := hreach.append (.stay (Or.inl rfl) (.here place))
  have hslot := slot_last (d := s.disk) hf hp (fun he => fits.no_filler (Or.inl he))
  rw [walk_to_directory hall hlimit] at hslot
  have hdots : ¬(name = "." ∨ name = "..") := by
    rintro (hdot | hup)
    · exact fits.no_filler (Or.inr hdot)
    · exact fits.no_parent hup
  simp only [if_neg hdots, if_neg fits.short] at hslot
  have hnamed : Named spare tasks d i (place ++ [name]) := ⟨s, false, hs, hslot⟩
  rcases hlast with rfl | ⟨target, _, hlink, _⟩
  · exact hnamed
  · exact absurd hlink (hlinks _ target hnamed)

/-- What is read at a path is what was read there at first, or the text of a write. -/
theorem Orderly.read_direct (h : Orderly spare tasks d stages spots s) (hsound : d.Sound)
    (hlinks : ∀ l target name, d.find? l = some (.link target) →
      Path.fileName? target = some name → ¬spare name)
    (hbars : ∀ i l target, Named spare tasks d i l → d.find? l = some (.link target) → d.Bars l)
    (hpath : ∀ name, Path.fileName? path = some name → ¬spare name)
    (hdirect : ¬d.Strays (origin d.current path) (Path.pieces path)) :
    (s.disk.read path).toOption = (d.read path).toOption ∨
      ∃ l, Written spare tasks d s.disk path l := by
  cases hread : s.disk.read path with
  | ok bytes =>
    obtain ⟨l, mode, hr⟩ := read_eq_ok_iff.mp hread
    obtain ⟨hf, hw⟩ := walk_of_resolve hr
    by_cases hsame : s.disk.find? l = d.find? l
    · rw [h.grows.current] at hw
      have hback := resolve_of_walk hf (h.grows.walk_back hsound hdirect hw hsame)
      rw [read_eq_ok_iff.mpr ⟨l, mode, hback⟩]
      exact Or.inl rfl
    · have hlasting := h.lasting_of_resolve hlinks hpath hr
      obtain ⟨j, hnamed, rfl⟩ := h.named_of_file (find?_of_resolve hr (by simp)) hsame hlasting
      exact Or.inr ⟨l, j, mode, hnamed, hr⟩
  | error fault =>
    cases hbefore : d.read path with
    | error _ => exact Or.inl rfl
    | ok bytes =>
      obtain ⟨l, mode, hr⟩ := read_eq_ok_iff.mp hbefore
      obtain ⟨hf, hw⟩ := walk_of_resolve hr
      rw [← h.grows.current] at hw
      obtain ⟨l', bytes', mode', hon⟩ :=
        h.grows.walk_on (fun l target => h.bars_of_replaced hbars) hw
      rw [read_eq_ok_iff.mpr ⟨l', mode', resolve_of_walk hf hon⟩] at hread
      cases hread

end Readers

/-- However the calls of some writes come in turn, wherever the writes fail or stop: at every moment
readers find what was there at first, or all of the text of a write. -/
theorem untorn_of_reachable (spare : String → Prop) (tasks : ι → Task) (d : Disk) (s : Site ι)
    (hsound : d.Sound) (hseparate : Separate spare tasks d)
    (hlinks : ∀ l target name, d.find? l = some (.link target) →
      Path.fileName? target = some name → ¬spare name)
    (hbars : ∀ i l target, Named spare tasks d i l → d.find? l = some (.link target) → d.Bars l)
    (h : Reachable spare tasks d s) : Untorn spare tasks d s.disk := by
  obtain ⟨stages, spots, horderly⟩ := orderly_of_reachable hseparate.temporary h
  refine ⟨fun i l => whole_of_reachable hseparate h, ?_, ?_, ?_, ?_⟩
  · intro l hnone hl
    by_cases hlasting : Lasting spare l
    · rcases horderly.whole l hlasting with hsame | ⟨hdir, hentered⟩ | ⟨j, _, hnamed, _⟩
      · exact Or.inl hsame
      · have hcomes := horderly.grows.comes l
        rw [hdir] at hcomes
        rw [hdir]
        generalize d.find? l = x at hcomes
        cases hcomes with
        | same => exact Or.inl rfl
        | made => exact Or.inr ⟨rfl, rfl, hentered⟩
      · exact absurd hnamed (hnone j)
    · exact Or.inl (horderly.spared l hlasting (hl.resolve_left hlasting))
  · intro path bytes hpath hread
    obtain ⟨l, mode, hr⟩ := read_eq_ok_iff.mp hread
    have hfound := find?_of_resolve hr (by simp)
    refine ⟨l, mode, hr, ?_⟩
    by_cases hsame : s.disk.find? l = d.find? l
    · rw [← hsame]
      exact Or.inl hfound
    · have hlasting := horderly.lasting_of_resolve hlinks hpath hr
      exact Or.inr (horderly.named_of_file hfound hsame hlasting)
  · intro path hpath hdirect
    exact horderly.read_direct hsound hlinks hbars hpath hdirect
  · rintro i l hlink ⟨j, mode, _, hr⟩
    refine named_of_resolve h (fun l' target hnamed hthere => ?_) hr
    exact hlink l' target hnamed (horderly.links l' target hthere)

section Pairs

def Numbered (name : String) : Prop :=
  ∃ n, name = temporaryName n

theorem not_numbered {name : String} (h : name.toList.head? ≠ some '.') : ¬Numbered name := by
  rintro ⟨n, rfl⟩
  exact h (by simp [temporaryName])

def pair (path other : String) : Bool → Task
  | true => ⟨path, "one"⟩
  | false => ⟨other, "two"⟩

/-- Each target is read at every moment as it was at first, or has all of the text of a write to
the same path. -/
def OwnText (spare : String → Prop) (tasks : ι → Task) (d : Disk) : Prop :=
  ∀ s, Reachable spare tasks d s → ∀ i,
    (s.disk.read (tasks i).path).toOption = (d.read (tasks i).path).toOption ∨
    ∃ j, (tasks j).path = (tasks i).path ∧
      s.disk.read (tasks i).path = .ok (Bytes.ofText (tasks j).text)

theorem not_ownText (i j : ι) (n : Nat) (bytes : List UInt8)
    (hread : (stepped n ((Site.start tasks d).rest j) d).2.read (tasks i).path = .ok bytes)
    (hbefore : d.read (tasks i).path ≠ .ok bytes)
    (hother : ∀ k, (tasks k).path = (tasks i).path → Bytes.ofText (tasks k).text ≠ bytes) :
    ¬OwnText Numbered tasks d := by
  intro hown
  have hspare : ∀ n, Numbered (temporaryName n) := fun n => ⟨n, rfl⟩
  have hreach := reaches_stepped hspare n j (Site.start tasks d)
  rcases hown _ hreach i with hsame | ⟨k, hpath, htext⟩
  · change ((stepped n _ d).2.read _).toOption = _ at hsame
    rw [hread] at hsame
    cases hd : d.read (tasks i).path with
    | error fault =>
      rw [hd] at hsame
      cases hsame
    | ok held =>
      rw [hd] at hsame
      cases hsame
      exact hbefore hd
  · change (stepped n _ d).2.read _ = _ at htext
    rw [hread] at htext
    cases htext
    exact hother k hpath rfl

theorem settled_root {l : Location} (h : m.Settled "/" l) : l = [] := by
  have hroot : m.Settled "/" [] :=
    settled_iff_leads.mpr ⟨by decide, 0, Nat.zero_le _, .here _⟩
  exact h.unique hroot

/-- Files in the root are in no other directory. -/
theorem separate_in_root (d : Disk) : Separate Numbered (pair "/t" "/u") d := by
  constructor
  · intro i name h
    have hname : Path.fileName? (pair "/t" "/u" i).path = some (if i then "t" else "u") := by
      cases i <;> decide +kernel
    rw [hname] at h
    cases h
    apply not_numbered
    cases i <;> decide
  · rintro i j l ⟨_, _, _, hslot⟩ ⟨s, _, directory, hmem, hsettled⟩
    have hup : Path.upward (Path.holder (pair "/t" "/u" j).path) = ["/"] := by
      cases j <;> decide +kernel
    rw [hup, List.mem_singleton] at hmem
    subst hmem
    obtain rfl := settled_root hsettled
    obtain ⟨place, name, hl, _⟩ := fileName?_of_slot hslot
    simp at hl

/-- `/t` is a link to `/u`. -/
def aliased : Disk :=
  ⟨[(["t"], .link "u"), (["u"], .file (Bytes.ofText "old") Entry.defaultMode)], []⟩

theorem mem_of_find? {l : Location} {entry : Entry} (h : d.find? l = some entry)
    (hne : entry ≠ .directory) : (l, entry) ∈ d.entries := by
  rw [find?] at h
  split at h
  · cases h
    exact absurd rfl hne
  · obtain ⟨before, after, heq, _⟩ := List.lookup_eq_some_iff.mp h
    rw [heq]
    simp

theorem link_of_aliased {l : Location} {target : String}
    (h : aliased.find? l = some (.link target)) : l = ["t"] ∧ target = "u" := by
  simpa [aliased] using mem_of_find? h (by simp)

theorem bars_aliased : aliased.Bars ["t"] := by
  refine ⟨by decide +kernel, ?_⟩
  intro target ht links place hr
  obtain ⟨_, rfl⟩ := link_of_aliased ht
  have hu : aliased.find? ["u"] = some (.file (Bytes.ofText "old") Entry.defaultMode) := by
    decide +kernel
  have hpieces : Path.pieces "u" = ["u"] := by decide +kernel
  rw [hpieces] at hr
  change aliased.Reaches [] ["u"] links place at hr
  rcases reaches_cons hr with ⟨filler, _⟩ | ⟨hup, _⟩ | ⟨found, _⟩ | ⟨_, found⟩
  · exact absurd filler (by decide)
  · exact absurd hup (by decide)
  · rw [List.nil_append, hu] at found
    cases found
  · rw [List.nil_append, hu] at found
    cases found

/-- When the second text has been written to `/u`, it is read at `/t` too. -/
theorem untorn_of_reachable_aliased : ∃ s, Reachable Numbered (pair "/t" "/u") aliased s ∧
    s.disk.read "/t" = .ok (Bytes.ofText "two") ∧
    Untorn Numbered (pair "/t" "/u") aliased s.disk := by
  have hspare : ∀ n, Numbered (temporaryName n) := fun n => ⟨n, rfl⟩
  have hreach := reaches_stepped hspare 10 false (Site.start (pair "/t" "/u") aliased)
  refine ⟨_, hreach, by decide +kernel, untorn_of_reachable _ _ _ _ ?_ (separate_in_root _) ?_ ?_
    hreach⟩
  · exact sound_of_entries (by decide +kernel)
  · intro l target name hlink hname
    obtain ⟨_, rfl⟩ := link_of_aliased hlink
    have hu : Path.fileName? "u" = some "u" := by decide +kernel
    rw [hu] at hname
    cases hname
    exact not_numbered (by decide)
  · intro i l target _ hlink
    obtain ⟨rfl, _⟩ := link_of_aliased hlink
    exact bars_aliased

/-- `/t` is a link to the first name that a temporary file is given, which is free. -/
def dangling : Disk :=
  ⟨[(["t"], .link ".tmp0")], []⟩

def lonely : Disk :=
  ⟨[(["f"], .file (Bytes.ofText "old") Entry.defaultMode)], []⟩

/-- Only `/x` and the root are on the way to `/x/../f`. -/
theorem separate_lonely : Separate Numbered (pair "/x/../f" "/x/../f") lonely := by
  have hpath : ∀ i, (pair "/x/../f" "/x/../f" i).path = "/x/../f" := by
    intro i
    cases i <;> rfl
  have hname : Path.fileName? "/x/../f" = some "f" := by decide +kernel
  have htemp : ∀ i name, Path.fileName? (pair "/x/../f" "/x/../f" i).path = some name →
      ¬Numbered name := by
    intro i name h
    rw [hpath, hname] at h
    cases h
    exact not_numbered (by decide)
  refine ⟨htemp, ?_⟩
  rintro i j l ⟨_, _, _, hslot⟩ ⟨s, hs, directory, hmem, hsettled⟩
  obtain ⟨place, name, rfl, hlast⟩ := fileName?_of_slot hslot
  rw [hpath, hname] at hlast
  cases hlast
  obtain ⟨_, _, horderly⟩ := orderly_of_reachable htemp hs
  have hlinks : ∀ l target, s.disk.find? l ≠ some (.link target) := by
    intro l target hlink
    have hmem := mem_of_find? (horderly.links l target hlink) (by simp)
    simp [lonely] at hmem
  have hup : Path.upward (Path.holder "/x/../f") = ["/x/..", "/x", "/"] := by decide +kernel
  rw [hpath, hup] at hmem
  have hx : ∀ rest links there, s.disk.Reaches [] ("x" :: rest) links there →
      s.disk.Reaches ["x"] rest links there := by
    intro rest links there hr
    rcases reaches_cons hr with ⟨hnot, _⟩ | ⟨hnot, _⟩ | ⟨_, hr⟩ | ⟨_, hlink⟩
    · exact absurd hnot (by decide)
    · exact absurd hnot (by decide)
    · exact hr
    · exact absurd hlink (hlinks _ _)
  obtain ⟨_, links, _, hr⟩ := settled_iff_leads.mp hsettled
  simp only [List.mem_cons, List.not_mem_nil, or_false] at hmem
  rcases hmem with rfl | rfl | rfl
  · have hcomponents : Path.components "/x/.." = ["x", ".."] := by decide +kernel
    rw [hcomponents] at hr
    have hend := (hx _ _ _ hr).unique (.up (.here _))
    simp at hend
  · have hcomponents : Path.components "/x" = ["x"] := by decide +kernel
    rw [hcomponents] at hr
    have hend := (hx _ _ _ hr).unique (.here _)
    simpa using congrArg List.getLast? hend
  · simpa using settled_root hsettled

/-- At a target that is a link others read the text of a write to where it leads, or a temporary
file; and a `..` behind a name that was missing comes to lead to what was there. -/
theorem not_ownText_of_links :
    (Separate Numbered (pair "/t" "/u") aliased ∧ ¬OwnText Numbered (pair "/t" "/u") aliased) ∧
    (Separate Numbered (pair "/t" "/u") dangling ∧ ¬OwnText Numbered (pair "/t" "/u") dangling) ∧
    Separate Numbered (pair "/x/../f" "/x/../f") lonely ∧
      ¬OwnText Numbered (pair "/x/../f" "/x/../f") lonely := by
  refine ⟨⟨separate_in_root _, ?_⟩, ⟨separate_in_root _, ?_⟩, separate_lonely, ?_⟩
  · refine not_ownText true false 10 (Bytes.ofText "two") (by decide +kernel) (by decide +kernel) ?_
    decide +kernel
  · refine not_ownText true false 5 [] (by decide +kernel) (by decide +kernel) ?_
    decide +kernel
  · refine not_ownText true false 2 (Bytes.ofText "old") (by decide +kernel) (by decide +kernel) ?_
    decide +kernel

end Pairs

end Write

end CrudLayers
