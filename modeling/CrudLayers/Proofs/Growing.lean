import CrudLayers.Proofs.Missing

namespace CrudLayers

namespace Disk

variable {d e : Disk} {path : String} {here place : Location}

section Growing

/-- What is found on the first disk is found on the second too. -/
def Keeps (d e : Disk) : Prop :=
  ∀ l, d.find? l ≠ none → e.find? l = d.find? l

theorem Keeps.find? {l : Location} {entry : Entry} (hk : Keeps d e)
    (h : d.find? l = some entry) : e.find? l = some entry := by
  rw [hk l (by rw [h]; exact Option.some_ne_none _), h]

theorem Keeps.reaches {ps : List String} {links : Nat} (hk : Keeps d e)
    (h : d.Reaches here ps links place) : e.Reaches here ps links place := by
  induction h with
  | here place => exact .here place
  | stay filler tail ih => exact .stay filler ih
  | up tail ih => exact .up ih
  | down fits found tail ih => exact .down fits (hk.find? found) ih
  | follow fits found tail ih => exact .follow fits (hk.find? found) ih

/-- A stroll that stops at what is there, or at a link, goes the same way when more is there. -/
theorem Keeps.stroll {follow : Bool} {ps : List String} {stop : Stop} (hk : Keeps d e)
    (h : d.stroll follow here ps = .ok stop)
    (hfound : ∀ l slash, stop ≠ .arrival (.free l slash)) :
    e.stroll follow here ps = .ok stop := by
  induction ps generalizing here with
  | nil => exact h
  | cons piece rest ih =>
    by_cases hf : piece = "" ∨ piece = "."
    · rw [stroll_filler hf] at h ⊢
      exact ih h
    by_cases hp : piece = ".."
    · subst hp
      rw [stroll_up] at h ⊢
      exact ih h
    by_cases hs : piece.utf8ByteSize > longestName
    · rw [Disk.stroll, if_neg hf, if_neg hp, if_pos hs] at h
      cases h
    have fits : Fits piece := ⟨hf, hp, hs⟩
    rw [stroll_name fits] at h ⊢
    cases hfind : d.find? (here ++ [piece]) with
    | none =>
      simp only [hfind] at h
      split at h
      · cases h
        exact absurd rfl (hfound _ _)
      · cases h
    | some entry =>
      rw [hk.find? hfind]
      rw [hfind] at h
      cases entry with
      | directory => exact ih h
      | file bytes mode => exact h
      | link target => exact h

/-- What a walk finds it still finds when more is there. -/
theorem Keeps.walk {follow : Bool} {limit : Nat} {ps : List String} {l : Location} {entry : Entry}
    (hk : Keeps d e) (h : d.walk follow limit here ps = .ok (.found l entry)) :
    e.walk follow limit here ps = .ok (.found l entry) := by
  induction limit using Nat.strongRecOn generalizing here ps with
  | ind limit ih =>
    cases hs : d.stroll follow here ps with
    | error fault =>
      rw [walk_error hs] at h
      cases h
    | ok stop =>
      cases stop with
      | arrival a =>
        rw [walk_arrival hs] at h
        cases h
        exact walk_arrival (hk.stroll hs (by simp))
      | link holder target rest =>
        cases limit with
        | zero =>
          rw [Disk.walk, hs] at h
          cases h
        | succ limit =>
          rw [walk_link_succ hs] at h
          rw [walk_link_succ (hk.stroll hs (by simp))]
          exact ih limit (Nat.lt_succ_self _) h

theorem Keeps.resolve {follow : Bool} {l : Location} {entry : Entry} (hk : Keeps d e)
    (hcurrent : e.current = d.current) (h : d.resolve follow path = .ok (.found l entry)) :
    e.resolve follow path = .ok (.found l entry) := by
  rw [Disk.resolve] at h ⊢
  cases hf : pathFault? path with
  | some fault =>
    rw [hf] at h
    cases h
  | none =>
    rw [hf] at h
    rw [hcurrent]
    exact hk.walk h

/-- Where there are only directories, a walk without `..` ends below its start. -/
theorem below_of_walk {follow : Bool} {limit : Nat} {ps : List String} {l : Location}
    {entry : Entry}
    (hhere : d.find? here = some .directory)
    (hbelow : ∀ m, d.find? (here ++ m) ≠ none → d.find? (here ++ m) = some .directory)
    (hup : ".." ∉ ps) (h : d.walk follow limit here ps = .ok (.found l entry)) :
    l = here ++ Path.bare ps ∧ d.find? l = some .directory := by
  induction ps generalizing here with
  | nil =>
    have harrival : d.stroll follow here [] = .ok (.arrival (.found here .directory)) := rfl
    rw [walk_arrival harrival] at h
    cases h
    exact ⟨by simp [Path.bare], hhere⟩
  | cons piece rest ih =>
    rw [List.mem_cons, not_or] at hup
    by_cases hf : piece = "" ∨ piece = "."
    · rw [walk_congr (stroll_filler hf)] at h
      rw [Path.bare_filler hf]
      exact ih hhere hbelow hup.2 h
    by_cases hs : piece.utf8ByteSize > longestName
    · have hlong : d.stroll follow here (piece :: rest) = .error .nameTooLong := by
        rw [Disk.stroll, if_neg hf, if_neg (fun he => hup.1 he.symm), if_pos hs]
      rw [walk_error hlong] at h
      cases h
    have hname := @stroll_name d follow here _ rest ⟨hf, fun he => hup.1 he.symm, hs⟩
    cases hfind : d.find? (here ++ [piece]) with
    | none =>
      simp only [hfind] at hname
      split at hname
      · rw [walk_arrival hname] at h
        cases h
      · rw [walk_error hname] at h
        cases h
    | some found =>
      have hdir := hbelow [piece] (by rw [hfind]; exact Option.some_ne_none _)
      rw [hdir] at hname
      rw [walk_congr hname] at h
      rw [Path.bare_name hf, ← List.singleton_append, ← List.append_assoc]
      refine ih hdir ?_ hup.2 h
      intro m hm
      rw [List.append_assoc] at hm ⊢
      exact hbelow _ hm

theorem Reaches.ends_below {ps : List String} {links : Nat} (h : d.Reaches here ps links place)
    (hhere : d.find? here = some .directory)
    (hbelow : ∀ m, d.find? (here ++ m) ≠ none → d.find? (here ++ m) = some .directory)
    (hup : ".." ∉ ps) : place = here ++ Path.bare ps :=
  (below_of_walk hhere hbelow hup (walk_to_directory h (Nat.le_refl links))).1

/-- Behind a directory in which there are only directories, a path without `..` ends below it. -/
theorem Settled.below {follow : Bool} {directory : String} {more : List String} {l found : Location}
    {entry : Entry} (h : d.Settled directory l)
    (hstart : Path.isAbsolute directory = Path.isAbsolute path)
    (hmore : Path.components path = Path.components directory ++ more) (hne : more ≠ [])
    (hup : ".." ∉ more) (hdir : d.find? l = some .directory)
    (hbelow : ∀ m, d.find? (l ++ m) ≠ none → d.find? (l ++ m) = some .directory)
    (hr : d.resolve follow path = .ok (.found found entry)) :
    found = l ++ more ∧ d.find? found = some .directory := by
  rw [Path.components_eq path] at hmore
  obtain ⟨front, back, hpieces, hfront, hback⟩ := List.filter_eq_append_iff.mp hmore
  obtain ⟨links, hlimit, hreach⟩ := (leads_congr hstart).mp (settled_iff_leads.mp h).2
  have hfront' : d.Reaches (Disk.origin d.current path) front links l := by
    refine hreach.respell ?_
    rw [← hfront, ← Path.bare, Path.bare_bare]
  have hnonempty : back ≠ [] := by
    rintro rfl
    exact hne hback.symm
  have hup' : ".." ∉ back := by
    intro hmem
    apply hup
    rw [← hback]
    exact List.mem_filter.mpr ⟨hmem, by decide⟩
  rw [Disk.resolve] at hr
  cases hf : pathFault? path with
  | some fault =>
    rw [hf] at hr
    cases hr
  | none =>
    rw [hf, hpieces] at hr
    simp only [walk_of_reaches hfront' follow linkLimit back (Or.inr hnonempty),
      if_pos hlimit] at hr
    have hbare : Path.bare back = more := hback
    rw [← hbare]
    exact below_of_walk hdir hbelow hup' hr

end Growing

section Directories

theorem Sound.dropLast (h : d.Sound) {l : Location} (hl : d.find? l = some .directory) :
    d.find? l.dropLast = some .directory := by
  cases l using List.reverseRecOn with
  | nil => exact hl
  | append_singleton front name =>
    rw [List.dropLast_concat]
    exact h front name (by rw [hl]; exact Option.some_ne_none _)

theorem directory_of_origin (hhere : d.find? here = some .directory) (target : String) :
    d.find? (origin here target) = some .directory := by
  rw [origin]
  split
  · exact d.find?_root
  · exact hhere

/-- A walk from a directory comes to a directory. -/
theorem Sound.directory_of_reaches {ps : List String} {links : Nat} (h : d.Sound)
    (hr : d.Reaches here ps links place) (hhere : d.find? here = some .directory) :
    d.find? place = some .directory := by
  induction hr with
  | here place => exact hhere
  | stay filler tail ih => exact ih hhere
  | up tail ih => exact ih (h.dropLast hhere)
  | down fits found tail ih => exact ih found
  | @follow here place piece target rest links fits found tail ih =>
    have hholder := h here piece (by rw [found]; exact Option.some_ne_none _)
    exact ih (directory_of_origin hholder target)

/-- A walk that ends by looking up a name comes to a directory, wherever it started. -/
theorem Sound.directory_of_last {names : List String} {last : String} {links : Nat} (h : d.Sound)
    (hfits : Fits last) (hr : d.Reaches here (names ++ [last]) links place) :
    d.find? place = some .directory := by
  obtain ⟨_, _, middle, _, _, hlast⟩ := hr.split rfl
  cases hlast with
  | stay filler tail => exact absurd filler hfits.no_filler
  | up tail => exact absurd rfl hfits.no_parent
  | down fits found tail => exact h.directory_of_reaches tail found
  | follow fits found tail =>
    have hmiddle := h middle last (by rw [found]; exact Option.some_ne_none _)
    exact h.directory_of_reaches tail (directory_of_origin hmiddle _)

end Directories

end Disk

end CrudLayers
