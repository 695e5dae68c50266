import CrudLayers.Proofs.Missing

namespace CrudLayers

namespace Path

/-- One path lies on the way to another: it starts where that starts, and has the first of its
components. -/
structure Above (parent path : String) : Prop where
  start : isAbsolute parent = isAbsolute path
  components : ∃ more, components path = components parent ++ more
  shape : parent = "/" ∨ parent = "." ∨ Ends parent

theorem Above.trans {parent path child : String} (h : Above parent path) (h' : Above path child) :
    Above parent child := by
  obtain ⟨more, hmore⟩ := h.components
  obtain ⟨rest, hrest⟩ := h'.components
  exact ⟨h.start.trans h'.start, ⟨more ++ rest, by rw [hrest, hmore, List.append_assoc]⟩, h.shape⟩

theorem above_parent? {path parent : String} (h : parent? path = some parent) (hne : parent ≠ "") :
    Above parent path := by
  obtain ⟨hstart, ⟨last, hlast⟩, hshape⟩ := parent?_spec h hne
  exact ⟨hstart, ⟨[last], hlast⟩, hshape⟩

theorem above_upwardFrom {path : String} (hshape : path = "/" ∨ path = "." ∨ Ends path)
    (steps : Nat) : ∀ parent ∈ upwardFrom steps path, Above parent path := by
  induction steps generalizing path with
  | zero => simp [upwardFrom]
  | succ steps ih =>
    intro parent hp
    rw [upwardFrom] at hp
    split at hp
    · cases hp
    rcases List.mem_cons.mp hp with rfl | hp
    · exact ⟨rfl, ⟨[], by simp⟩, hshape⟩
    · cases habove : parent? path with
      | none => simp [habove] at hp
      | some next =>
        simp only [habove] at hp
        by_cases hne : next = ""
        · subst hne
          cases steps <;> simp [upwardFrom] at hp
        · have hnext := above_parent? habove hne
          exact (ih hnext.shape parent hp).trans hnext

/-- The directories that are made on the way to a path lie above it, and are not all of it. -/
theorem above_of_mem_upward {path directory : String} (h : directory ∈ upward (holder path))
    (he : Ends directory) : isAbsolute directory = isAbsolute path ∧
      ∃ more, more ≠ [] ∧ components path = components directory ++ more := by
  have hdot : directory ∉ upward "." := by
    have hlist : upward "." = ["."] := by decide +kernel
    rw [hlist, List.mem_singleton]
    rintro rfl
    revert he
    decide +kernel
  cases hp : parent? path with
  | none =>
    rw [holder, hp] at h
    exact absurd h hdot
  | some parent =>
    by_cases hne : parent = ""
    · rw [holder, hp] at h
      simp only [hne, if_true] at h
      exact absurd h hdot
    · rw [holder, hp] at h
      simp only [if_neg hne] at h
      obtain ⟨hstart, ⟨last, hlast⟩, hshape⟩ := parent?_spec hp hne
      have habove := above_upwardFrom hshape _ directory h
      obtain ⟨more, hmore⟩ := habove.components
      refine ⟨habove.start.trans hstart, more ++ [last], by simp, ?_⟩
      rw [hlast, hmore, List.append_assoc]

theorem shape_holder (path : String) :
    holder path = "/" ∨ holder path = "." ∨ Ends (holder path) := by
  rw [holder]
  cases hp : parent? path with
  | none => exact Or.inr (Or.inl rfl)
  | some parent =>
    by_cases hne : parent = ""
    · simp [hne]
    · simp only [if_neg hne]
      exact (above_parent? hp hne).shape

theorem shape_of_mem_upward {path directory : String} (h : directory ∈ upward (holder path)) :
    directory = "/" ∨ directory = "." ∨ Ends directory :=
  (above_upwardFrom (shape_holder path) _ directory h).shape

/-- The last piece of a path that is not empty names it, unless it is a dot or two. -/
theorem fileName?_of_pieces {path last : String} {backwards front : List String}
    (hp : (pieces path).reverse = backwards) (hd : backwards.dropWhile (· == "") = last :: front)
    (hdots : ¬(last = "." ∨ last = "..")) : fileName? path = some last := by
  have hne : last ≠ "" := by
    have hh := List.head?_dropWhile_not (· == "") backwards
    rw [hd] at hh
    simpa using hh
  have hfiller : ¬(last = "" ∨ last = ".") := by
    rintro (h | h)
    · exact hne h
    · exact hdots (Or.inl h)
  have hbehind : bare (backwards.takeWhile (· == "")).reverse = [] := by
    rw [bare, List.filter_eq_nil_iff]
    intro piece hmem
    have hempty := List.all_eq_true.mp (List.all_takeWhile (p := (· == "")) (l := backwards)) piece
      (List.mem_reverse.mp hmem)
    rw [(isFiller_iff piece).mpr (Or.inl (by simpa using hempty))]
    decide
  have hpieces : pieces path =
      front.reverse ++ [last] ++ (backwards.takeWhile (· == "")).reverse := by
    have hsplit := List.takeWhile_append_dropWhile (p := (· == "")) (l := backwards)
    rw [hd] at hsplit
    have hrev := congrArg List.reverse hsplit
    rw [← hp, List.reverse_reverse] at hrev
    rw [← hrev]
    simp [hp]
  rw [fileName?, components_eq, hpieces, bare_append, hbehind, List.append_nil, bare_append,
    bare_name hfiller]
  simpa [bare] using fun h => hdots (Or.inr h)

end Path

namespace Disk

variable {d e : Disk} {path directory name : String} {place : Location}

theorem slot_slash (d : Disk) : d.slot "/" = .ok .directory := rfl

theorem slot_dot (d : Disk) : d.slot "." = .ok .directory := by
  have hlast := @slot_last d "." [] "." (by decide +kernel) (by decide +kernel) (by decide)
  have hhere : d.Reaches (origin d.current ".") ([] ++ [""]) 0 (origin d.current ".") :=
    .stay (Or.inl rfl) (.here _)
  rw [hlast, walk_to_directory hhere (Nat.zero_le _)]
  rfl

/-- The start of a path cannot be made. -/
theorem ends_of_makeDirectory (hshape : path = "/" ∨ path = "." ∨ Path.Ends path)
    (h : d.makeDirectory path = .ok e) : Path.Ends path := by
  rcases hshape with rfl | rfl | hends
  · rw [makeDirectory, make, slot_slash] at h
    cases h
  · rw [makeDirectory, make, slot_dot] at h
    cases h
  · exact hends

/-- Nothing is made on the way to a directory that is there, however its path ends. -/
theorem onDisk_makeDirectories_settled (hshape : path = "/" ∨ path = "." ∨ Path.Ends path)
    (h : d.Settled path place) : (Write.makeDirectories path).onDisk d = (.ok (), d) := by
  obtain ⟨fault, hne, hfault, hmade⟩ :
      ∃ fault, path ≠ "" ∧ fault ≠ .noEntry ∧ d.makeDirectory path = .error fault := by
    rcases hshape with rfl | rfl | hends
    · exact ⟨.occupied, by decide, by decide, by rw [makeDirectory, make, slot_slash]; rfl⟩
    · exact ⟨.occupied, by decide, by decide, by rw [makeDirectory, make, slot_dot]; rfl⟩
    · obtain ⟨_, _, _, hc, _⟩ := ends_pieces hends
      have hleads := (settled_iff_leads.mp h).2
      rw [hc] at hleads
      obtain ⟨_, _, hfront, _⟩ := hleads.split
      obtain ⟨fault, hmade⟩ := makeDirectory_of_settled hends h
      refine ⟨fault, hends.ne_empty, ?_, hmade⟩
      rintro rfl
      exact makeDirectory_ne_noEntry hends hc hfront hmade
  exact Write.onDisk_makeDirectories_refused hne hmade hfault h

/-- A directory that is made is new, and its path leads to it; that path ends in a name. -/
theorem settled_of_makeDirectory (he : Path.Ends path) (h : d.makeDirectory path = .ok e) :
    ∃ l, l ≠ [] ∧ d.find? l = none ∧ e = d.put l .directory ∧ e.Settled path l ∧
      ∃ names last, Path.components path = names ++ [last] ∧ Fits last := by
  obtain ⟨hf, names, last, place, hc, hfits, ⟨links, hlimit, hr⟩, hfree, rfl⟩ :=
    put_of_makeDirectory he h
  refine ⟨place ++ [last], by simp, hfree, rfl, settled_iff_leads.mpr ⟨hf, links, hlimit, ?_⟩,
    names, last, hc, hfits⟩
  rw [hc]
  have hfront := hr.update (bars_of_none hfree)
    (fun m hm => find?_put_other d Entry.directory hm)
  exact hfront.append (.down hfits (find?_put_self d _ (by simp)) (.here _))

theorem enters_of_leads {names : List String} (hf : pathFault? path = none)
    (he : Path.EndsInName path) (hc : Path.components path = names ++ [name]) (hfits : Fits name)
    (hl : d.Leads path names place) : d.Enters path place name := by
  obtain ⟨front, last, hn, hp⟩ := he.pieces_eq
  rw [Path.components_eq, hp, Path.bare_append, Path.bare_name hn.not_filler] at hc
  obtain ⟨rfl, hlast⟩ := List.append_inj' hc rfl
  cases hlast
  obtain ⟨links, hlimit, hr⟩ := hl
  exact ⟨hf, hn, hfits.short, front, links, hp, hlimit, hr.respell (Path.bare_bare front).symm⟩

/-- The walk to a path goes through the directory that receives its last component, if that is
there and the path is not too long. -/
theorem Settled.enters_of_holder (h : d.Settled (Path.holder path) place)
    (he : Path.EndsInName path)
    (hfault : ∀ fault, d.resolve true path = .error fault → fault = .noEntry) :
    ∃ name, d.Enters path place name := by
  obtain ⟨hstart, last, hc⟩ := he.ends.holder_spec
  obtain ⟨front, name, hn, hp⟩ := he.pieces_eq
  obtain ⟨links, hlimit, hr⟩ := (leads_congr hstart).mp (settled_iff_leads.mp h).2
  have hfit : pathFault? path = none := by
    cases hf : pathFault? path with
    | none => rfl
    | some fault =>
      have hno := hfault fault (by rw [resolve, hf])
      subst hno
      exact absurd hf (pathFault?_ne_noEntry he.ends.ne_empty)
  have hfront : d.Reaches (origin d.current path) front links place := by
    rw [Path.components_eq path, hp, Path.bare_append, Path.bare_name hn.not_filler] at hc
    refine hr.respell ?_
    rw [← (List.append_inj' hc rfl).1, Path.bare_bare]
  refine ⟨name, hfit, hn, fun hlong => ?_, front, links, hp, hlimit, hfront⟩
  have hwalk := walk_of_reaches hfront true linkLimit [name] (Or.inl rfl)
  have hstroll : d.stroll true place [name] = .error .nameTooLong := by
    rw [stroll, if_neg hn.not_filler, if_neg hn.no_parent, if_pos hlong]
  rw [if_pos hlimit, walk_error hstroll] at hwalk
  cases hfault .nameTooLong (by rw [resolve, hfit, hp]; exact hwalk)

/-- What is made under a joined name is put at that name, free before, in the directory that the
walk comes to. -/
theorem put_of_make_join {entry : Entry} (hn : Path.IsName name)
    (h : d.make (Path.join directory name) entry = .ok e) :
    ∃ place, d.Enters (Path.join directory name) place name ∧
      d.find? (place ++ [name]) = none ∧ e = d.put (place ++ [name]) entry := by
  cases hs : d.slot (Path.join directory name) with
  | error fault =>
    rw [make, hs] at h
    cases h
  | ok slot =>
    have hends := hn.endsInName_join directory
    obtain ⟨hf, names, last, place, hc, hleads, rfl | ⟨hfits, rfl⟩⟩ := slot_of_ends hends.ends hs
    · rw [make, hs] at h
      cases h
    · have hlast : last = name := by
        rw [Path.components_join hn] at hc
        simpa using (List.append_inj' hc rfl).2.symm
      subst hlast
      rw [make_of_slot hs] at h
      split at h
      · cases h
      rename_i hfree
      rw [if_neg (fun hslash => absurd hslash.1 (by decide))] at h
      cases h
      exact ⟨place, enters_of_leads hf hends hc hfits hleads, by simpa using hfree, rfl⟩

/-- What a path names stands under its last piece that is not empty, and that is no dot or two. -/
theorem last_of_slot {slash : Bool} {l : Location} (h : d.slot path = .ok (.name l slash)) :
    ∃ place name front, (Path.pieces path).reverse.dropWhile (· == "") = name :: front ∧
      l = place ++ [name] ∧ ¬(name = "." ∨ name = "..") ∧
      slash = ((Path.pieces path).reverse.head? == some "") := by
  have hf := pathFault?_of_slot h
  rw [slot, hf] at h
  cases hd : (Path.pieces path).reverse.dropWhile (· == "") with
  | nil =>
    simp only [hd] at h
    cases h
  | cons last front =>
    simp only [hd] at h
    cases hw : d.walk true linkLimit (origin d.current path) (front.reverse ++ [""]) with
    | error fault =>
      rw [hw] at h
      cases h
    | ok a =>
      rw [hw] at h
      cases a with
      | free place slash => cases h
      | found place entry =>
        simp only [ok_bind] at h
        split at h
        · cases h
        split at h
        · cases h
        · rename_i hdots _
          cases h
          exact ⟨place, last, front, rfl, rfl, hdots, rfl⟩

/-- A path that names something with no slash behind it ends in that name. -/
theorem endsInName_of_slot {l : Location} (h : d.slot path = .ok (.name l false)) :
    Path.EndsInName path := by
  obtain ⟨_, name, front, hd, _, hdots, hhead⟩ := last_of_slot h
  cases hp : (Path.pieces path).reverse with
  | nil =>
    rw [hp] at hd
    cases hd
  | cons piece rest =>
    rw [hp] at hd hhead
    have hpiece : piece ≠ "" := by simpa using hhead
    rw [List.dropWhile_cons_of_neg (by simpa using hpiece)] at hd
    cases hd
    have hpieces : Path.pieces path = front.reverse ++ [name] := by
      rw [← List.reverse_reverse (Path.pieces path), hp, List.reverse_cons]
    refine Path.endsInName_of_pieces hpieces ?_ (fun hup => hdots (Or.inr hup))
    rintro (hempty | hdot)
    · exact hpiece hempty
    · exact hdots (Or.inl hdot)

/-- The place that a path names is under the last name of the path. -/
theorem fileName?_of_slot {slash : Bool} {l : Location} (h : d.slot path = .ok (.name l slash)) :
    ∃ place name, l = place ++ [name] ∧ Path.fileName? path = some name := by
  obtain ⟨place, name, front, hd, hl, hdots, _⟩ := last_of_slot h
  exact ⟨place, name, hl, Path.fileName?_of_pieces rfl hd hdots⟩

end Disk

end CrudLayers
