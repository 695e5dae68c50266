import CrudLayers.Proofs.Rollback

namespace CrudLayers.Write

open Disk

variable {d e m : Disk} {path text : String} {spare : String → Prop} {place : Location}

/-- The disk after a write that has succeeded: directories were made on the way, and the text was
put where the path then led. -/
def Published (path text : String) (d : Disk) (place : Location) (e : Disk) : Prop :=
  ∃ base holder name mode, Grown path d base ∧ base.Enters path holder name ∧
    place = holder ++ [name] ∧ base.find? place ≠ some .directory ∧
    e = base.put place (.file (Bytes.ofText text) mode)

/-- The path of the target leads where it led before the temporary file was there. -/
theorem enters_of_slot_put {spot finish : Location} {slash : Bool} {bytes : List UInt8} {mode : Nat}
    (he : Path.EndsInName path) (hspot : spot ≠ [])
    (hs : (d.put spot (.file bytes mode)).slot path = .ok (.name finish slash)) :
    ∃ holder name, d.Enters path holder name ∧ finish = holder ++ [name] := by
  obtain ⟨hf, names, last, holder, hc, ⟨links, hlimit, hr⟩, hdir | ⟨hfits, heq⟩⟩ :=
    slot_of_ends he.ends hs
  · cases hdir
  · cases heq
    have hbars := bars_of_file (find?_put_self d (.file bytes mode) hspot)
    have hback := hr.update hbars (fun m hm => (find?_put_other d _ hm).symm)
    exact ⟨holder, last, enters_of_leads hf he hc hfits ⟨links, hlimit, hback⟩, rfl⟩

/-- A file that takes the target's name is put there, and nothing is left at the free name that it
had before. -/
theorem put_of_rename {temporary spotName : String} {spotHolder : Location} {bytes : List UInt8}
    {mode : Nat} (henters : d.Enters temporary spotHolder spotName)
    (hfree : d.find? (spotHolder ++ [spotName]) = none)
    (h : (d.put (spotHolder ++ [spotName]) (.file bytes mode)).rename temporary path = .ok e) :
    ∃ holder name, d.Enters path holder name ∧ d.find? (holder ++ [name]) ≠ some .directory ∧
      e = d.put (holder ++ [name]) (.file bytes mode) := by
  have hspot : spotHolder ++ [spotName] ≠ [] := by simp
  have hfilled := henters.put (bars_of_none hfree) (.file bytes mode)
  obtain ⟨finish, hslot, hover⟩ := slot_of_rename h
  obtain ⟨holder, name, hbase, rfl⟩ :=
    enters_of_slot_put (endsInName_of_slot hslot) hspot hslot
  have htarget := hbase.put (bars_of_none hfree) (.file bytes mode)
  have hself := find?_put_self d (.file bytes mode) hspot
  rw [hfilled.rename_over htarget hself hover, erase_put, erase_of_free hspot hfree] at h
  cases h
  refine ⟨holder, name, hbase, ?_, rfl⟩
  by_cases hsame : holder ++ [name] = spotHolder ++ [spotName]
  · rw [hsame, hfree]
    exact Option.some_ne_none _ ∘ Eq.symm
  · rwa [find?_put_other d _ hsame] at hover

/-- A rename in which a filled temporary file takes the target's name publishes its text. -/
theorem Undoable.publish {temporary : String}
    (h : Undoable path d (.filling temporary (Bytes.ofText text)) m)
    (hm : m.rename temporary path = .ok e) : ∃ place, Published path text d place e := by
  obtain ⟨base, _, _, mode, hgrown, henters, hfree, rfl⟩ := h
  obtain ⟨holder, name, hbase, hover, rfl⟩ := put_of_rename henters hfree hm
  exact ⟨_, base, holder, name, mode, hgrown, hbase, rfl, hover, rfl⟩

/-- A run that ends with a status has published the text. -/
theorem Undoable.published {stage : Stage} {p : Program (Except PathFault WriteStatus)}
    {status : WriteStatus} (h : Undoable path d stage m)
    (hdone : stage = .renamed → ∃ place, Published path text d place m)
    (hp : AtStage path text stage p) (hr : p.Runs spare m (.ok status) e) :
    ∃ place, Published path text d place e := by
  generalize hreply : Except.ok status = reply at hr
  induction hr generalizing stage with
  | done a m =>
    subst hreply
    cases hp
    exact hdone rfl
  | ask replied tail ih =>
    obtain ⟨after, hnext, hmove⟩ := hp.move replied
    refine ih (h.move hmove) ?_ hnext hreply
    rintro rfl
    cases hmove with
    | stay => exact hdone rfl
    | publish moved => exact h.publish moved

/-- What a run may do to a place that it has no file to write to: nothing, unless it makes a
directory where there was nothing. -/
def Untouched (d e : Disk) (l : Location) : Prop :=
  e.find? l = d.find? l ∨ d.find? l = none ∧ e.find? l = some .directory

theorem Untouched.refl (d : Disk) (l : Location) : Untouched d d l :=
  Or.inl rfl

theorem Untouched.trans {l : Location} (h : Untouched d m l) (h' : Untouched m e l) :
    Untouched d e l := by
  rcases h with hsame | ⟨hfree, hdir⟩
  · rwa [Untouched, hsame] at h'
  · rcases h' with hsame | ⟨hfree', _⟩
    · exact Or.inr ⟨hfree, hsame.trans hdir⟩
    · rw [hdir] at hfree'
      cases hfree'

theorem Grown.untouched (h : Grown path d e) (l : Location) : Untouched d e l := by
  by_cases hfree : d.find? l = none
  · by_cases hfree' : e.find? l = none
    · exact Or.inl (hfree'.trans hfree.symm)
    · exact Or.inr ⟨hfree, (h.made l hfree hfree').1⟩
  · exact Or.inl (h.keeps l hfree)

theorem Published.untouched (h : Published path text d place e) {l : Location} (hl : l ≠ place) :
    Untouched d e l := by
  obtain ⟨base, _, _, mode, hgrown, _, _, _, rfl⟩ := h
  rw [Untouched, find?_put_other base _ hl]
  exact hgrown.untouched l

/-- The text stands at the place, under the name that ends the path. -/
theorem Published.found (h : Published path text d place e) :
    (∃ mode, e.find? place = some (.file (Bytes.ofText text) mode)) ∧
      ∃ holder name, place = holder ++ [name] ∧ Path.fileName? path = some name := by
  obtain ⟨base, holder, name, mode, _, henters, rfl, _, rfl⟩ := h
  obtain ⟨front, _, hp, _⟩ := henters.reaches
  refine ⟨⟨mode, find?_put_self base _ (by simp)⟩, holder, name, rfl, ?_⟩
  have hreverse : (Path.pieces path).reverse = name :: front.reverse := by rw [hp]; simp
  have hlast : (name :: front.reverse).dropWhile (· == "") = name :: front.reverse :=
    List.dropWhile_cons_of_neg (by simpa using henters.isName.ne_empty)
  exact Path.fileName?_of_pieces hreverse hlast henters.isName.not_dots

end CrudLayers.Write
