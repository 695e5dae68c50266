import CrudLayers.Proofs.Making
import CrudLayers.Proofs.Stages

namespace CrudLayers

namespace Disk

variable {spare : String → Prop} {d e f : Disk} {path name : String} {here place l : Location}

/-- The place has no name that a temporary file may be given. -/
def Lasting (spare : String → Prop) (l : Location) : Prop :=
  ∀ place name, l = place ++ [name] → ¬spare name

theorem not_lasting (h : spare name) (place : Location) : ¬Lasting spare (place ++ [name]) :=
  fun hl => hl place name rfl h

inductive Becomes (spare : String → Prop) (l : Location) : Option Entry → Option Entry → Prop where
  | same (x : Option Entry) : Becomes spare l x x
  | new (y : Option Entry) : Becomes spare l none y
  | replaced {x : Option Entry} (lasting : Lasting spare l) (ne : x ≠ some .directory)
      (bytes : List UInt8) (mode : Nat) : Becomes spare l x (some (.file bytes mode))
  | temporary (bytes : List UInt8) (mode : Nat) (short : ¬Lasting spare l) (y : Option Entry) :
      Becomes spare l (some (.file bytes mode)) y

theorem Becomes.trans {x y z : Option Entry} (h : Becomes spare l x y) (h' : Becomes spare l y z) :
    Becomes spare l x z := by
  cases h with
  | same => exact h'
  | new => exact .new z
  | temporary bytes mode short => exact .temporary bytes mode short z
  | replaced lasting ne bytes mode =>
    cases h' with
    | same => exact .replaced lasting ne bytes mode
    | replaced _ _ bytes mode => exact .replaced lasting ne bytes mode
    | temporary _ _ short => exact absurd lasting short

/-- The second disk may have come from the first by writes. -/
structure Later (spare : String → Prop) (d e : Disk) : Prop where
  current : e.current = d.current
  becomes : ∀ l, Becomes spare l (d.find? l) (e.find? l)

theorem Later.refl (spare : String → Prop) (d : Disk) : Later spare d d :=
  ⟨rfl, fun _ => .same _⟩

theorem Later.trans (h : Later spare d e) (h' : Later spare e f) : Later spare d f :=
  ⟨h'.current.trans h.current, fun l => (h.becomes l).trans (h'.becomes l)⟩

theorem Later.directory (h : Later spare d e) (hl : d.find? l = some .directory) :
    e.find? l = some .directory := by
  have hb := h.becomes l
  rw [hl] at hb
  generalize e.find? l = y at hb
  cases hb with
  | same => rfl
  | replaced _ ne => exact absurd rfl ne

theorem Later.link {target : String} (h : Later spare d e) (hl : d.find? l = some (.link target)) :
    e.find? l = some (.link target) ∨ ∃ bytes mode, e.find? l = some (.file bytes mode) := by
  have hb := h.becomes l
  rw [hl] at hb
  generalize e.find? l = y at hb
  cases hb with
  | same => exact Or.inl rfl
  | replaced _ _ bytes mode => exact Or.inr ⟨bytes, mode, rfl⟩

/-- No directory becomes a link, and no link a directory or another link. -/
theorem Later.alike (h : Later spare d e) : Alike d e := by
  refine ⟨?_, ?_, ?_⟩
  · intro l target hdir
    rw [h.directory hdir]
    exact nofun
  · intro l target hlink hdir
    rcases h.link hlink with hsame | ⟨_, _, hfile⟩
    · rw [hsame] at hdir
      cases hdir
    · rw [hfile] at hdir
      cases hdir
  · intro l target other hlink hother
    rcases h.link hlink with hsame | ⟨_, _, hfile⟩
    · rw [hsame] at hother
      cases hother
      rfl
    · rw [hfile] at hother
      cases hother

section Changes

theorem later_put_free (hfree : d.find? l = none) (entry : Entry) :
    Later spare d (d.put l entry) := by
  refine ⟨rfl, fun m => ?_⟩
  by_cases hm : m = l
  · subst hm
    rw [hfree]
    exact .new _
  · rw [find?_put_other d entry hm]
    exact .same _

theorem later_put_lasting (hl : l ≠ []) (hlasting : Lasting spare l)
    (hdir : d.find? l ≠ some .directory) (bytes : List UInt8) (mode : Nat) :
    Later spare d (d.put l (.file bytes mode)) := by
  refine ⟨rfl, fun m => ?_⟩
  by_cases hm : m = l
  · subst hm
    rw [find?_put_self d _ hl]
    exact .replaced hlasting hdir bytes mode
  · rw [find?_put_other d _ hm]
    exact .same _

theorem later_put_temporary {bytes : List UInt8} {mode : Nat} (hshort : ¬Lasting spare l)
    (hfile : d.find? l = some (.file bytes mode)) (entry : Entry) :
    Later spare d (d.put l entry) := by
  refine ⟨rfl, fun m => ?_⟩
  by_cases hm : m = l
  · subst hm
    rw [hfile]
    exact .temporary bytes mode hshort _
  · rw [find?_put_other d entry hm]
    exact .same _

theorem later_erase_temporary {bytes : List UInt8} {mode : Nat} (hshort : ¬Lasting spare l)
    (hfile : d.find? l = some (.file bytes mode)) : Later spare d (d.erase l) := by
  refine ⟨rfl, fun m => ?_⟩
  by_cases hm : m = l
  · subst hm
    rw [hfile]
    exact .temporary bytes mode hshort _
  · rw [find?_erase_other d hm]
    exact .same _

end Changes

/-- A walk that gets as far as the last name of a path has come to the directory that it came to
before. -/
theorem Later.enters_of_walk {follow : Bool} {front rest : List String} {a : Arrival}
    (h : Later spare d e) (hd : d.Enters path place name) (hp : Path.pieces path = front ++ [name])
    (hw : e.walk follow linkLimit (origin e.current path) (front ++ rest) = .ok a)
    (ha : Beyond a rest) : e.Enters path place name := by
  obtain ⟨front', i, hp', _, hr⟩ := hd.reaches
  obtain ⟨rfl, _⟩ := List.append_inj' (hp.symm.trans hp') rfl
  obtain ⟨links, there, hlimit, hr'⟩ := reaches_of_walk hw ha
  have hsame := hr'
  rw [h.current] at hsame
  rw [← h.alike.place_eq hr hsame] at hr'
  exact ⟨hd.fit, hd.isName, hd.short, front, links, hp, hlimit, hr'⟩

theorem Later.enters_of_resolve {follow : Bool} {a : Arrival} (h : Later spare d e)
    (hd : d.Enters path place name) (hr : e.resolve follow path = .ok a) :
    e.Enters path place name := by
  obtain ⟨front, _, hp, _⟩ := hd.reaches
  rw [resolve, hd.fit, hp] at hr
  have hne : [name].all (· == "") = false := by simpa using hd.isName.ne_empty
  exact h.enters_of_walk hd hp hr (Or.inr (Or.inl hne))

theorem Later.enters_of_slot {slot : Slot} (h : Later spare d e) (hd : d.Enters path place name)
    (hs : e.slot path = .ok slot) : e.Enters path place name := by
  obtain ⟨front, _, hp, _⟩ := hd.reaches
  have hlast := slot_last (d := e) hd.fit hp hd.isName.ne_empty
  cases hw : e.walk true linkLimit (origin e.current path) (front ++ [""]) with
  | error fault =>
    rw [hw, hs] at hlast
    cases hlast
  | ok a =>
    cases a with
    | free there slash =>
      rw [hw, hs] at hlast
      cases hlast
    | found there entry =>
      exact h.enters_of_walk hd hp hw (Or.inr (Or.inr ⟨by simp, there, entry, rfl⟩))

/-- A temporary file that holds some bytes stands at a place, and its path has led there. -/
structure Live (spare : String → Prop) (d : Disk) (temporary : String) (held : List UInt8)
    (spot : Location) : Prop where
  there : ∃ mode, d.find? spot = some (.file held mode)
  entered : ∃ past place name, Later spare past d ∧ past.Enters temporary place name ∧
    spare name ∧ spot = place ++ [name]

section Live

variable {temporary : String} {held : List UInt8} {spot : Location}

theorem Live.ne_root (h : Live spare d temporary held spot) : spot ≠ [] := by
  obtain ⟨_, place, name, _, _, _, rfl⟩ := h.entered
  simp

theorem Live.short (h : Live spare d temporary held spot) : ¬Lasting spare spot := by
  obtain ⟨_, place, name, _, _, hspare, rfl⟩ := h.entered
  exact not_lasting hspare place

/-- A temporary file goes on to be one while others write, if they leave it alone. -/
theorem Live.later (h : Live spare d temporary held spot) (hlater : Later spare d e)
    {more : List UInt8} (hthere : ∃ mode, e.find? spot = some (.file more mode)) :
    Live spare e temporary more spot := by
  obtain ⟨past, place, name, hpast, henters, hspare, hspot⟩ := h.entered
  exact ⟨hthere, past, place, name, hpast.trans hlater, henters, hspare, hspot⟩

theorem Live.enters_of_resolve {follow : Bool} {a : Arrival} (h : Live spare d temporary held spot)
    (hr : d.resolve follow temporary = .ok a) :
    ∃ place name, d.Enters temporary place name ∧ spot = place ++ [name] := by
  obtain ⟨past, place, name, hpast, henters, _, hspot⟩ := h.entered
  exact ⟨place, name, hpast.enters_of_resolve henters hr, hspot⟩

theorem Live.put_of_append {more : List UInt8} (h : Live spare d temporary held spot)
    (ha : d.append temporary more = .ok e) :
    ∃ mode, e = d.put spot (.file (held ++ more) mode) := by
  obtain ⟨a, hr, _⟩ := except_bind_eq_ok.mp (show (d.resolve true temporary >>= _) = _ from ha)
  obtain ⟨place, name, henters, rfl⟩ := h.enters_of_resolve hr
  obtain ⟨mode, hthere⟩ := h.there
  rw [henters.append_file hthere] at ha
  cases ha
  exact ⟨mode, rfl⟩

theorem Live.put_of_setMode {mode : Nat} (h : Live spare d temporary held spot)
    (hm : d.setMode temporary mode = .ok e) : e = d.put spot (.file held mode) := by
  obtain ⟨a, hr, _⟩ := except_bind_eq_ok.mp (show (d.resolve true temporary >>= _) = _ from hm)
  obtain ⟨place, name, henters, rfl⟩ := h.enters_of_resolve hr
  obtain ⟨_, hthere⟩ := h.there
  rw [henters.setMode_file hthere] at hm
  cases hm
  rfl

theorem Live.erase_of_remove (h : Live spare d temporary held spot)
    (hr : d.remove temporary = .ok e) : e = d.erase spot := by
  obtain ⟨a, ha, _⟩ := except_bind_eq_ok.mp (show (d.resolve false temporary >>= _) = _ from hr)
  obtain ⟨place, name, henters, rfl⟩ := h.enters_of_resolve ha
  obtain ⟨_, hthere⟩ := h.there
  rw [henters.remove_file hthere] at hr
  cases hr
  rfl

/-- What a rename moves is the temporary file, to the place that the target's path names. -/
theorem Live.put_of_rename {target : String} (h : Live spare d temporary held spot)
    (hr : d.rename temporary target = .ok e) :
    ∃ finish mode, d.slot target = .ok (.name finish false) ∧ d.find? finish ≠ some .directory ∧
      e = (d.erase spot).put finish (.file held mode) := by
  obtain ⟨past, place, name, hpast, hbefore, _, rfl⟩ := h.entered
  obtain ⟨mode, hthere⟩ := h.there
  obtain ⟨start, hs, _⟩ := except_bind_eq_ok.mp (show (d.slot temporary >>= _) = _ from hr)
  have henters := hpast.enters_of_slot hbefore hs
  simp only [rename, henters.slot_eq, ok_bind] at hr
  obtain ⟨there, ht, _⟩ := except_bind_eq_ok.mp hr
  cases there with
  | directory =>
    rw [ht] at hr
    cases hr
  | name finish slash =>
    simp only [ht, ok_bind, hthere] at hr
    split at hr
    · cases hr
    split at hr
    · cases hr
    · rename_i hslash hdir
      cases hr
      rw [Bool.not_eq_true] at hslash
      subst hslash
      exact ⟨finish, mode, ht, hdir, rfl⟩

end Live

end Disk

end CrudLayers
