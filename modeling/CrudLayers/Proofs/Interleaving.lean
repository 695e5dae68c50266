import CrudLayers.Proofs.Lasting
import Mathlib.Logic.Function.Basic
import Mathlib.Logic.Relation

namespace CrudLayers.Write

open Disk

variable {spare : String → Prop}

section Moves

variable {path text : String} {d e : Disk} {stage after : Stage} {spot spot' : Location}

/-- What one call of a write does, as far as others can see it: the temporary file of that write is
at `spot`, if there is one, and at `spot'` after the call. -/
structure Shift (spare : String → Prop) (path text : String) (stage : Stage) (spot : Location)
    (d : Disk) (after : Stage) (spot' : Location) (e : Disk) : Prop where
  later : Later spare d e
  live : ∀ t held, after = .filling t held → Live spare e t held spot'
  fresh : ∀ t held, after = .filling t held →
    (∃ t' held', stage = .filling t' held') ∧ spot' = spot ∨ d.find? spot' = none
  others : ∀ l bytes mode, d.find? l = some (.file bytes mode) → ¬Lasting spare l →
    (∀ t held, stage = .filling t held → l ≠ spot) → e.find? l = d.find? l
  lasting : ∀ l, Lasting spare l → e.find? l = d.find? l ∨
    (e.find? l = some .directory ∧
      ∃ directory ∈ Path.upward (Path.holder path), e.Settled directory l) ∨
    ∃ mode slash, d.slot path = .ok (.name l slash) ∧
      e.find? l = some (.file (Bytes.ofText text) mode)
  links : ∀ l target, e.find? l = some (.link target) → d.find? l = some (.link target)

theorem link_of_put {entry : Entry} {l : Location} {target : String}
    (he : ∀ other, entry ≠ .link other) (h : (d.put spot entry).find? l = some (.link target)) :
    d.find? l = some (.link target) := by
  by_cases hself : l = spot
  · subst hself
    by_cases hroot : l = []
    · subst hroot
      rw [find?_root] at h
      cases h
    · rw [find?_put_self d entry hroot] at h
      exact absurd (Option.some.inj h) (he target)
  · rwa [find?_put_other d entry hself] at h

theorem link_of_erase {l : Location} {target : String}
    (h : (d.erase spot).find? l = some (.link target)) : d.find? l = some (.link target) := by
  by_cases hself : l = spot
  · subst hself
    by_cases hroot : l = []
    · subst hroot
      rw [find?_root] at h
      cases h
    · rw [find?_erase_self d hroot] at h
      cases h
  · rwa [find?_erase_other d hself] at h

theorem shift_same (hlive : ∀ t held, after = .filling t held → Live spare d t held spot)
    (hsame : ∀ t held, after = .filling t held → stage = after) :
    Shift spare path text stage spot d after spot d :=
  ⟨.refl spare d, hlive, fun t held h => Or.inl ⟨⟨t, held, (hsame t held h).trans h⟩, rfl⟩,
    fun _ _ _ _ _ _ => rfl, fun _ _ => Or.inl rfl, fun _ _ => id⟩

theorem shift_enlarge {directory : String}
    (hparent : directory ∈ Path.upward (Path.holder path))
    (hm : d.makeDirectory directory = .ok e) : Shift spare path text .bare spot d .bare spot e := by
  have hends := ends_of_makeDirectory (Path.shape_of_mem_upward hparent) hm
  obtain ⟨place, hplace, hfree, rfl, hsettled, _⟩ := settled_of_makeDirectory hends hm
  refine ⟨later_put_free hfree _, by simp, by simp, ?_, ?_, fun _ _ => link_of_put (by simp)⟩
  · intro l bytes mode hl _ _
    apply find?_put_other
    rintro rfl
    rw [hfree] at hl
    cases hl
  · intro l _
    by_cases hself : l = place
    · subst hself
      exact Or.inr (Or.inl ⟨find?_put_self d _ hplace, directory, hparent, hsettled⟩)
    · exact Or.inl (find?_put_other d _ hself)

theorem shift_start {name : String} (hspare : spare name) (hn : Path.IsName name)
    (hm : d.make (Path.join (Path.holder path) name) (.file [] Entry.privateMode) = .ok e) :
    ∃ spot', Shift spare path text .bare spot d
      (.filling (Path.join (Path.holder path) name) []) spot' e := by
  obtain ⟨place, henters, hfree, rfl⟩ := put_of_make_join hn hm
  have hlater : Later spare d (d.put (place ++ [name]) (.file [] Entry.privateMode)) :=
    later_put_free hfree _
  refine ⟨place ++ [name], hlater, ?_, fun _ _ _ => Or.inr hfree, ?_, ?_,
    fun _ _ => link_of_put (by simp)⟩
  · intro t held h
    cases h
    exact ⟨⟨_, find?_put_self d _ (by simp)⟩, d, place, name, hlater, henters, hspare, rfl⟩
  · intro l bytes mode hl _ _
    apply find?_put_other
    rintro rfl
    rw [hfree] at hl
    cases hl
  · intro l hl
    refine Or.inl (find?_put_other d _ ?_)
    rintro rfl
    exact not_lasting hspare place hl

/-- A temporary file changes, and nobody else's. -/
theorem shift_put {t : String} {held more : List UInt8} {mode : Nat}
    (h : Live spare d t held spot) : Shift spare path text (.filling t held) spot d
      (.filling t more) spot (d.put spot (.file more mode)) := by
  obtain ⟨_, hthere⟩ := h.there
  have hlater := later_put_temporary h.short hthere (.file more mode)
  refine ⟨hlater, ?_, fun _ _ _ => Or.inl ⟨⟨t, held, rfl⟩, rfl⟩, ?_, ?_,
    fun _ _ => link_of_put (by simp)⟩
  · intro t' held' heq
    cases heq
    exact h.later hlater ⟨mode, find?_put_self d _ h.ne_root⟩
  · intro l _ _ _ _ hother
    exact find?_put_other d _ (hother t held rfl)
  · intro l hl
    refine Or.inl (find?_put_other d _ ?_)
    rintro rfl
    exact h.short hl

theorem shift_drop {t : String} {held : List UInt8} (h : Live spare d t held spot) :
    Shift spare path text (.filling t held) spot d .bare spot (d.erase spot) := by
  obtain ⟨_, hthere⟩ := h.there
  refine ⟨later_erase_temporary h.short hthere, by simp, by simp, ?_, ?_,
    fun _ _ => link_of_erase⟩
  · intro l _ _ _ _ hother
    exact find?_erase_other d (hother t held rfl)
  · intro l hl
    refine Or.inl (find?_erase_other d ?_)
    rintro rfl
    exact h.short hl

theorem shift_publish {t : String} {finish : Location} {mode : Nat} {slash : Bool}
    (h : Live spare d t (Bytes.ofText text) spot) (hs : d.slot path = .ok (.name finish slash))
    (hlasting : Lasting spare finish) (hne : finish ≠ [])
    (hdir : d.find? finish ≠ some .directory) :
    Shift spare path text (.filling t (Bytes.ofText text)) spot d .renamed spot
      ((d.erase spot).put finish (.file (Bytes.ofText text) mode)) := by
  obtain ⟨_, hthere⟩ := h.there
  have hother : finish ≠ spot := by
    rintro rfl
    exact h.short hlasting
  have herased : (d.erase spot).find? finish ≠ some .directory := by
    rwa [find?_erase_other d hother]
  refine ⟨(later_erase_temporary h.short hthere).trans
    (later_put_lasting hne hlasting herased _ mode), by simp, by simp, ?_, ?_,
    fun _ _ hl => link_of_erase (link_of_put (by simp) hl)⟩
  · intro l _ _ _ hshort hspot
    rw [find?_put_other, find?_erase_other d (hspot t _ rfl)]
    rintro rfl
    exact hshort hlasting
  · intro l hl
    by_cases hself : l = finish
    · subst hself
      exact Or.inr (Or.inr ⟨mode, slash, hs, find?_put_self _ _ hne⟩)
    · refine Or.inl ?_
      rw [find?_put_other _ _ hself, find?_erase_other d]
      rintro rfl
      exact h.short hl

theorem Move.shift (hm : Move spare path text stage d after e)
    (hlive : ∀ t held, stage = .filling t held → Live spare d t held spot)
    (htemp : ∀ name, Path.fileName? path = some name → ¬spare name) :
    ∃ spot', Shift spare path text stage spot d after spot' e := by
  cases hm with
  | stay => exact ⟨spot, shift_same hlive (fun _ _ _ => rfl)⟩
  | enlarge parent made => exact ⟨spot, shift_enlarge parent made⟩
  | start free isName made => exact shift_start free isName made
  | fill added =>
    have h := hlive _ _ rfl
    obtain ⟨mode, rfl⟩ := h.put_of_append added
    exact ⟨spot, shift_put h⟩
  | permit changed =>
    have h := hlive _ _ rfl
    obtain rfl := h.put_of_setMode changed
    exact ⟨spot, shift_put h⟩
  | publish moved =>
    have h := hlive _ _ rfl
    obtain ⟨finish, mode, hs, hdir, rfl⟩ := h.put_of_rename moved
    obtain ⟨place, name, rfl, hname⟩ := fileName?_of_slot hs
    refine ⟨spot, shift_publish h hs ?_ (by simp) hdir⟩
    intro place' name' heq
    obtain ⟨_, hlast⟩ := List.append_inj' heq rfl
    cases hlast
    exact htemp name hname
  | drop removed =>
    have h := hlive _ _ rfl
    obtain rfl := h.erase_of_remove removed
    exact ⟨spot, shift_drop h⟩
  | leave => exact ⟨spot, shift_same (by simp) (by simp)⟩

end Moves

structure Task where
  path : String
  text : String

/-- Writes that are being made: the disk, and what is left of each of them. -/
structure Site (ι : Type) where
  disk : Disk
  rest : ι → Program (Except PathFault WriteStatus)

variable {ι : Type} [DecidableEq ι] {tasks : ι → Task} {d : Disk} {s s' : Site ι}

def Site.start (tasks : ι → Task) (d : Disk) : Site ι :=
  ⟨d, fun i => (writeFile (tasks i).path (tasks i).text).run⟩

/-- One of the writes makes its next call and takes the reply. A write that has stopped takes no
more steps. -/
inductive Site.Step (spare : String → Prop) : Site ι → Site ι → Prop where
  | call {s : Site ι} {i : ι} {c : Call}
      {next : c.Reply → Program (Except PathFault WriteStatus)} {reply : c.Reply} {e : Disk}
      (asks : s.rest i = .ask c next) (replied : s.disk.MayReply spare c reply e) :
      Step spare s ⟨e, Function.update s.rest i (next reply)⟩

/-- What the writes can come to, in whatever order they make their calls and wherever they stop. -/
def Reachable (spare : String → Prop) (tasks : ι → Task) (d : Disk) : Site ι → Prop :=
  Relation.ReflTransGen (Site.Step spare) (Site.start tasks d)

/-- At some moment the path of a write names the place. -/
def Named (spare : String → Prop) (tasks : ι → Task) (d : Disk) (i : ι) (l : Location) : Prop :=
  ∃ s slash, Reachable spare tasks d s ∧ s.disk.slot (tasks i).path = .ok (.name l slash)

/-- At some moment a directory on the way to the file of a write stands at the place. -/
def Entered (spare : String → Prop) (tasks : ι → Task) (d : Disk) (i : ι) (l : Location) : Prop :=
  ∃ s, Reachable spare tasks d s ∧
    ∃ directory ∈ Path.upward (Path.holder (tasks i).path), s.disk.Settled directory l

/-- What stands at a place is what stood there at first, a directory on the way to a file, or a file
with all of the text of a write to that place. -/
def Whole (spare : String → Prop) (tasks : ι → Task) (d m : Disk) (l : Location) : Prop :=
  m.find? l = d.find? l ∨
    (m.find? l = some .directory ∧ ∃ j, Entered spare tasks d j l) ∨
    ∃ j mode, Named spare tasks d j l ∧
      m.find? l = some (.file (Bytes.ofText (tasks j).text) mode)

/-- Where the writes stand: each is at some stage, each temporary file is that of one write and
holds what has been put into it, and beside them nothing is torn. -/
structure Orderly (spare : String → Prop) (tasks : ι → Task) (d : Disk) (stages : ι → Stage)
    (spots : ι → Location) (s : Site ι) : Prop where
  stage : ∀ i, AtStage (tasks i).path (tasks i).text (stages i) (s.rest i)
  live : ∀ i t held, stages i = .filling t held → Live spare s.disk t held (spots i)
  apart : ∀ i j t held t' held', stages i = .filling t held → stages j = .filling t' held' →
    spots i = spots j → i = j
  whole : ∀ l, Lasting spare l → Whole spare tasks d s.disk l
  later : Later spare d s.disk
  links : ∀ l target, s.disk.find? l = some (.link target) → d.find? l = some (.link target)
  /-- A temporary file is where there was nothing at first. -/
  unused : ∀ i t held, stages i = .filling t held → d.find? (spots i) = none
  /-- What has had such a name from the first stays as it is. -/
  spared : ∀ l, ¬Lasting spare l → d.find? l ≠ none → s.disk.find? l = d.find? l

theorem orderly_start (spare : String → Prop) (tasks : ι → Task) (d : Disk) :
    Orderly spare tasks d (fun _ => .bare) (fun _ => []) (Site.start tasks d) :=
  ⟨fun i => writeFile_atStage _ _, by simp, by simp, fun _ _ => Or.inl rfl, .refl spare d,
    fun _ _ => id, by simp, fun _ _ _ => rfl⟩

/-- What had the name of a temporary file at first is not touched by a call: it is no file that a
write has made. -/
theorem Orderly.spared_shift {stages : ι → Stage} {spots : ι → Location} {path text : String}
    {after : Stage} {spot' : Location} {e : Disk} {i : ι}
    (h : Orderly spare tasks d stages spots s)
    (hshift : Shift spare path text (stages i) (spots i) s.disk after spot' e) {l : Location}
    (hshort : ¬Lasting spare l) (hthere : d.find? l ≠ none) : e.find? l = d.find? l := by
  have hsame := h.spared l hshort hthere
  rw [← hsame] at hthere ⊢
  cases hfound : s.disk.find? l with
  | none => exact absurd hfound hthere
  | some entry =>
    cases entry with
    | directory => exact hshift.later.directory hfound
    | file bytes mode =>
      rw [← hfound]
      refine hshift.others l bytes mode hfound hshort ?_
      rintro t held hfills rfl
      rw [h.unused i t held hfills] at hsame
      exact hthere hsame
    | link target =>
      have hbecomes := hshift.later.becomes l
      rw [hfound] at hbecomes
      generalize e.find? l = y at hbecomes
      cases hbecomes with
      | same => rfl
      | replaced lasting => exact absurd lasting hshort

/-- A call of one write leaves the others where they stand. -/
theorem Orderly.step {stages : ι → Stage} {spots : ι → Location}
    (h : Orderly spare tasks d stages spots s) (hs : Reachable spare tasks d s)
    (htemp : ∀ i name, Path.fileName? (tasks i).path = some name → ¬spare name)
    (hstep : Site.Step spare s s') : ∃ stages' spots', Orderly spare tasks d stages' spots' s' := by
  have hs' : Reachable spare tasks d s' := hs.tail hstep
  cases hstep with
  | @call i c next reply e asks replied =>
    have hi := h.stage i
    rw [asks] at hi
    obtain ⟨after, hafter, hmove⟩ := hi.move replied
    obtain ⟨spot', hshift⟩ := hmove.shift (h.live i) (htemp i)
    have hnew : ∀ k t held t' held', k ≠ i → stages k = .filling t held →
        after = .filling t' held' → spots k ≠ spot' := by
      intro k t held t' held' hk hfills hfills' hsame
      rcases hshift.fresh t' held' hfills' with ⟨⟨_, _, hbefore⟩, rfl⟩ | hfree
      · exact hk (h.apart k i _ _ _ _ hfills hbefore hsame)
      · obtain ⟨_, hthere⟩ := (h.live k t held hfills).there
        rw [hsame, hfree] at hthere
        cases hthere
    have hunused : ∀ t held, after = .filling t held → d.find? spot' = none := by
      intro t held hfills
      rcases hshift.fresh t held hfills with ⟨⟨t', held', hbefore⟩, rfl⟩ | hfree
      · exact h.unused i t' held' hbefore
      · by_contra hthere
        have hsame := h.spared spot' (hshift.live t held hfills).short hthere
        exact hthere (hsame.symm.trans hfree)
    refine ⟨Function.update stages i after, Function.update spots i spot', ?_, ?_, ?_, ?_,
      h.later.trans hshift.later, fun l target hl => h.links l target (hshift.links l target hl),
      ?_, fun l hshort hthere => h.spared_shift hshift hshort hthere⟩
    · intro k
      by_cases hk : k = i
      · subst hk
        simpa using hafter
      · simpa [hk] using h.stage k
    · intro k t held hfills
      by_cases hk : k = i
      · subst hk
        simp only [Function.update_self] at hfills ⊢
        exact hshift.live t held hfills
      · simp only [Function.update_of_ne hk] at hfills ⊢
        have hlive := h.live k t held hfills
        obtain ⟨mode, hthere⟩ := hlive.there
        refine hlive.later hshift.later ⟨mode, ?_⟩
        rw [← hthere]
        refine hshift.others _ _ _ hthere hlive.short ?_
        intro t' held' hfills' hsame
        exact hk (h.apart k i _ _ _ _ hfills hfills' hsame)
    · intro k j t held t' held' hk hj hsame
      by_cases hki : k = i
      · by_cases hji : j = i
        · exact hki.trans hji.symm
        · subst hki
          simp only [Function.update_self, Function.update_of_ne hji] at hk hj hsame
          exact absurd hsame.symm (hnew j _ _ _ _ hji hj hk)
      · by_cases hji : j = i
        · subst hji
          simp only [Function.update_self, Function.update_of_ne hki] at hk hj hsame
          exact absurd hsame (hnew k _ _ _ _ hki hk hj)
        · simp only [Function.update_of_ne hki, Function.update_of_ne hji] at hk hj hsame
          exact h.apart k j _ _ _ _ hk hj hsame
    · intro l hl
      rcases hshift.lasting l hl with hsame | ⟨hdir, directory, hmem, hsettled⟩ |
        ⟨mode, slash, hslot, hfile⟩
      · rw [Whole, hsame]
        exact h.whole l hl
      · exact Or.inr (Or.inl ⟨hdir, i, _, hs', directory, hmem, hsettled⟩)
      · exact Or.inr (Or.inr ⟨i, mode, ⟨s, slash, hs, hslot⟩, hfile⟩)
    · intro k t held hfills
      by_cases hk : k = i
      · subst hk
        simp only [Function.update_self] at hfills ⊢
        exact hunused t held hfills
      · simp only [Function.update_of_ne hk] at hfills ⊢
        exact h.unused k t held hfills

theorem orderly_of_reachable
    (htemp : ∀ i name, Path.fileName? (tasks i).path = some name → ¬spare name)
    (h : Reachable spare tasks d s) : ∃ stages spots, Orderly spare tasks d stages spots s := by
  induction h with
  | refl => exact ⟨_, _, orderly_start spare tasks d⟩
  | tail hbefore hstep ih =>
    obtain ⟨stages, spots, horderly⟩ := ih
    exact horderly.step hbefore htemp hstep

/-- Writes that keep out of each other's way, but for their targets: no target has the name of a
temporary file, and none is a directory on the way to another. -/
structure Separate (spare : String → Prop) (tasks : ι → Task) (d : Disk) : Prop where
  temporary : ∀ i name, Path.fileName? (tasks i).path = some name → ¬spare name
  apart : ∀ i j l, Named spare tasks d i l → ¬Entered spare tasks d j l

theorem Separate.lasting {i : ι} {l : Location} (h : Separate spare tasks d)
    (hl : Named spare tasks d i l) : Lasting spare l := by
  obtain ⟨m, slash, _, hslot⟩ := hl
  obtain ⟨place, name, rfl, hname⟩ := fileName?_of_slot hslot
  intro place' name' heq
  obtain ⟨_, hlast⟩ := List.append_inj' heq rfl
  cases hlast
  exact h.temporary i name hname

/-- However the calls of some writes come in turn, wherever the writes fail or stop: what stands at
a target is at every moment what stood there at first, or a file with all of the text of one of the
writes to it. -/
theorem whole_of_reachable {i : ι} {l : Location} (hseparate : Separate spare tasks d)
    (h : Reachable spare tasks d s) (hl : Named spare tasks d i l) :
    s.disk.find? l = d.find? l ∨ ∃ j mode, Named spare tasks d j l ∧
      s.disk.find? l = some (.file (Bytes.ofText (tasks j).text) mode) := by
  obtain ⟨stages, spots, horderly⟩ := orderly_of_reachable hseparate.temporary h
  rcases horderly.whole l (hseparate.lasting hl) with hsame | ⟨_, j, hentered⟩ | hwritten
  · exact Or.inl hsame
  · exact absurd hentered (hseparate.apart i j l hl)
  · exact Or.inr hwritten

/-- What is left of a program when its first calls have been answered, and the disk by then. -/
def stepped {α : Type} : Nat → Program α → Disk → Program α × Disk
  | 0, p, d => (p, d)
  | _ + 1, .done a, d => (.done a, d)
  | n + 1, .ask c next, d => stepped n (next (d.answer c).1) (d.answer c).2

/-- A write that is not disturbed may make its next calls and stop there. -/
theorem reaches_stepped (hspare : ∀ n, spare (temporaryName n)) (n : Nat) (i : ι) (s : Site ι) :
    Relation.ReflTransGen (Site.Step spare) s
      ⟨(stepped n (s.rest i) s.disk).2,
        Function.update s.rest i (stepped n (s.rest i) s.disk).1⟩ := by
  induction n generalizing s with
  | zero =>
    change Relation.ReflTransGen _ s ⟨s.disk, Function.update s.rest i (s.rest i)⟩
    rw [Function.update_eq_self]
  | succ n ih =>
    cases hp : s.rest i with
    | done a =>
      change Relation.ReflTransGen _ s ⟨s.disk, Function.update s.rest i (.done a)⟩
      rw [← hp, Function.update_eq_self]
    | ask c next =>
      have hstep : Site.Step spare s ⟨(s.disk.answer c).2,
          Function.update s.rest i (next (s.disk.answer c).1)⟩ :=
        .call hp (mayReply_answer hspare s.disk c)
      have hrest := ih ⟨(s.disk.answer c).2, Function.update s.rest i (next (s.disk.answer c).1)⟩
      simp only [Function.update_self, Function.update_idem] at hrest
      exact .head hstep hrest

end CrudLayers.Write
