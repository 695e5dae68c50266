import CrudLayers.Proofs.Checking
import CrudLayers.Proofs.Readers

namespace CrudLayers

namespace Disk

variable {d e : Disk} {path : String} {here place l : Location} {bytes : List UInt8} {mode : Nat}

section Writing

/-- Where somebody can write a file by hand, and the mode that the file has then. -/
inductive Takes (d : Disk) (path : String) (l : Location) : Nat → Prop where
  | held {held : List UInt8} {mode : Nat}
      (resolved : d.resolve true path = .ok (.found l (.file held mode))) : Takes d path l mode
  | free (resolved : d.resolve true path = .ok (.free l false)) : Takes d path l Entry.defaultMode

theorem exists_takes_of_write (h : d.write path bytes = .ok e) :
    ∃ l mode, d.Takes path l mode ∧ e = d.put l (.file bytes mode) := by
  rw [write] at h
  cases hresolved : d.resolve true path with
  | error fault =>
    rw [hresolved] at h
    cases h
  | ok a =>
    rw [hresolved, ok_bind] at h
    cases a with
    | found l entry =>
      cases entry with
      | file held mode =>
        cases h
        exact ⟨l, mode, .held hresolved, rfl⟩
      | directory => cases h
      | link target => cases h
    | free l slash =>
      cases slash with
      | false =>
        cases h
        exact ⟨l, _, .free hresolved, rfl⟩
      | true => cases h

theorem Takes.find? (h : d.Takes path l mode) :
    d.find? l = none ∨ ∃ held, d.find? l = some (.file held mode) := by
  cases h with
  | held resolved => exact Or.inr ⟨_, find?_of_resolve resolved (by simp)⟩
  | free resolved => exact Or.inl (find?_of_free (walk_of_resolve resolved).2)

theorem Takes.ne_root (h : d.Takes path l mode) : l ≠ [] := by
  rintro rfl
  rcases h.find? with hnone | ⟨_, hfile⟩
  · simp at hnone
  · simp at hfile

/-- Writing by hand moves no directory and no link, so that every other way stays as it was. -/
theorem Takes.stays {entry : Entry} {m : Location} (h : d.Takes path l mode)
    (hm : d.find? m = some entry) (hfile : ∀ held mode, entry ≠ .file held mode) (new : Entry) :
    (d.put l new).find? m = some entry := by
  rw [find?_put_other, hm]
  rintro rfl
  rcases h.find? with hnone | ⟨held, hheld⟩
  · rw [hm] at hnone
    cases hnone
  · rw [hm] at hheld
    exact hfile _ _ (Option.some.inj hheld)

/-- Whatever file a path leads to, it leads there still once something has been written by hand. -/
theorem Takes.resolve_put {other : String} {a : Arrival} {new held : List UInt8} {mode' : Nat}
    (h : d.Takes path l mode) (ha : d.resolve true other = .ok a)
    (hend : a = .free place false ∨ ∃ entry, entry ≠ .directory ∧ a = .found place entry)
    (hplace : (d.put l (.file new mode)).find? place = some (.file held mode')) :
    (d.put l (.file new mode)).resolve true other = .ok (.found place (.file held mode')) := by
  obtain ⟨hf, hwalk⟩ := walk_of_resolve ha
  refine resolve_of_walk hf ((walked_of_walk hwalk).to_file hend hplace ?_ ?_).walk_eq
  · intro m hm
    exact h.stays hm (by simp) _
  · intro m target hm
    exact h.stays hm (by simp) _

theorem read_write (h : d.write path bytes = .ok e) : e.read path = .ok bytes := by
  obtain ⟨l, mode, htakes, rfl⟩ := exists_takes_of_write h
  have hl := find?_put_self d (.file bytes mode) htakes.ne_root
  rw [read_eq_ok_iff]
  cases id htakes with
  | held resolved => exact ⟨l, mode, htakes.resolve_put resolved (.inr ⟨_, by simp, rfl⟩) hl⟩
  | free resolved => exact ⟨l, _, htakes.resolve_put resolved (.inl rfl) hl⟩

/-- A file that lies elsewhere is read as before. -/
theorem read_write_other {other : String} {held : List UInt8} {mode' : Nat}
    (h : d.write path bytes = .ok e)
    (hother : d.resolve true other = .ok (.found place (.file held mode')))
    (hne : ∀ mode, ¬d.Takes path place mode) : e.read other = .ok held := by
  obtain ⟨l, mode, htakes, rfl⟩ := exists_takes_of_write h
  have hplace : (d.put l (.file bytes mode)).find? place = some (.file held mode') := by
    rw [find?_put_other, find?_of_resolve hother (by simp)]
    rintro rfl
    exact hne _ htakes
  exact read_eq_ok_iff.mpr
    ⟨place, mode', htakes.resolve_put hother (.inr ⟨_, by simp, rfl⟩) hplace⟩

end Writing

theorem put_of_makeLink {target : String} (h : d.makeLink path target = .ok e) :
    ∃ place, d.slot path = .ok (.name place false) ∧ d.find? place = none ∧
      e = d.put place (.link target) := by
  rw [makeLink] at h
  cases hs : d.slot path with
  | error fault =>
    rw [make, hs] at h
    cases h
  | ok slot =>
    cases slot with
    | directory =>
      rw [make, hs] at h
      cases h
    | name place slash =>
      rw [make_of_slot hs] at h
      split at h
      · cases h
      rename_i hfree
      split at h
      · cases h
      · rename_i hslash
        cases h
        exact ⟨place, by simpa using hslash, by simpa using hfree, rfl⟩

section Removing

/-- Where entries have only been taken away, and with them what a path leads to, the path leads to
no file. -/
theorem Walked.lost {entry : Entry} {limit more : Nat} {ps : List String}
    (h : Walked d false (.found place entry) limit here ps)
    (hfewer : ∀ m there, e.find? m = some there → d.find? m = some there)
    (hlost : entry = .directory ∨ e.find? place = none) :
    ¬Walked e true (.found l (.file bytes mode)) more here ps := by
  intro he
  induction h generalizing more with
  | done => cases he with | done ends => cases ends
  | stay filler tail ih =>
    cases he with
    | stay _ tail' => exact ih tail'
    | up => simp at filler
    | free fits => exact fits.no_filler filler
    | down fits => exact fits.no_filler filler
    | found fits => exact fits.no_filler filler
    | follow fits => exact fits.no_filler filler
  | up tail ih =>
    cases he with
    | stay filler => simp at filler
    | up tail' => exact ih tail'
    | free fits => exact fits.no_parent rfl
    | down fits => exact fits.no_parent rfl
    | found fits => exact fits.no_parent rfl
    | follow fits => exact fits.no_parent rfl
  | free _ _ _ ends => cases ends
  | down fits found tail ih =>
    cases he with
    | stay filler => exact fits.no_filler filler
    | up => exact fits.no_parent rfl
    | free _ _ _ ends => cases ends
    | down _ _ tail' => exact ih tail'
    | found _ found' ne =>
      rw [hfewer _ _ found'] at found
      exact ne (Option.some.inj found)
    | follow _ found' =>
      rw [hfewer _ _ found'] at found
      cases found
  | found fits found ne kept last ends =>
    cases ends
    have hnone := hlost.resolve_left ne
    cases he with
    | stay filler => exact fits.no_filler filler
    | up => exact fits.no_parent rfl
    | free _ _ _ ends => cases ends
    | down _ found' =>
      rw [hnone] at found'
      cases found'
    | found _ found' =>
      rw [hnone] at found'
      cases found'
    | follow _ found' =>
      rw [hnone] at found'
      cases found'
  | follow fits found on tail ih =>
    cases he with
    | stay filler => exact fits.no_filler filler
    | up => exact fits.no_parent rfl
    | free _ _ _ ends => cases ends
    | down _ found' =>
      rw [hfewer _ _ found'] at found
      cases found
    | found _ found' _ _ _ ends =>
      cases ends
      rw [hfewer _ _ found'] at found
      cases found
    | follow _ found' _ tail' =>
      rw [hfewer _ _ found'] at found
      cases found
      exact ih tail'

/-- Removing by hand takes away an entry with everything under it, and nothing else. -/
theorem exists_find?_removeAll (h : d.removeAll path = .ok e) : ∃ place entry,
    d.resolve false path = .ok (.found place entry) ∧ e.current = d.current ∧
      ∀ m ≠ [], e.find? m = if place <+: m then none else d.find? m := by
  rw [removeAll] at h
  cases hresolved : d.resolve false path with
  | error fault =>
    rw [hresolved] at h
    cases h
  | ok a =>
    rw [hresolved, ok_bind] at h
    cases a with
    | free place slash => cases h
    | found place entry =>
      cases h
      refine ⟨place, entry, rfl, rfl, ?_⟩
      intro m hm
      simp only [Disk.find?, hm, if_false, lookup_filter (fun k => !place.isPrefixOf k)]
      by_cases hunder : place <+: m
      · simp [hunder]
      · simp [hunder]

theorem read_removeAll (h : d.removeAll path = .ok e) (bytes : List UInt8) :
    e.read path ≠ .ok bytes := by
  obtain ⟨place, entry, hresolved, hcurrent, hfind⟩ := exists_find?_removeAll h
  intro hread
  obtain ⟨l, mode, hl⟩ := read_eq_ok_iff.mp hread
  have hwalk := (walk_of_resolve hl).2
  rw [hcurrent] at hwalk
  refine (walked_of_walk (walk_of_resolve hresolved).2).lost ?_ ?_ (walked_of_walk hwalk)
  · intro m there hm
    by_cases hroot : m = []
    · simpa [hroot] using hm
    · rw [hfind m hroot] at hm
      split at hm
      · cases hm
      · exact hm
  · by_cases hdirectory : entry = .directory
    · exact Or.inl hdirectory
    · have hplace := find?_of_resolve hresolved hdirectory
      have hroot : place ≠ [] := by
        rintro rfl
        rw [find?_root] at hplace
        exact hdirectory (Option.some.inj hplace).symm
      rw [hfind place hroot, if_pos (List.prefix_refl _)]
      exact Or.inr rfl

end Removing

section Listing

theorem before_total (l m : Location) : before l m || before m l := by
  induction l generalizing m with
  | nil => simp [before]
  | cons a l ih =>
    cases m with
    | nil => simp [before]
    | cons b m =>
      rcases lt_trichotomy a b with hlt | rfl | hgt
      · simp [before, hlt.ne, hlt]
      · simpa [before] using ih m
      · simp [before, hgt.ne, hgt]

theorem before_trans {l m n : Location} (h : before l m) (h' : before m n) : before l n := by
  induction l generalizing m n with
  | nil => simp [before]
  | cons a l ih =>
    cases m with
    | nil => simp [before] at h
    | cons b m =>
      cases n with
      | nil => simp [before] at h'
      | cons c n =>
        simp only [before] at h h' ⊢
        split at h <;> split at h' <;> grind

/-- A listing shows what lies under a place, each entry by its way from there. -/
theorem mem_under {way : Location} {entry : Entry} :
    (way, entry) ∈ d.under place ↔ way ≠ [] ∧ (place ++ way, entry) ∈ d.entries := by
  simp only [under, List.mem_mergeSort, List.mem_map, List.mem_filter, Bool.and_eq_true,
    List.isPrefixOf_iff_prefix, bne_iff_ne, Prod.mk.injEq, Prod.exists]
  constructor
  · rintro ⟨_, _, ⟨hmem, ⟨way, rfl⟩, hne⟩, rfl, rfl⟩
    simpa [hmem] using hne
  · rintro ⟨hne, hmem⟩
    exact ⟨_, _, ⟨hmem, List.prefix_append _ _, by simpa using hne⟩, by simp, rfl⟩

theorem pairwise_under (d : Disk) (place : Location) :
    (d.under place).Pairwise (fun a b => before a.1 b.1) := by
  rw [under]
  apply List.pairwise_mergeSort
  · intro a b c hab hbc
    exact before_trans hab hbc
  · intro a b
    exact before_total a.1 b.1

end Listing

end Disk

namespace CommandLine

variable {s : Surroundings} {c : Config} {flags : Overrides} {entity : String} {b : Blueprint}
  {d e : Disk} {l : Layer}

/-- Whoever writes a layer's file by hand leaves it fresh if and only if it is its text. -/
theorem fresh_of_write {text : String} {bytes : List UInt8}
    (hb : blueprint s c flags entity = .ok b) (htext : b.text c.modules l = .ok text)
    (h : d.write (b.filePath l) bytes = .ok e) :
    Fresh s c flags e entity l ↔ bytes = Bytes.ofText text := by
  simp [Fresh, Blueprint.UpToDate, hb, htext, Disk.read_write h]

/-- A layer's file that has been removed by hand is stale. -/
theorem not_fresh_of_removeAll (hb : blueprint s c flags entity = .ok b)
    (h : d.removeAll (b.filePath l) = .ok e) : ¬Fresh s c flags e entity l := by
  simp [Fresh, Blueprint.UpToDate, hb, Disk.read_removeAll h]

end CommandLine

end CrudLayers
