import CrudLayers.Disk.Calls
import CrudLayers.Proofs.Paths
import CrudLayers.Proofs.Walks

namespace CrudLayers.Disk

/-- The path leads to the directory at `place`, where its last piece is a name that need not be
taken. -/
structure Enters (d : Disk) (path : String) (place : Location) (name : String) : Prop where
  fit : pathFault? path = none
  isName : Path.IsName name
  short : ¬name.utf8ByteSize > longestName
  reaches : ∃ front links, Path.pieces path = front ++ [name] ∧ links ≤ linkLimit ∧
    d.Reaches (origin d.current path) front links place

variable {d : Disk} {path directory name : String} {place : Location}

theorem Enters.fits (h : d.Enters path place name) : Fits name :=
  ⟨h.isName.not_filler, h.isName.no_parent, h.short⟩

theorem Enters.endsInName (h : d.Enters path place name) : Path.EndsInName path := by
  obtain ⟨front, _, hp, _⟩ := h.reaches
  exact Path.endsInName_of_pieces hp h.isName.not_filler h.isName.no_parent

/-- The walk along the path is at its directory before it looks up the name. -/
theorem Enters.resolve_eq (h : d.Enters path place name) (follow : Bool) :
    ∃ limit, d.resolve follow path = d.walk follow limit place [name] := by
  obtain ⟨front, links, hp, hl, hr⟩ := h.reaches
  have hw := walk_of_reaches hr follow linkLimit [name] (Or.inr (by simp))
  rw [if_pos hl] at hw
  exact ⟨linkLimit - links, by rw [resolve, h.fit, hp]; exact hw⟩

theorem Enters.resolve_none (h : d.Enters path place name) (follow : Bool)
    (hf : d.find? (place ++ [name]) = none) :
    d.resolve follow path = .ok (.free (place ++ [name]) false) := by
  obtain ⟨limit, hw⟩ := h.resolve_eq follow
  rw [hw]
  apply walk_arrival
  rw [stroll_name h.fits, hf]
  rfl

theorem Enters.resolve_directory (h : d.Enters path place name) (follow : Bool)
    (hf : d.find? (place ++ [name]) = some .directory) :
    d.resolve follow path = .ok (.found (place ++ [name]) .directory) := by
  obtain ⟨limit, hw⟩ := h.resolve_eq follow
  rw [hw]
  apply walk_arrival
  rw [stroll_name h.fits, hf]
  rfl

theorem Enters.resolve_file (h : d.Enters path place name) (follow : Bool) {bytes : List UInt8}
    {mode : Nat} (hf : d.find? (place ++ [name]) = some (.file bytes mode)) :
    d.resolve follow path = .ok (.found (place ++ [name]) (.file bytes mode)) := by
  obtain ⟨limit, hw⟩ := h.resolve_eq follow
  rw [hw]
  apply walk_arrival
  rw [stroll_name h.fits, hf]
  rfl

theorem Enters.resolve_link (h : d.Enters path place name) {target : String}
    (hf : d.find? (place ++ [name]) = some (.link target)) :
    d.resolve false path = .ok (.found (place ++ [name]) (.link target)) := by
  obtain ⟨limit, hw⟩ := h.resolve_eq false
  rw [hw]
  apply walk_arrival
  rw [stroll_name h.fits, hf]
  rfl

/-- A link to a directory leads there, unless the links become too many. -/
theorem Enters.resolve_through (h : d.Enters path place name) {target : String} {links : Nat}
    {there : Location} (hf : d.find? (place ++ [name]) = some (.link target))
    (hr : d.Reaches (origin place target) (Path.pieces target) links there) :
    d.resolve true path = .ok (.found there .directory) ∨
      d.resolve true path = .error .linkLoop := by
  obtain ⟨front, i, hp, _, hd⟩ := h.reaches
  have hlast : d.Reaches place [name] (links + 1) there := by
    apply Reaches.follow h.fits hf
    rwa [List.append_nil]
  have hall := hd.append hlast
  have hw := walk_of_reaches hall true linkLimit [] (Or.inl rfl)
  rw [List.append_nil, ← hp] at hw
  rw [resolve, h.fit]
  simp only [hw]
  split
  · exact Or.inl (walk_arrival rfl)
  · exact Or.inr rfl

/-- The last piece of a path, as far as it is a name, and the walk in front of it. -/
theorem slot_last {front : List String} {last : String} (hf : pathFault? path = none)
    (hp : Path.pieces path = front ++ [last]) (hl : last ≠ "") :
    d.slot path = match d.walk true linkLimit (origin d.current path) (front ++ [""]) with
      | .error e => .error e
      | .ok (.free _ _) => .error .noEntry
      | .ok (.found place _) =>
        if last = "." ∨ last = ".." then .ok .directory
        else if last.utf8ByteSize > longestName then .error .nameTooLong
        else .ok (.name (place ++ [last]) false) := by
  have hb : (Path.pieces path).reverse = last :: front.reverse := by rw [hp]; simp
  have hd : (last :: front.reverse).dropWhile (· == "") = last :: front.reverse := by
    simp [hl]
  have hh : ((last :: front.reverse).head? == some "") = false := by simpa using hl
  unfold slot
  rw [hf]
  simp only [hb, hd, hh, List.reverse_reverse]
  cases hw : d.walk true linkLimit (origin d.current path) (front ++ [""]) with
  | error e => rfl
  | ok a =>
    cases a with
    | free place slash => rfl
    | found place entry => rfl

theorem Enters.slot_eq (h : d.Enters path place name) :
    d.slot path = .ok (.name (place ++ [name]) false) := by
  obtain ⟨front, links, hp, hl, hr⟩ := h.reaches
  have hall : d.Reaches (origin d.current path) (front ++ [""]) (links + 0) place :=
    hr.append (.stay (Or.inl rfl) (.here place))
  rw [slot_last h.fit hp h.isName.ne_empty, walk_to_directory hall hl]
  simp only [if_neg h.isName.not_dots, if_neg h.short]

/-- The path leads to a directory, which stands at `place`. -/
def Settled (d : Disk) (path : String) (place : Location) : Prop :=
  d.resolve true path = .ok (.found place .directory)

theorem settled_iff : d.Settled path place ↔ pathFault? path = none ∧
    ∃ links, links ≤ linkLimit ∧
      d.Reaches (origin d.current path) (Path.pieces path) links place := by
  unfold Settled resolve
  cases hf : pathFault? path with
  | some fault => simp
  | none =>
    constructor
    · intro hw
      rw [← List.append_nil (Path.pieces path)] at hw
      obtain ⟨links, there, hl, hr⟩ := reaches_of_walk hw (Or.inl ⟨place, rfl⟩)
      rw [List.append_nil] at hw
      have ht := walk_to_directory hr hl
      simp only [ht] at hw
      cases hw
      exact ⟨rfl, links, hl, hr⟩
    · rintro ⟨_, links, hl, hr⟩
      exact walk_to_directory hr hl

theorem Settled.unique {other : Location} (h : d.Settled path place) (h' : d.Settled path other) :
    place = other := by
  unfold Settled at h h'
  rw [h] at h'
  cases h'
  rfl

/-- A name joined to the path of a directory is looked up in that directory. -/
theorem Settled.enters_join (h : d.Settled directory place) (he : Path.EndsInName directory)
    (hn : Path.IsName name) (hf : pathFault? (Path.join directory name) = none)
    (hs : ¬name.utf8ByteSize > longestName) : d.Enters (Path.join directory name) place name := by
  obtain ⟨_, links, hl, hr⟩ := settled_iff.mp h
  refine ⟨hf, hn, hs, Path.pieces directory, links, he.ends.pieces_join hn, hl, ?_⟩
  rwa [origin, Path.isAbsolute_join hn]

theorem pathFault?_of_slot {slot : Slot} (h : d.slot path = .ok slot) : pathFault? path = none := by
  cases hf : pathFault? path with
  | none => rfl
  | some fault =>
    unfold Disk.slot at h
    rw [hf] at h
    cases h

/-- A name joined to the path of a directory is fit to be looked up there if it can be given to a
new entry. -/
theorem Settled.enters_of_slot {slot : Slot} (h : d.Settled directory place)
    (he : Path.EndsInName directory) (hn : Path.IsName name)
    (hs : d.slot (Path.join directory name) = .ok slot) :
    d.Enters (Path.join directory name) place name := by
  have hf := pathFault?_of_slot hs
  refine h.enters_join he hn hf ?_
  intro hlong
  obtain ⟨_, links, hl, hr⟩ := settled_iff.mp h
  have hstay : d.Reaches place [""] 0 place := .stay (Or.inl rfl) (.here place)
  have hall := hr.append hstay
  rw [slot_last hf (he.ends.pieces_join hn) hn.ne_empty, origin, Path.isAbsolute_join hn] at hs
  have hw := walk_to_directory hall hl
  rw [origin] at hw
  rw [hw] at hs
  simp only [if_neg hn.not_dots, if_pos hlong] at hs
  cases hs

/-- The path of a directory that ends in a name leads to the directory that holds it. -/
theorem Settled.enters (h : d.Settled path place) (he : Path.EndsInName path) :
    ∃ holder name, d.Enters path holder name ∧ d.find? (holder ++ [name]) ≠ none := by
  obtain ⟨front, name, hn, hs⟩ := he
  obtain ⟨hf, links, hl, hr⟩ := settled_iff.mp h
  have hp : Path.pieces path = front.map String.ofList ++ [name] := by simp [Path.pieces, hs]
  obtain ⟨i, j, holder, hij, hfront, hlast⟩ := hr.split hp
  have hreaches : ∃ front links, Path.pieces path = front ++ [name] ∧ links ≤ linkLimit ∧
      d.Reaches (origin d.current path) front links holder :=
    ⟨_, i, hp, by omega, hfront⟩
  cases hlast with
  | stay filler tail => exact absurd filler hn.not_filler
  | up tail => exact absurd rfl hn.no_parent
  | down fits found tail =>
    exact ⟨holder, name, ⟨hf, hn, fits.short, hreaches⟩, by rw [found]; exact Option.some_ne_none _⟩
  | follow fits found tail =>
    exact ⟨holder, name, ⟨hf, hn, fits.short, hreaches⟩, by rw [found]; exact Option.some_ne_none _⟩

/-- The path of a directory is short enough if it is with a name joined to it. -/
theorem pathFault?_of_join (he : Path.EndsInName directory)
    (hf : pathFault? (Path.join directory name) = none) : pathFault? directory = none := by
  rw [he.ends.join] at hf
  unfold pathFault? at hf ⊢
  split at hf
  · cases hf
  rename_i hnul
  split at hf
  · cases hf
  split at hf
  · cases hf
  rename_i hlong
  have hshort : directory.utf8ByteSize ≤ (directory ++ "/" ++ name).utf8ByteSize := by
    simp only [String.utf8ByteSize_append]
    omega
  rw [if_neg, if_neg he.ends.ne_empty, if_neg (by omega)]
  intro hn
  apply hnul
  simp only [String.toList_append, List.contains_append, hn, Bool.true_or]

/-- If the walk to a joined name goes as far as looking it up, the directory is there. -/
theorem settled_of_resolve {follow : Bool} {a : Arrival} (he : Path.EndsInName directory)
    (hn : Path.IsName name) (hr : d.resolve follow (Path.join directory name) = .ok a) :
    ∃ place, d.Settled directory place := by
  unfold resolve at hr
  cases hf : pathFault? (Path.join directory name) with
  | some fault => simp [hf] at hr
  | none =>
    simp only [hf, he.ends.pieces_join hn, origin, Path.isAbsolute_join hn] at hr
    have hne : [name].all (· == "") = false := by simpa using hn.ne_empty
    obtain ⟨links, place, hl, hp⟩ := reaches_of_walk hr (Or.inr (Or.inl hne))
    exact ⟨place, settled_iff.mpr ⟨pathFault?_of_join he hf, links, hl, hp⟩⟩

section Calls

theorem ok_bind {ε α β : Type} (a : α) (f : α → Except ε β) : (Except.ok a >>= f) = f a := rfl

variable {entry : Entry} {bytes : List UInt8} {mode : Nat}

theorem Enters.read_none (h : d.Enters path place name)
    (hf : d.find? (place ++ [name]) = none) : d.read path = .error .noEntry := by
  rw [read, stat, h.resolve_none true hf]
  rfl

theorem Enters.read_file (h : d.Enters path place name)
    (hf : d.find? (place ++ [name]) = some (.file bytes mode)) : d.read path = .ok bytes := by
  rw [read, stat, h.resolve_file true hf]
  rfl

theorem resolve_of_free {follow : Bool} {first : String} {rest : List String}
    (hf : pathFault? path = none) (hp : Path.pieces path = first :: rest) (hfits : Fits first)
    (hfree : d.find? (origin d.current path ++ [first]) = none)
    (hrest : rest.all (· == "") = false) : d.resolve follow path = .error .noEntry := by
  rw [resolve, hf, hp]
  exact walk_of_free hfits hfree hrest

theorem read_of_resolve_error {fault : DiskFault} (h : d.resolve true path = .error fault) :
    d.read path = .error fault := by
  rw [read, stat, h]
  rfl

theorem Enters.mode?_file (h : d.Enters path place name)
    (hf : d.find? (place ++ [name]) = some (.file bytes mode)) : d.mode? path = some mode := by
  rw [mode?, stat, h.resolve_file true hf]
  rfl

theorem readText_of_read {text : String} (h : d.read path = .ok (Bytes.ofText text)) :
    d.readText path = .ok text := by
  simp only [readText, h, ok_bind, Bytes.text?_ofText]
  rfl

/-- A path that can be read, or behind which there is nothing to read, ends neither in a directory
nor in a link to one. -/
theorem Enters.bars_of_read (h : d.Enters path place name)
    (hr : (∃ bytes, d.read path = .ok bytes) ∨ d.read path = .error .noEntry) :
    d.Bars (place ++ [name]) := by
  constructor
  · intro hf
    rw [read, stat, h.resolve_directory true hf] at hr
    rcases hr with ⟨_, hr⟩ | hr
    · cases hr
    · cases hr
  · intro target hf links there hreach
    rw [List.dropLast_concat] at hreach
    rw [read, stat] at hr
    rcases h.resolve_through hf hreach with hd | hd
    · rw [hd] at hr
      rcases hr with ⟨_, hr⟩ | hr
      · cases hr
      · cases hr
    · rw [hd] at hr
      rcases hr with ⟨_, hr⟩ | hr
      · cases hr
      · cases hr

theorem stat_eq_ok : d.stat path = .ok entry ↔
    ∃ l, d.resolve true path = .ok (.found l entry) := by
  rw [stat]
  cases d.resolve true path with
  | error fault => exact ⟨nofun, fun ⟨_, h⟩ => nomatch h⟩
  | ok a =>
    cases a with
    | free l slash => exact ⟨nofun, fun ⟨_, h⟩ => nomatch h⟩
    | found l there =>
      constructor
      · rintro ⟨⟩
        exact ⟨l, rfl⟩
      · rintro ⟨_, ⟨⟩⟩
        rfl

theorem find?_of_resolve {follow : Bool} {l : Location}
    (h : d.resolve follow path = .ok (.found l entry))
    (hne : entry ≠ .directory) : d.find? l = some entry := by
  rw [resolve] at h
  split at h
  · cases h
  · exact find?_of_walk h hne

theorem read_eq_ok : d.read path = .ok bytes ↔ ∃ mode, d.stat path = .ok (.file bytes mode) := by
  rw [read]
  cases d.stat path with
  | error fault => exact ⟨nofun, fun ⟨_, h⟩ => nomatch h⟩
  | ok there =>
    cases there with
    | directory => exact ⟨nofun, fun ⟨_, h⟩ => nomatch h⟩
    | link target => exact ⟨nofun, fun ⟨_, h⟩ => nomatch h⟩
    | file held mode =>
      constructor
      · rintro ⟨⟩
        exact ⟨mode, rfl⟩
      · rintro ⟨_, ⟨⟩⟩
        rfl

theorem mode?_of_stat (h : d.stat path = .ok (.file bytes mode)) : d.mode? path = some mode := by
  rw [mode?, h]

theorem mode?_of_no_file (h : ∀ bytes mode, d.stat path ≠ .ok (.file bytes mode)) :
    d.mode? path = none := by
  rw [mode?]
  split
  · rename_i bytes mode hstat
    exact absurd hstat (h bytes mode)
  · rfl

theorem make_of_slot {slash : Bool} (h : d.slot path = .ok (.name place slash)) (entry : Entry) :
    d.make path entry = if (d.find? place).isSome then .error .occupied
      else if slash ∧ entry ≠ .directory then .error .noEntry else .ok (d.put place entry) := by
  rw [make, h]
  rfl

theorem Enters.make_free (h : d.Enters path place name)
    (hf : d.find? (place ++ [name]) = none) (entry : Entry) :
    d.make path entry = .ok (d.put (place ++ [name]) entry) := by
  simp [make_of_slot h.slot_eq, hf]

theorem Enters.make_taken (h : d.Enters path place name)
    (hf : d.find? (place ++ [name]) ≠ none) (entry : Entry) :
    d.make path entry = .error .occupied := by
  rw [make_of_slot h.slot_eq, if_pos (Option.isSome_iff_ne_none.mpr hf)]

theorem Enters.append_file (h : d.Enters path place name)
    (hf : d.find? (place ++ [name]) = some (.file bytes mode)) (more : List UInt8) :
    d.append path more = .ok (d.put (place ++ [name]) (.file (bytes ++ more) mode)) := by
  rw [append, h.resolve_file true hf]
  rfl

theorem Enters.setMode_file (h : d.Enters path place name)
    (hf : d.find? (place ++ [name]) = some (.file bytes mode)) (other : Nat) :
    d.setMode path other = .ok (d.put (place ++ [name]) (.file bytes other)) := by
  rw [setMode, h.resolve_file true hf]
  rfl

theorem Enters.remove_file (h : d.Enters path place name)
    (hf : d.find? (place ++ [name]) = some (.file bytes mode)) :
    d.remove path = .ok (d.erase (place ++ [name])) := by
  rw [remove, h.resolve_file false hf]
  rfl

theorem Enters.rename_over {target last : String} {there : Location}
    (h : d.Enters path place name) (ht : d.Enters target there last)
    (hf : d.find? (place ++ [name]) = some entry)
    (hd : d.find? (there ++ [last]) ≠ some .directory) :
    d.rename path target = .ok ((d.erase (place ++ [name])).put (there ++ [last]) entry) := by
  simp only [rename, h.slot_eq, ht.slot_eq, ok_bind, hf, if_neg hd]
  rfl

end Calls

section Changes

variable {l : Location}

/-- A path goes on leading to its directory when something else is put where no walk passes. -/
theorem Settled.put (h : d.Settled path place) (hb : d.Bars l) (entry : Entry) :
    (d.put l entry).Settled path place := by
  obtain ⟨hf, links, hl, hr⟩ := settled_iff.mp h
  exact settled_iff.mpr ⟨hf, links, hl, hr.update hb (fun m hm => find?_put_other d entry hm)⟩

theorem Enters.put (h : d.Enters path place name) (hb : d.Bars l) (entry : Entry) :
    (d.put l entry).Enters path place name := by
  obtain ⟨front, links, hp, hl, hr⟩ := h.reaches
  have hr' := hr.update hb (fun m hm => find?_put_other d entry hm)
  exact ⟨h.fit, h.isName, h.short, front, links, hp, hl, hr'⟩

/-- Putting a file somewhere opens no place that no walk passes. -/
theorem Bars.put_file (h : d.Bars l) {m : Location} (hm : m ≠ [])
    (bytes : List UInt8) (mode : Nat) : (d.put m (.file bytes mode)).Bars l := by
  have hself := find?_put_self d (.file bytes mode) hm
  by_cases he : l = m
  · rw [he]
    exact bars_of_file hself
  have hother := find?_put_other d (.file bytes mode) he
  refine ⟨by rw [hother]; exact h.1, ?_⟩
  intro target ht links there hr
  rw [hother] at ht
  have hback : ∀ k, k ≠ m → d.find? k = (d.put m (.file bytes mode)).find? k :=
    fun k hk => (find?_put_other d _ hk).symm
  exact h.2 target ht links there (hr.update (bars_of_file hself) hback)

end Changes

end CrudLayers.Disk
