import CrudLayers.Disk.Walk

namespace CrudLayers.Disk

/-- A piece that is looked up: no filler, not the way up, and not too long. -/
structure Fits (piece : String) : Prop where
  no_filler : ¬(piece = "" ∨ piece = ".")
  no_parent : piece ≠ ".."
  short : ¬piece.utf8ByteSize > longestName

/-- From a directory, along some pieces and through so many links, to a directory. -/
inductive Reaches (d : Disk) : Location → List String → Nat → Location → Prop where
  | here (place : Location) : Reaches d place [] 0 place
  | stay {here place : Location} {piece : String} {rest : List String} {links : Nat}
      (filler : piece = "" ∨ piece = ".") (tail : Reaches d here rest links place) :
      Reaches d here (piece :: rest) links place
  | up {here place : Location} {rest : List String} {links : Nat}
      (tail : Reaches d here.dropLast rest links place) :
      Reaches d here (".." :: rest) links place
  | down {here place : Location} {piece : String} {rest : List String} {links : Nat}
      (fits : Fits piece) (found : d.find? (here ++ [piece]) = some .directory)
      (tail : Reaches d (here ++ [piece]) rest links place) :
      Reaches d here (piece :: rest) links place
  | follow {here place : Location} {piece target : String} {rest : List String} {links : Nat}
      (fits : Fits piece) (found : d.find? (here ++ [piece]) = some (.link target))
      (tail : Reaches d (origin here target) (Path.pieces target ++ rest) links place) :
      Reaches d here (piece :: rest) (links + 1) place

section Walker

variable {d : Disk} {follow : Bool} {here : Location} {piece : String} {rest : List String}

theorem stroll_filler (h : piece = "" ∨ piece = ".") :
    d.stroll follow here (piece :: rest) = d.stroll follow here rest := by
  rw [stroll, if_pos h]

theorem stroll_up : d.stroll follow here (".." :: rest) = d.stroll follow here.dropLast rest := by
  rw [stroll, if_neg (by decide), if_pos rfl]

theorem stroll_name (h : Fits piece) : d.stroll follow here (piece :: rest) =
    match d.find? (here ++ [piece]) with
    | none =>
      if rest.all (· == "") then .ok (.arrival (.free (here ++ [piece]) (rest != [])))
      else .error .noEntry
    | some .directory => d.stroll follow (here ++ [piece]) rest
    | some (.file bytes mode) =>
      if rest = [] then .ok (.arrival (.found (here ++ [piece]) (.file bytes mode)))
      else .error .notDirectory
    | some (.link target) =>
      if rest = [] ∧ follow = false then .ok (.arrival (.found (here ++ [piece]) (.link target)))
      else .ok (.link here target rest) := by
  cases hf : d.find? (here ++ [piece]) with
  | none => simp only [stroll, if_neg h.no_filler, if_neg h.no_parent, if_neg h.short, hf]
  | some entry =>
    cases entry <;>
      simp only [stroll, if_neg h.no_filler, if_neg h.no_parent, if_neg h.short, hf]

/-- Walks that begin with the same stroll are the same. -/
theorem walk_congr {links : Nat} {there : Location} {ps qs : List String}
    (h : d.stroll follow here ps = d.stroll follow there qs) :
    d.walk follow links here ps = d.walk follow links there qs := by
  cases links <;> rw [walk, walk, h]

theorem walk_error {links : Nat} {fault : DiskFault} {ps : List String}
    (h : d.stroll follow here ps = .error fault) :
    d.walk follow links here ps = .error fault := by
  cases links <;> rw [walk, h] <;> rfl

theorem walk_arrival {links : Nat} {a : Arrival} {ps : List String}
    (h : d.stroll follow here ps = .ok (.arrival a)) : d.walk follow links here ps = .ok a := by
  cases links <;> rw [walk, h] <;> rfl

theorem walk_link_zero {target : String} {ps : List String}
    (h : d.stroll follow here ps = .ok (.link here target rest)) :
    d.walk follow 0 here ps = .error .linkLoop := by
  rw [walk, h]
  rfl

theorem walk_link_succ {links : Nat} {holder : Location} {target : String} {ps : List String}
    (h : d.stroll follow here ps = .ok (.link holder target rest)) :
    d.walk follow (links + 1) here ps =
      d.walk follow links (origin holder target) (Path.pieces target ++ rest) := by
  rw [walk, h]
  rfl

/-- No walk goes on behind a name that is free. -/
theorem walk_of_free {links : Nat} (h : Fits piece) (hfree : d.find? (here ++ [piece]) = none)
    (hrest : rest.all (· == "") = false) :
    d.walk follow links here (piece :: rest) = .error .noEntry := by
  apply walk_error
  rw [stroll_name h, hfree]
  simp only [hrest]
  rfl

theorem walk_of_directory {limit : Nat} (h : Fits piece)
    (hf : d.find? (here ++ [piece]) = some .directory) :
    d.walk follow limit here (piece :: rest) = d.walk follow limit (here ++ [piece]) rest := by
  apply walk_congr
  rw [stroll_name h, hf]

theorem walk_of_file {limit : Nat} {bytes : List UInt8} {mode : Nat} (h : Fits piece)
    (hf : d.find? (here ++ [piece]) = some (.file bytes mode)) :
    d.walk follow limit here [piece] = .ok (.found (here ++ [piece]) (.file bytes mode)) := by
  apply walk_arrival
  rw [stroll_name h, hf]
  rfl

theorem walk_of_link {limit : Nat} {target : String} (h : Fits piece)
    (hf : d.find? (here ++ [piece]) = some (.link target)) (hr : follow = true ∨ rest ≠ []) :
    d.walk follow (limit + 1) here (piece :: rest) =
      d.walk follow limit (origin here target) (Path.pieces target ++ rest) := by
  apply walk_link_succ
  rw [stroll_name h, hf]
  apply if_neg
  rintro ⟨hnil, hnot⟩
  rcases hr with hr | hr
  · rw [hr] at hnot
    cases hnot
  · exact hr hnil

end Walker

variable {d : Disk} {here place : Location}

/-- A walk goes where the relation says, as long as there are not too many links, and on from
there. -/
theorem walk_of_reaches {ps : List String} {links : Nat} (h : d.Reaches here ps links place)
    (follow : Bool) (limit : Nat) (rest : List String) (hr : follow = true ∨ rest ≠ []) :
    d.walk follow limit here (ps ++ rest) =
      if links ≤ limit then d.walk follow (limit - links) place rest else .error .linkLoop := by
  induction h generalizing limit with
  | here place => simp
  | stay filler tail ih =>
    rw [← ih]
    exact walk_congr (stroll_filler filler)
  | up tail ih =>
    rw [← ih]
    exact walk_congr stroll_up
  | down fits found tail ih =>
    rw [← ih]
    apply walk_congr
    rw [List.cons_append, stroll_name fits, found]
  | @follow here place piece target front links fits found tail ih =>
    have hs : d.stroll follow here (piece :: front ++ rest) =
        .ok (.link here target (front ++ rest)) := by
      rw [List.cons_append, stroll_name fits, found]
      apply if_neg
      rintro ⟨hn, hf⟩
      rcases hr with hr | hr
      · rw [hr] at hf
        cases hf
      · exact hr (List.append_eq_nil_iff.mp hn).2
    cases limit with
    | zero => simpa using walk_link_zero hs
    | succ limit =>
      rw [walk_link_succ hs, ← List.append_assoc, ih]
      simp

theorem walk_to_directory {ps : List String} {links limit : Nat}
    (h : d.Reaches here ps links place) (hl : links ≤ limit) :
    d.walk true limit here ps = .ok (.found place .directory) := by
  have hw := walk_of_reaches h true limit [] (Or.inl rfl)
  rw [List.append_nil, if_pos hl] at hw
  rw [hw]
  exact walk_arrival rfl

/-- A walk that succeeds passes over its first piece, goes up, or looks up a name. -/
theorem walk_cons_ok {follow : Bool} {limit : Nat} {piece : String} {rest : List String}
    {a : Arrival} (h : d.walk follow limit here (piece :: rest) = .ok a) :
    ((piece = "" ∨ piece = ".") ∧ d.walk follow limit here rest = .ok a) ∨
    (piece = ".." ∧ d.walk follow limit here.dropLast rest = .ok a) ∨ Fits piece := by
  by_cases hf : piece = "" ∨ piece = "."
  · rw [walk_congr (stroll_filler hf)] at h
    exact Or.inl ⟨hf, h⟩
  by_cases hp : piece = ".."
  · subst hp
    rw [walk_congr stroll_up] at h
    exact Or.inr (Or.inl ⟨rfl, h⟩)
  by_cases hs : piece.utf8ByteSize > longestName
  · have hlong : d.stroll follow here (piece :: rest) = .error .nameTooLong := by
      rw [stroll, if_neg hf, if_neg hp, if_pos hs]
    rw [walk_error hlong] at h
    cases h
  · exact Or.inr (Or.inr ⟨hf, hp, hs⟩)

/-- A walk that looks up a name and succeeds finds nothing there and has come to its end, goes on in
a directory, finds something else and has come to its end, or goes on through a link. -/
theorem walk_name_ok {follow : Bool} {limit : Nat} {piece : String} {rest : List String}
    {a : Arrival} (h : Fits piece) (hw : d.walk follow limit here (piece :: rest) = .ok a) :
    (d.find? (here ++ [piece]) = none ∧ rest.all (· == "") = true ∧
      a = .free (here ++ [piece]) (rest != [])) ∨
    (d.find? (here ++ [piece]) = some .directory ∧
      d.walk follow limit (here ++ [piece]) rest = .ok a) ∨
    (rest = [] ∧ ∃ entry, d.find? (here ++ [piece]) = some entry ∧ entry ≠ .directory ∧
      (∀ target, entry = .link target → follow = false) ∧ a = .found (here ++ [piece]) entry) ∨
    ∃ target fewer, d.find? (here ++ [piece]) = some (.link target) ∧
      (follow = true ∨ rest ≠ []) ∧ limit = fewer + 1 ∧
      d.walk follow fewer (origin here target) (Path.pieces target ++ rest) = .ok a := by
  have hstroll := @stroll_name d follow here _ rest h
  cases hfind : d.find? (here ++ [piece]) with
  | none =>
    simp only [hfind] at hstroll
    split at hstroll
    · rename_i hall
      rw [walk_arrival hstroll] at hw
      cases hw
      exact Or.inl ⟨rfl, hall, rfl⟩
    · rw [walk_error hstroll] at hw
      cases hw
  | some entry =>
    simp only [hfind] at hstroll
    cases entry with
    | directory =>
      rw [walk_congr hstroll] at hw
      exact Or.inr (Or.inl ⟨rfl, hw⟩)
    | file bytes mode =>
      simp only at hstroll
      split at hstroll
      · rename_i hnil
        rw [walk_arrival hstroll] at hw
        cases hw
        exact Or.inr (Or.inr (Or.inl ⟨hnil, _, rfl, by simp, by simp, rfl⟩))
      · rw [walk_error hstroll] at hw
        cases hw
    | link target =>
      simp only at hstroll
      split at hstroll
      · rename_i hnil
        rw [walk_arrival hstroll] at hw
        cases hw
        exact Or.inr (Or.inr (Or.inl ⟨hnil.1, _, rfl, by simp, fun _ _ => hnil.2, rfl⟩))
      · rename_i hon
        have hon : follow = true ∨ rest ≠ [] := by
          cases follow
          · exact Or.inr (fun hnil => hon ⟨hnil, rfl⟩)
          · exact Or.inl rfl
        cases limit with
        | zero =>
          rw [walk_link_zero hstroll] at hw
          cases hw
        | succ limit =>
          rw [walk_link_succ hstroll] at hw
          exact Or.inr (Or.inr (Or.inr ⟨target, limit, rfl, hon, rfl, hw⟩))

/-- How a walk comes to its end, piece by piece. -/
inductive Walked (d : Disk) (follow : Bool) (a : Arrival) :
    Nat → Location → List String → Prop where
  | done {limit : Nat} {here : Location} (ends : a = .found here .directory) :
      Walked d follow a limit here []
  | stay {limit : Nat} {here : Location} {piece : String} {rest : List String}
      (filler : piece = "" ∨ piece = ".") (tail : Walked d follow a limit here rest) :
      Walked d follow a limit here (piece :: rest)
  | up {limit : Nat} {here : Location} {rest : List String}
      (tail : Walked d follow a limit here.dropLast rest) :
      Walked d follow a limit here (".." :: rest)
  | free {limit : Nat} {here : Location} {piece : String} {rest : List String} (fits : Fits piece)
      (nothing : d.find? (here ++ [piece]) = none) (slashes : rest.all (· == "") = true)
      (ends : a = .free (here ++ [piece]) (rest != [])) :
      Walked d follow a limit here (piece :: rest)
  | down {limit : Nat} {here : Location} {piece : String} {rest : List String} (fits : Fits piece)
      (found : d.find? (here ++ [piece]) = some .directory)
      (tail : Walked d follow a limit (here ++ [piece]) rest) :
      Walked d follow a limit here (piece :: rest)
  | found {limit : Nat} {here : Location} {piece : String} {rest : List String} {entry : Entry}
      (fits : Fits piece) (found : d.find? (here ++ [piece]) = some entry) (ne : entry ≠ .directory)
      (kept : ∀ target, entry = .link target → follow = false) (last : rest = [])
      (ends : a = .found (here ++ [piece]) entry) : Walked d follow a limit here (piece :: rest)
  | follow {limit : Nat} {here : Location} {piece target : String} {rest : List String}
      (fits : Fits piece) (found : d.find? (here ++ [piece]) = some (.link target))
      (on : follow = true ∨ rest ≠ [])
      (tail : Walked d follow a limit (origin here target) (Path.pieces target ++ rest)) :
      Walked d follow a (limit + 1) here (piece :: rest)

theorem walked_of_walk {follow : Bool} {limit : Nat} {ps : List String} {a : Arrival}
    (h : d.walk follow limit here ps = .ok a) : Walked d follow a limit here ps := by
  induction limit using Nat.strongRecOn generalizing here ps with
  | ind limit ih =>
    induction ps generalizing here with
    | nil =>
      have harrival : d.stroll follow here [] = .ok (.arrival (.found here .directory)) := rfl
      rw [walk_arrival harrival] at h
      cases h
      exact .done rfl
    | cons piece rest ihp =>
      rcases walk_cons_ok h with ⟨filler, hon⟩ | ⟨rfl, hon⟩ | fits
      · exact .stay filler (ihp hon)
      · exact .up (ihp hon)
      rcases walk_name_ok fits h with ⟨nothing, slashes, ends⟩ | ⟨found, hon⟩ |
        ⟨last, entry, found, ne, kept, ends⟩ | ⟨target, fewer, found, on, rfl, hon⟩
      · exact .free fits nothing slashes ends
      · exact .down fits found (ihp hon)
      · exact .found fits found ne kept last ends
      · exact .follow fits found on (ih fewer (Nat.lt_succ_self _) hon)

theorem Walked.walk_eq {follow : Bool} {limit : Nat} {ps : List String} {a : Arrival}
    (h : Walked d follow a limit here ps) : d.walk follow limit here ps = .ok a := by
  induction h with
  | done ends =>
    rw [ends]
    exact walk_arrival rfl
  | stay filler tail ih => rwa [walk_congr (stroll_filler filler)]
  | up tail ih => rwa [walk_congr stroll_up]
  | free fits nothing slashes ends =>
    apply walk_arrival
    rw [stroll_name fits, nothing, ends]
    simp [slashes]
  | down fits found tail ih => rwa [walk_of_directory fits found]
  | @found limit here piece rest entry fits found ne kept last ends =>
    apply walk_arrival
    rw [stroll_name fits, found, ends]
    cases entry with
    | directory => exact absurd rfl ne
    | file bytes mode => simp [last]
    | link target => simp [last, kept target rfl]
  | follow fits found on tail ih => rwa [walk_of_link fits found on]

/-- What a path leads to, other than a directory, stands where the walk has come to. -/
theorem find?_of_walk {follow : Bool} {limit : Nat} {ps : List String} {l : Location}
    {entry : Entry} (h : d.walk follow limit here ps = .ok (.found l entry))
    (hne : entry ≠ .directory) : d.find? l = some entry := by
  induction walked_of_walk h with
  | done ends =>
    cases ends
    exact absurd rfl hne
  | stay _ tail ih => exact ih tail.walk_eq
  | up tail ih => exact ih tail.walk_eq
  | free _ _ _ ends => cases ends
  | down _ _ tail ih => exact ih tail.walk_eq
  | found _ found _ _ _ ends =>
    cases ends
    exact found
  | follow _ _ _ tail ih => exact ih tail.walk_eq

theorem find?_of_free {follow : Bool} {limit : Nat} {ps : List String} {l : Location} {slash : Bool}
    (h : d.walk follow limit here ps = .ok (.free l slash)) : d.find? l = none := by
  induction walked_of_walk h with
  | done ends => cases ends
  | stay _ tail ih => exact ih tail.walk_eq
  | up tail ih => exact ih tail.walk_eq
  | free _ nothing _ ends =>
    cases ends
    exact nothing
  | down _ _ tail ih => exact ih tail.walk_eq
  | found _ _ _ _ _ ends => cases ends
  | follow _ _ _ tail ih => exact ih tail.walk_eq

/-- What stands where an entry or a free name is come to does not matter for the way there: with a
file put there, the walk finds the file. -/
theorem Walked.to_file {e : Disk} {limit : Nat} {ps : List String} {l : Location} {a : Arrival}
    {bytes : List UInt8} {mode : Nat} (h : Walked d true a limit here ps)
    (ha : a = .free l false ∨ ∃ entry, entry ≠ .directory ∧ a = .found l entry)
    (hl : e.find? l = some (.file bytes mode))
    (hdirectory : ∀ m, d.find? m = some .directory → e.find? m = some .directory)
    (hlink : ∀ m target, d.find? m = some (.link target) → e.find? m = some (.link target)) :
    Walked e true (.found l (.file bytes mode)) limit here ps := by
  induction h with
  | done ends =>
    subst ends
    rcases ha with ha | ⟨entry, hne, ha⟩
    · cases ha
    · cases ha
      exact absurd rfl hne
  | stay filler tail ih => exact .stay filler ih
  | up tail ih => exact .up ih
  | free fits nothing slashes ends =>
    subst ends
    rcases ha with ha | ⟨entry, hne, ha⟩
    · obtain ⟨rfl, hlast⟩ := Arrival.free.inj ha
      exact .found fits hl (by simp) (by simp) (by simpa using hlast) rfl
    · cases ha
  | down fits found tail ih => exact .down fits (hdirectory _ found) ih
  | found fits found ne kept last ends =>
    subst ends
    rcases ha with ha | ⟨entry, hne, ha⟩
    · cases ha
    · cases ha
      exact .found fits hl (by simp) (by simp) last rfl
  | follow fits found on tail ih => exact .follow fits (hlink _ _ found) on ih

/-- The arrival is at a directory, or some name was looked up on the way to it behind these pieces,
or anything was found with a slash behind it. -/
def Beyond (a : Arrival) (rest : List String) : Prop :=
  (∃ place, a = .found place .directory) ∨ rest.all (· == "") = false ∨
    rest ≠ [] ∧ ∃ place entry, a = .found place entry

theorem Beyond.not_all_empty {rest : List String} {slash : Bool}
    (h : Beyond (.free place slash) rest) : rest.all (· == "") = false := by
  rcases h with ⟨_, ha⟩ | ha | ⟨_, _, _, ha⟩
  · cases ha
  · exact ha
  · cases ha

theorem Beyond.ne_nil {rest : List String} {entry : Entry}
    (h : Beyond (.found place entry) rest) (he : entry ≠ .directory) : rest ≠ [] := by
  rcases h with ⟨_, ha⟩ | ha | ⟨hne, _⟩
  · cases ha
    exact absurd rfl he
  · rintro rfl
    cases ha
  · exact hne

/-- A walk that gets beyond its first pieces has come to a directory at the end of them. -/
theorem reaches_of_walk {follow : Bool} {limit : Nat} {ps rest : List String} {a : Arrival}
    (hw : d.walk follow limit here (ps ++ rest) = .ok a) (ha : Beyond a rest) :
    ∃ links place, links ≤ limit ∧ d.Reaches here ps links place := by
  induction limit using Nat.strongRecOn generalizing here ps with
  | ind limit ih =>
    induction ps generalizing here with
    | nil => exact ⟨0, here, Nat.zero_le _, .here here⟩
    | cons piece front ihp =>
      rw [List.cons_append] at hw
      cases walked_of_walk hw with
      | stay filler tail =>
        obtain ⟨links, place, hl, ht⟩ := ihp tail.walk_eq
        exact ⟨links, place, hl, .stay filler ht⟩
      | up tail =>
        obtain ⟨links, place, hl, ht⟩ := ihp tail.walk_eq
        exact ⟨links, place, hl, .up ht⟩
      | free fits nothing slashes ends =>
        subst ends
        rw [List.all_append, ha.not_all_empty, Bool.and_false] at slashes
        cases slashes
      | down fits found tail =>
        obtain ⟨links, place, hl, ht⟩ := ihp tail.walk_eq
        exact ⟨links, place, hl, .down fits found ht⟩
      | follow fits found on tail =>
        have hon := tail.walk_eq
        rw [← List.append_assoc] at hon
        obtain ⟨links, place, hl, ht⟩ := ih _ (Nat.lt_succ_self _) hon
        exact ⟨links + 1, place, Nat.succ_le_succ hl, .follow fits found ht⟩
      | found fits found ne kept last ends =>
        subst ends
        exact absurd (List.append_eq_nil_iff.mp last).2 (ha.ne_nil ne)

theorem Reaches.append {ps qs : List String} {middle : Location} {i j : Nat}
    (h : d.Reaches here ps i middle) (hq : d.Reaches middle qs j place) :
    d.Reaches here (ps ++ qs) (i + j) place := by
  induction h with
  | here => simpa using hq
  | stay filler tail ih => exact .stay filler (ih hq)
  | up tail ih => exact .up (ih hq)
  | down fits found tail ih => exact .down fits found (ih hq)
  | @follow here middle piece target rest links fits found tail ih =>
    have ht := ih hq
    rw [List.append_assoc] at ht
    rw [Nat.add_right_comm]
    exact .follow fits found ht

theorem Reaches.split_nil {qs : List String} {links : Nat} (h : d.Reaches here qs links place) :
    ∃ i j middle, i + j = links ∧ d.Reaches here [] i middle ∧ d.Reaches middle qs j place :=
  ⟨0, links, here, Nat.zero_add _, .here here, h⟩

/-- A walk along two stretches passes a directory between them. -/
theorem Reaches.split {xs ps qs : List String} {links : Nat} (h : d.Reaches here xs links place)
    (hx : xs = ps ++ qs) :
    ∃ i j middle, i + j = links ∧ d.Reaches here ps i middle ∧ d.Reaches middle qs j place := by
  induction h generalizing ps with
  | here place =>
    obtain ⟨rfl, rfl⟩ := List.append_eq_nil_iff.mp hx.symm
    exact (Reaches.here place).split_nil
  | stay filler tail ih =>
    cases ps with
    | nil => exact (hx ▸ Reaches.stay filler tail).split_nil
    | cons p front =>
      cases hx
      obtain ⟨i, j, m, hl, h1, h2⟩ := ih rfl
      exact ⟨i, j, m, hl, .stay filler h1, h2⟩
  | up tail ih =>
    cases ps with
    | nil => exact (hx ▸ Reaches.up tail).split_nil
    | cons p front =>
      cases hx
      obtain ⟨i, j, m, hl, h1, h2⟩ := ih rfl
      exact ⟨i, j, m, hl, .up h1, h2⟩
  | down fits found tail ih =>
    cases ps with
    | nil => exact (hx ▸ Reaches.down fits found tail).split_nil
    | cons p front =>
      cases hx
      obtain ⟨i, j, m, hl, h1, h2⟩ := ih rfl
      exact ⟨i, j, m, hl, .down fits found h1, h2⟩
  | @follow here place piece target rest links fits found tail ih =>
    cases ps with
    | nil => exact (hx ▸ Reaches.follow fits found tail).split_nil
    | cons p front =>
      cases hx
      obtain ⟨i, j, m, hl, h1, h2⟩ := @ih (Path.pieces target ++ front) (by simp)
      exact ⟨i + 1, j, m, by omega, .follow fits found h1, h2⟩

theorem Reaches.unique {ps : List String} {i j : Nat} {other : Location}
    (h : d.Reaches here ps i place) (h' : d.Reaches here ps j other) : place = other := by
  have hw := walk_to_directory h (Nat.le_max_left i j)
  rw [walk_to_directory h' (Nat.le_max_right i j)] at hw
  cases hw
  rfl

/-- Where both disks have something that a walk goes on from, they have the same. -/
structure Alike (d e : Disk) : Prop where
  no_link : ∀ {l : Location} {target : String}, d.find? l = some .directory →
    e.find? l ≠ some (.link target)
  no_directory : ∀ {l : Location} {target : String}, d.find? l = some (.link target) →
    e.find? l ≠ some .directory
  same_link : ∀ {l : Location} {target other : String}, d.find? l = some (.link target) →
    e.find? l = some (.link other) → target = other

/-- A walk that comes to a directory on both disks comes to the same one. -/
theorem Alike.place_eq {e : Disk} {ps : List String} {i j : Nat} {other : Location}
    (h : Alike d e) (hd : d.Reaches here ps i place) (he : e.Reaches here ps j other) :
    place = other := by
  induction hd generalizing j with
  | here place =>
    cases he
    rfl
  | stay filler tail ih =>
    cases he with
    | stay _ tail' => exact ih tail'
    | up tail' => exact absurd filler (by decide)
    | down fits _ _ => exact absurd filler fits.no_filler
    | follow fits _ _ => exact absurd filler fits.no_filler
  | up tail ih =>
    cases he with
    | stay filler _ => exact absurd filler (by decide)
    | up tail' => exact ih tail'
    | down fits _ _ => exact absurd rfl fits.no_parent
    | follow fits _ _ => exact absurd rfl fits.no_parent
  | down fits found tail ih =>
    cases he with
    | stay filler _ => exact absurd filler fits.no_filler
    | up _ => exact absurd rfl fits.no_parent
    | down _ _ tail' => exact ih tail'
    | follow _ found' _ => exact absurd found' (h.no_link found)
  | follow fits found tail ih =>
    cases he with
    | stay filler _ => exact absurd filler fits.no_filler
    | up _ => exact absurd rfl fits.no_parent
    | down _ found' _ => exact absurd found' (h.no_directory found)
    | follow _ found' tail' =>
      obtain rfl := h.same_link found found'
      exact ih tail'

theorem reaches_cons {piece : String} {rest : List String} {links : Nat}
    (h : d.Reaches here (piece :: rest) links place) :
    ((piece = "" ∨ piece = ".") ∧ d.Reaches here rest links place) ∨
    (piece = ".." ∧ d.Reaches here.dropLast rest links place) ∨
    (d.find? (here ++ [piece]) = some .directory ∧ d.Reaches (here ++ [piece]) rest links place) ∨
    ∃ target, d.find? (here ++ [piece]) = some (.link target) := by
  cases h with
  | stay filler tail => exact Or.inl ⟨filler, tail⟩
  | up tail => exact Or.inr (Or.inl ⟨rfl, tail⟩)
  | down _ found tail => exact Or.inr (Or.inr (Or.inl ⟨found, tail⟩))
  | follow _ found _ => exact Or.inr (Or.inr (Or.inr ⟨_, found⟩))

theorem not_reaches_of_free {last : String} {links : Nat} (hfiller : ¬(last = "" ∨ last = "."))
    (hup : last ≠ "..") (hfree : d.find? (here ++ [last]) = none) :
    ¬d.Reaches here [last] links place := by
  intro h
  rcases reaches_cons h with ⟨filler, _⟩ | ⟨rfl, _⟩ | ⟨found, _⟩ | ⟨_, found⟩
  · exact hfiller filler
  · exact hup rfl
  · rw [hfree] at found
    cases found
  · rw [hfree] at found
    cases found

/-- No walk to a directory passes this place: it holds no directory, and no link to one. -/
def Bars (d : Disk) (l : Location) : Prop :=
  d.find? l ≠ some .directory ∧ ∀ target, d.find? l = some (.link target) →
    ∀ links place, ¬d.Reaches (origin l.dropLast target) (Path.pieces target) links place

theorem bars_of_none {l : Location} (h : d.find? l = none) : d.Bars l := by
  refine ⟨by simp [h], ?_⟩
  intro target ht
  rw [h] at ht
  cases ht

theorem bars_of_file {l : Location} {bytes : List UInt8} {mode : Nat}
    (h : d.find? l = some (.file bytes mode)) : d.Bars l := by
  refine ⟨by simp [h], ?_⟩
  intro target ht
  rw [h] at ht
  cases ht

/-- What stands at a place that no walk passes may be replaced by anything: walks to directories
go on as before. -/
theorem Reaches.update {e : Disk} {l : Location} {ps : List String} {links : Nat}
    (h : d.Reaches here ps links place) (hb : d.Bars l)
    (same : ∀ m, m ≠ l → e.find? m = d.find? m) : e.Reaches here ps links place := by
  induction h with
  | here place => exact .here place
  | stay filler tail ih => exact .stay filler ih
  | up tail ih => exact .up ih
  | @down here place piece rest links fits found tail ih =>
    refine .down fits ?_ ih
    rw [same _ ?_, found]
    rintro rfl
    exact hb.1 found
  | @follow here place piece target rest links fits found tail ih =>
    refine .follow fits ?_ ih
    rw [same _ ?_, found]
    rintro rfl
    obtain ⟨i, j, m, _, ht, _⟩ := tail.split rfl
    rw [← @List.dropLast_concat _ here piece] at ht
    exact hb.2 target found i m ht

end CrudLayers.Disk
