import CrudLayers.Proofs.Tables

namespace CrudLayers.Setting

section Entries

variable {key : String} {v : Setting} {lower upper : List (String × Setting)}

/-- What stands under a key once one table is laid over another, by what each of them has there. -/
def laid : Option Setting → Option Setting → Option Setting
  | lower, none => lower
  | none, some v => some v
  | some w, some v => some (layOver w v)

theorem laid_eq_none_iff {low high : Option Setting} :
    laid low high = none ↔ low = none ∧ high = none := by
  cases low <;> cases high <;> simp [laid]

/-- A value that is no table hides whatever is below it. -/
theorem laid_of_not_table {low high : Option Setting}
    (h : ∀ v, high = some v → ∀ inner, v ≠ table inner) : laid low high = high.or low := by
  cases high with
  | none => simp [laid]
  | some v =>
    cases low with
    | none => rfl
    | some w =>
      cases v with
      | table inner => exact absurd rfl (h _ rfl inner)
      | _ => simp [laid, layOver]

/-- Each entry of the upper table is put in place in its turn. -/
theorem layEntries_cons (lower upper : List (String × Setting)) (e : String × Setting) : ∃ w,
    laid (lower.lookup e.1) (some e.2) = some w ∧
      layEntries lower (e :: upper) = layEntries (put e.1 w lower) upper := by
  obtain ⟨key, v⟩ := e
  cases hlookup : lower.lookup key with
  | none => exact ⟨v, rfl, by rw [layEntries, hlookup]⟩
  | some w => exact ⟨layOver w v, rfl, by rw [layEntries, hlookup]⟩

theorem lookup_layEntries (hkeys : (upper.map Prod.fst).Pairwise (· < ·)) :
    (layEntries lower upper).lookup key = laid (lower.lookup key) (upper.lookup key) := by
  induction upper generalizing lower with
  | nil => simp [layEntries, laid]
  | cons e rest ih =>
    obtain ⟨hfirst, hrest⟩ := List.pairwise_cons.mp hkeys
    obtain ⟨w, hw, hlay⟩ := layEntries_cons lower rest e
    rw [hlay, ih hrest, List.lookup_cons]
    by_cases hkey : key = e.1
    · -- nothing after this entry has its key again
      subst hkey
      have habsent : rest.lookup e.1 = none := by
        apply lookup_eq_none_iff.mpr
        intro hmem
        exact lt_irrefl _ (hfirst e.1 hmem)
      rw [habsent, lookup_put, beq_self_eq_true, hw, laid]
    · rw [lookup_put_of_ne hkey, beq_false_of_ne hkey]

theorem mem_keys_layEntries (hkeys : (upper.map Prod.fst).Pairwise (· < ·)) :
    key ∈ (layEntries lower upper).map Prod.fst ↔
      key ∈ lower.map Prod.fst ∨ key ∈ upper.map Prod.fst := by
  rw [← not_iff_not, not_or, ← lookup_eq_none_iff, ← lookup_eq_none_iff, ← lookup_eq_none_iff,
    lookup_layEntries hkeys, laid_eq_none_iff]

theorem put_of_lt (h : ∀ k ∈ lower.map Prod.fst, k < key) :
    put key v lower = lower ++ [(key, v)] := by
  induction lower with
  | nil => rfl
  | cons e rest ih =>
    obtain ⟨hfirst, hrest⟩ := List.forall_mem_cons.mp h
    rw [put, if_neg (not_lt.mpr hfirst.le), if_neg (Ne.symm hfirst.ne), ih hrest]
    rfl

/-- Entries that come after all others stay as they are. -/
theorem layEntries_of_ascending (h : ((lower ++ upper).map Prod.fst).Pairwise (· < ·)) :
    layEntries lower upper = lower ++ upper := by
  induction upper generalizing lower with
  | nil => simp [layEntries]
  | cons e rest ih =>
    have hlt : ∀ k ∈ lower.map Prod.fst, k < e.1 := by
      intro k hk
      rw [List.map_append, List.pairwise_append] at h
      exact h.2.2 k hk e.1 List.mem_cons_self
    have habsent : lower.lookup e.1 = none := by
      apply lookup_eq_none_iff.mpr
      intro hmem
      exact lt_irrefl _ (hlt e.1 hmem)
    obtain ⟨w, hw, hlay⟩ := layEntries_cons lower rest e
    rw [habsent, laid, Option.some.injEq] at hw
    subst hw
    rw [hlay, put_of_lt hlt, ih (by simpa using h)]
    simp

theorem layEntries_nil (h : (upper.map Prod.fst).Pairwise (· < ·)) : layEntries [] upper = upper :=
  layEntries_of_ascending h

end Entries

section Ordered

variable {key : String} {v w : Setting} {lower upper : List (String × Setting)}

theorem ordered_layEntries_of (hlower : (table lower).Ordered)
    (hupper : ∀ e ∈ upper, e.2.Ordered ∧ ∀ w : Setting, w.Ordered → (layOver w e.2).Ordered) :
    (table (layEntries lower upper)).Ordered := by
  induction upper generalizing lower with
  | nil => simpa [layEntries] using hlower
  | cons e rest ih =>
    obtain ⟨⟨hv, hover⟩, hrest⟩ := List.forall_mem_cons.mp hupper
    obtain ⟨w, hw, hlay⟩ := layEntries_cons lower rest e
    have hordered : w.Ordered := by
      cases hlookup : lower.lookup e.1 with
      | none =>
        rw [hlookup, laid, Option.some.injEq] at hw
        exact hw ▸ hv
      | some below =>
        rw [hlookup, laid, Option.some.injEq] at hw
        exact hw ▸ hover below (hlower.values _ (mem_of_lookup hlookup))
    rw [hlay]
    exact ih (hlower.put hordered) hrest

/-- Laying keeps all keys ascending, at whatever depth tables meet. -/
theorem Ordered.layOver (hw : w.Ordered) (hv : v.Ordered) : (Setting.layOver w v).Ordered := by
  induction hv generalizing w with
  | @table upper keys values ih =>
    have hvalues : ∀ e ∈ upper, e.2.Ordered ∧ ∀ w : Setting, w.Ordered →
        (Setting.layOver w e.2).Ordered :=
      fun e he => ⟨values e he, fun w hw => ih e he hw⟩
    cases w with
    | table lower => simpa [Setting.layOver] using ordered_layEntries_of hw hvalues
    | _ => simpa [Setting.layOver] using Ordered.table keys values
  | text s => simpa [Setting.layOver] using Ordered.text s
  | signed n => simpa [Setting.layOver] using Ordered.signed n
  | unsigned n => simpa [Setting.layOver] using Ordered.unsigned n
  | float x => simpa [Setting.layOver] using Ordered.float x
  | flag b => simpa [Setting.layOver] using Ordered.flag b
  | list h => simpa [Setting.layOver] using Ordered.list h

theorem Ordered.layEntries (hlower : (Setting.table lower).Ordered)
    (hupper : (Setting.table upper).Ordered) :
    (Setting.table (Setting.layEntries lower upper)).Ordered :=
  ordered_layEntries_of hlower
    (fun e he => ⟨hupper.values e he, fun _ hw => hw.layOver (hupper.values e he)⟩)

end Ordered

/-- What a table says at the end of a way, if all that the way passes through is tables. -/
def said (entries : List (String × Setting)) : List String → Option Setting
  | [] => none
  | [key] => entries.lookup key
  | key :: rest => said (under key entries) rest

/-- Whatever the way passes through before its end is a table, as far as something is there. -/
def Passable (entries : List (String × Setting)) : List String → Prop
  | key :: next :: rest => (∀ v, entries.lookup key = some v → ∃ inner, v = table inner) ∧
      Passable (under key entries) (next :: rest)
  | _ => True

section Ways

variable {key : String} {way rest : List String} {v : Setting}
  {entries lower upper : List (String × Setting)}

theorem under_of_lookup (h : entries.lookup key = some (table lower)) :
    under key entries = lower := by
  rw [under, h]

theorem under_of_none (h : entries.lookup key = none) : under key entries = [] := by
  rw [under, h]

/-- Tables that stand under one key are laid over one another. -/
theorem under_layEntries (hupper : (table upper).Ordered)
    (hlow : ∀ v, lower.lookup key = some v → ∃ inner, v = table inner)
    (hhigh : ∀ v, upper.lookup key = some v → ∃ inner, v = table inner) :
    under key (layEntries lower upper) = layEntries (under key lower) (under key upper) := by
  have hlookup : (layEntries lower upper).lookup key =
      laid (lower.lookup key) (upper.lookup key) := lookup_layEntries hupper.keys
  cases hv : upper.lookup key with
  | none =>
    rw [hv, laid] at hlookup
    rw [under_of_none hv, under, under, hlookup]
    simp [layEntries]
  | some v =>
    obtain ⟨above, rfl⟩ := hhigh v hv
    cases hw : lower.lookup key with
    | none =>
      rw [hv, hw, laid] at hlookup
      rw [under_of_lookup hlookup, under_of_none hw, under_of_lookup hv]
      exact (layEntries_nil (hupper.values _ (mem_of_lookup hv)).keys).symm
    | some w =>
      obtain ⟨below, rfl⟩ := hlow w hw
      rw [hv, hw, laid, layOver] at hlookup
      rw [under_of_lookup hlookup, under_of_lookup hw, under_of_lookup hv]

theorem Passable.layEntries (hupper : (table upper).Ordered) (hlow : Passable lower way)
    (hhigh : Passable upper way) : Passable (Setting.layEntries lower upper) way := by
  induction way generalizing lower upper with
  | nil => trivial
  | cons key rest ih =>
    cases rest with
    | nil => trivial
    | cons next rest =>
      obtain ⟨htable, hlow⟩ := hlow
      obtain ⟨htable', hhigh⟩ := hhigh
      refine ⟨?_, ?_⟩
      · intro v hv
        rw [lookup_layEntries hupper.keys] at hv
        cases hhere : upper.lookup key with
        | none =>
          rw [hhere, laid] at hv
          exact htable v hv
        | some above =>
          obtain ⟨inner, rfl⟩ := htable' above hhere
          rw [hhere] at hv
          cases hbelow : lower.lookup key with
          | none =>
            rw [hbelow, laid, Option.some.injEq] at hv
            exact ⟨inner, hv.symm⟩
          | some w =>
            obtain ⟨below, rfl⟩ := htable w hbelow
            rw [hbelow, laid, layOver, Option.some.injEq] at hv
            exact ⟨_, hv.symm⟩
      · rw [under_layEntries hupper htable htable']
        exact ih hupper.under hlow hhigh

/-- At the end of a way the upper table has its say before the lower one, whatever the two say
elsewhere. -/
theorem said_layEntries (hupper : (table upper).Ordered) (hlow : Passable lower way)
    (hhigh : Passable upper way) (hend : ∀ v, said upper way = some v → ∀ inner, v ≠ table inner) :
    said (layEntries lower upper) way = (said upper way).or (said lower way) := by
  induction way generalizing lower upper with
  | nil => rfl
  | cons key rest ih =>
    cases rest with
    | nil => exact (lookup_layEntries hupper.keys).trans (laid_of_not_table hend)
    | cons next rest =>
      obtain ⟨htable, hlow⟩ := hlow
      obtain ⟨htable', hhigh⟩ := hhigh
      rw [said, under_layEntries hupper htable htable']
      · exact ih hupper.under hlow hhigh hend
      · exact fun h => nomatch h

theorem ordered_nested (way : List String) (hv : v.Ordered) : (v.nested way).Ordered := by
  induction way with
  | nil => exact hv
  | cons key rest ih =>
    rw [nested]
    exact .table (List.pairwise_singleton _ _) (List.forall_mem_singleton.mpr ih)

theorem under_nested (next : String) :
    under key [(key, v.nested (next :: rest))] = [(next, v.nested rest)] := by
  simp [under, nested]

theorem under_nested_of_ne {k : String} (hne : k ≠ key) : under k [(key, v.nested rest)] = [] := by
  rw [under, List.lookup_cons, beq_false_of_ne hne]
  rfl

theorem under_value (hv : ∀ inner, v ≠ table inner) : under key [(key, v)] = [] := by
  cases v with
  | table inner => exact absurd rfl (hv inner)
  | _ => simp [under]

theorem said_nil (way : List String) : said [] way = none := by
  induction way with
  | nil => rfl
  | cons key rest ih =>
    cases rest with
    | nil => rfl
    | cons next rest => exact ih

theorem passable_nil (way : List String) : Passable [] way := by
  induction way with
  | nil => trivial
  | cons key rest ih =>
    cases rest with
    | nil => trivial
    | cons next rest => exact ⟨fun v hv => (nomatch hv), ih⟩

theorem said_nested_self : said [(key, v.nested rest)] (key :: rest) = some v := by
  induction rest generalizing key with
  | nil => simp [said, nested]
  | cons next rest ih =>
    rw [said, under_nested]
    · exact ih
    · exact fun h => nomatch h

/-- A value inside tables says nothing at places that it does not stand at. -/
theorem said_nested_of_not_prefix (hv : ∀ inner, v ≠ table inner) (h : ¬ way <+: key :: rest) :
    said [(key, v.nested rest)] way = none := by
  induction way generalizing key rest with
  | nil => rfl
  | cons k way ih =>
    by_cases hk : k = key
    · subst hk
      rw [List.cons_prefix_cons, not_and] at h
      cases way with
      | nil => exact absurd List.nil_prefix (h rfl)
      | cons next way =>
        rw [said]
        · cases rest with
          | nil => rw [nested, under_value hv, said_nil]
          | cons next' rest =>
            rw [under_nested]
            exact ih (h rfl)
        · exact fun h => nomatch h
    · cases way with
      | nil => simp [said, hk]
      | cons next way =>
        rw [said, under_nested_of_ne hk, said_nil]
        exact fun h => nomatch h

/-- A value inside tables bars no way but those that go on behind it. -/
theorem passable_nested (h : key :: rest <+: way → way = key :: rest) :
    Passable [(key, v.nested rest)] way := by
  induction way generalizing key rest with
  | nil => trivial
  | cons k way ih =>
    cases way with
    | nil => trivial
    | cons next way =>
      by_cases hk : k = key
      · subst hk
        cases rest with
        | nil => exact absurd (h (by simp)) (by simp)
        | cons next' rest =>
          refine ⟨?_, ?_⟩
          · intro w hw
            exact ⟨_, (by simpa [nested] using hw.symm)⟩
          · rw [under_nested]
            apply ih
            intro hprefix
            exact (List.cons.inj (h ((List.prefix_cons_inj k).mpr hprefix))).2
      · refine ⟨?_, ?_⟩
        · intro w hw
          rw [List.lookup_cons, beq_false_of_ne hk] at hw
          cases hw
        · rw [under_nested_of_ne hk]
          exact passable_nil _

end Ways

end CrudLayers.Setting
