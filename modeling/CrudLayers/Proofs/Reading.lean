import CrudLayers.Config.Decode
import CrudLayers.Proofs.Runs
import CrudLayers.Proofs.Tables

namespace CrudLayers

namespace FieldReader

variable {ρ α β : Type} {π : ρ → α} {read : List String → Setting → Except ShapeFault β}
  {g : List String → Setting → Except ShapeFault α} {set : ρ → β → ρ} {key : String}

/-- Reading the field leaves a part of the record as it is. -/
def Keeps (f : FieldReader ρ) (π : ρ → α) : Prop :=
  ∀ way v r r', f.read way v r = .ok r' → π r' = π r

/-- A part of the record becomes what `g` reads. -/
def Gives (f : FieldReader ρ) (π : ρ → α)
    (g : List String → Setting → Except ShapeFault α) : Prop :=
  ∀ way v r r', f.read way v r = .ok r' → g way v = .ok (π r')

theorem keeps_of_set (h : ∀ r b, π (set r b) = π r) :
    Keeps ⟨key, fun way v r => (read way v).map (set r)⟩ π := by
  intro way v r r' hread
  obtain ⟨b, _, rfl⟩ := except_map_eq_ok.mp hread
  exact h r b

theorem gives_of_set (h : ∀ way v r b, read way v = .ok b → g way v = .ok (π (set r b))) :
    Gives ⟨key, fun way v r => (read way v).map (set r)⟩ π g := by
  intro way v r r' hread
  obtain ⟨b, hb, rfl⟩ := except_map_eq_ok.mp hread
  exact h way v r b hb

end FieldReader

/-- What stands under a key, read by `g`, becomes the part `π` of a record, and nothing else
changes that part. -/
structure Reads {ρ α : Type} (fields : List (FieldReader ρ)) (key : String) (π : ρ → α)
    (g : List String → Setting → Except ShapeFault α) : Prop where
  known : ∃ f ∈ fields, f.key = key
  each : ∀ f ∈ fields, f.key = key ∧ f.Gives π g ∨ f.key ≠ key ∧ f.Keeps π

/-- The part of a record that stands under a key, given what it is if nothing stands there. -/
def readUnder {α : Type} (g : List String → Setting → Except ShapeFault α) (way : List String)
    (key : String) (otherwise : α) (entries : List (String × Setting)) : Except ShapeFault α :=
  match entries.lookup key with
  | none => .ok otherwise
  | some v => g (way ++ [key]) v

section Records

variable {ρ α : Type} {fields : List (FieldReader ρ)} {key : String} {π : ρ → α}
  {g : List String → Setting → Except ShapeFault α} {way : List String} {f : FieldReader ρ}
  {entries : List (String × Setting)} {r r' : ρ}

theorem Reads.gives (h : Reads fields key π g)
    (hf : fields.find? (fun f => f.key == key) = some f) : f.Gives π g := by
  rcases h.each f (List.mem_of_find?_eq_some hf) with ⟨_, hgives⟩ | ⟨hne, _⟩
  · exact hgives
  · exact absurd (List.find?_some hf) (by simp [hne])

theorem Reads.keeps {k : String} (h : Reads fields key π g) (hne : k ≠ key)
    (hf : fields.find? (fun f => f.key == k) = some f) : f.Keeps π := by
  have hkey : f.key = k := by simpa using List.find?_some hf
  rcases h.each f (List.mem_of_find?_eq_some hf) with ⟨heq, _⟩ | ⟨_, hkeeps⟩
  · exact absurd (hkey.symm.trans heq) hne
  · exact hkeeps

/-- Reading a table that lacks a key leaves that part of the record as it is. -/
theorem Reads.readKeyed_absent (h : Reads fields key π g) (habsent : ∀ e ∈ entries, e.1 ≠ key)
    (hread : readKeyed fields way entries r = .ok r') : π r' = π r := by
  induction entries generalizing r with
  | nil =>
    cases hread
    rfl
  | cons e rest ih =>
    obtain ⟨hne, hrest⟩ := List.forall_mem_cons.mp habsent
    rw [CrudLayers.readKeyed] at hread
    split at hread
    · rename_i f hf
      obtain ⟨m, hm, hread⟩ := except_bind_eq_ok.mp hread
      rw [ih hrest hread]
      exact h.keeps hne hf _ _ _ _ hm
    · exact ih hrest hread

/-- The keys ascend, so that no later entry takes the place of the one under the key. -/
theorem Reads.readKeyed (h : Reads fields key π g)
    (hkeys : (entries.map Prod.fst).Pairwise (· < ·))
    (hread : readKeyed fields way entries r = .ok r') :
    readUnder g way key (π r) entries = .ok (π r') := by
  induction entries generalizing r with
  | nil =>
    cases hread
    rfl
  | cons e rest ih =>
    obtain ⟨hfirst, hrest⟩ := List.pairwise_cons.mp hkeys
    rw [CrudLayers.readKeyed] at hread
    rw [readUnder, List.lookup_cons]
    by_cases he : e.1 = key
    · -- the entry itself: nothing after it has its key
      subst he
      have habsent : ∀ e' ∈ rest, e'.1 ≠ e.1 :=
        fun e' he' => (hfirst e'.1 (List.mem_map_of_mem he')).ne'
      rw [beq_self_eq_true]
      split at hread
      · rename_i f hf
        obtain ⟨m, hm, hread⟩ := except_bind_eq_ok.mp hread
        rw [h.readKeyed_absent habsent hread]
        exact h.gives hf _ _ _ _ hm
      · rename_i hf
        obtain ⟨f, hmem, hkey⟩ := h.known
        exact absurd (List.find?_eq_none.mp hf f hmem) (by simp [hkey])
    · rw [beq_false_of_ne (Ne.symm he)]
      split at hread
      · rename_i f hf
        obtain ⟨m, hm, hread⟩ := except_bind_eq_ok.mp hread
        rw [← h.keeps he hf _ _ _ _ hm]
        exact ih hrest hread
      · exact ih hrest hread

end Records

section Fields

open FieldReader

theorem EntitySettings.reads_moduleDir :
    Reads EntitySettings.fields "module_dir" EntitySettings.moduleDir
      (fun way v => (v.asText .text way).map some) where
  known := ⟨_, List.mem_cons_of_mem _ List.mem_cons_self, rfl⟩
  each := List.forall_mem_cons.mpr ⟨.inr ⟨by decide, keeps_of_set (fun _ _ => rfl)⟩,
    List.forall_mem_cons.mpr ⟨.inl ⟨rfl, gives_of_set (fun _ _ _ _ h => by rw [h]; rfl)⟩,
    List.forall_mem_singleton.mpr (.inr ⟨by decide, keeps_of_set (fun _ _ => rfl)⟩)⟩⟩

theorem Config.reads_baseDir : Reads Config.fields "base_dir" Config.baseDir
    (fun way v => (v.asText .path way).map some) where
  known := ⟨_, List.mem_cons_self, rfl⟩
  each := List.forall_mem_cons.mpr ⟨.inl ⟨rfl, gives_of_set (fun _ _ _ _ h => by rw [h]; rfl)⟩,
    List.forall_mem_cons.mpr ⟨.inr ⟨by decide, keeps_of_set (fun _ _ => rfl)⟩,
    List.forall_mem_singleton.mpr (.inr ⟨by decide, keeps_of_set (fun _ _ => rfl)⟩)⟩⟩

theorem Config.reads_entities : Reads Config.fields "entities" Config.entities readEntities where
  known := ⟨_, List.mem_cons_of_mem _ (List.mem_cons_of_mem _ List.mem_cons_self), rfl⟩
  each := List.forall_mem_cons.mpr ⟨.inr ⟨by decide, keeps_of_set (fun _ _ => rfl)⟩,
    List.forall_mem_cons.mpr ⟨.inr ⟨by decide, keeps_of_set (fun _ _ => rfl)⟩,
    List.forall_mem_singleton.mpr (.inl ⟨rfl, gives_of_set (fun _ _ _ _ h => h)⟩)⟩⟩

end Fields

section Entries

variable {α : Type} {read : List String → Setting → Except ShapeFault α} {way : List String}
  {entries : List (String × Setting)} {as : List (String × α)} {key : String}

theorem readEntries_cons {e : String × Setting}
    (h : readEntries read way (e :: entries) = .ok as) : ∃ a as', as = (e.1, a) :: as' ∧
      read (way ++ [e.1]) e.2 = .ok a ∧ readEntries read way entries = .ok as' := by
  obtain ⟨a, ha, h⟩ := except_bind_eq_ok.mp h
  obtain ⟨as', has, h⟩ := except_bind_eq_ok.mp h
  cases h
  exact ⟨a, as', rfl, ha, has⟩

theorem keys_of_readEntries (h : readEntries read way entries = .ok as) :
    as.map Prod.fst = entries.map Prod.fst := by
  induction entries generalizing as with
  | nil =>
    cases h
    rfl
  | cons e rest ih =>
    obtain ⟨a, as', rfl, _, has⟩ := readEntries_cons h
    rw [List.map_cons, List.map_cons, ih has]

theorem lookup_of_readEntries (h : readEntries read way entries = .ok as) {v : Setting}
    (hv : entries.lookup key = some v) :
    ∃ a, as.lookup key = some a ∧ read (way ++ [key]) v = .ok a := by
  induction entries generalizing as with
  | nil => cases hv
  | cons e rest ih =>
    obtain ⟨a, as', rfl, ha, has⟩ := readEntries_cons h
    rw [List.lookup_cons] at hv ⊢
    by_cases he : key = e.1
    · subst he
      rw [beq_self_eq_true] at hv ⊢
      cases hv
      exact ⟨a, rfl, ha⟩
    · rw [beq_false_of_ne he] at hv ⊢
      exact ih has hv

/-- What stands under a key alone decides what is read there. -/
theorem lookup_readEntries_congr {entries₀ : List (String × Setting)} {as₀ : List (String × α)}
    (h : readEntries read way entries = .ok as) (h₀ : readEntries read way entries₀ = .ok as₀)
    (heq : entries.lookup key = entries₀.lookup key) : as.lookup key = as₀.lookup key := by
  cases hv : entries.lookup key with
  | none =>
    have hnone : as.lookup key = none := by
      rwa [Setting.lookup_eq_none_iff, keys_of_readEntries h, ← Setting.lookup_eq_none_iff]
    have hnone₀ : as₀.lookup key = none := by
      rwa [Setting.lookup_eq_none_iff, keys_of_readEntries h₀, ← Setting.lookup_eq_none_iff, ← heq]
    rw [hnone, hnone₀]
  | some v =>
    obtain ⟨a, ha, hread⟩ := lookup_of_readEntries h hv
    obtain ⟨a₀, ha₀, hread₀⟩ := lookup_of_readEntries h₀ (heq ▸ hv)
    rw [hread] at hread₀
    rw [ha, ha₀, Except.ok.inj hread₀]

end Entries

namespace Config

open Setting

variable {entries : List (String × Setting)} {c : Config}

/-- The entities are those of the table under `entities`. -/
theorem readEntries_of_ofEntries (hordered : (table entries).Ordered)
    (h : ofEntries entries = .ok c) :
    readEntries EntitySettings.ofSetting ["entities"] (under "entities" entries) =
      .ok c.entities := by
  have hread := reads_entities.readKeyed hordered.keys h
  rw [readUnder] at hread
  rw [under]
  cases hlookup : entries.lookup "entities" with
  | none =>
    rw [hlookup] at hread
    exact hread
  | some v =>
    rw [hlookup] at hread
    cases v with
    | table inner => exact hread
    | _ => cases hread

theorem keys_ascend (hordered : (table entries).Ordered) (h : ofEntries entries = .ok c) :
    (c.entities.map Prod.fst).Pairwise (· < ·) := by
  rw [keys_of_readEntries (readEntries_of_ofEntries hordered h)]
  exact hordered.under.keys

end Config

end CrudLayers
