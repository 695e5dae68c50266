import CrudLayers.Proofs.Regeneration
import CrudLayers.Proofs.ResolverText

namespace CrudLayers.Blueprint

open Disk Write Attempt

variable {b : Blueprint} {names : ModuleNames} {l : Layer} {d : Disk} {place : Location}

theorem mem_fields_iff {f : ResolverField} : f ∈ b.fields ↔ b.exposes f = true := by
  simp [fields, f.mem_all]

/-- The same fields are left in the same order. -/
theorem fields_eq_iff {c : Blueprint} : b.fields = c.fields ↔ ∀ f, f ∈ b.fields ↔ f ∈ c.fields := by
  constructor
  · intro h f
    rw [h]
  · intro h
    have hsame : b.exposes = c.exposes := by
      funext f
      rw [Bool.eq_iff_iff, ← mem_fields_iff, ← mem_fields_iff]
      exact h f
    rw [fields, fields, hsame]

theorem exists_text_resolver (b : Blueprint) (names : ModuleNames) :
    ∃ text, b.text names .resolver = .ok text := by
  obtain ⟨text, _, _, htext, _⟩ := b.text_resolver names
  exact ⟨text, htext⟩

theorem isStale_iff {path text expected : String} :
    FileCheck.isStale ⟨l, path, some text, expected⟩ = true ↔ text ≠ expected := by
  simp [FileCheck.isStale]

/-- A written layer is found stale by another blueprint if that makes another text of it. -/
theorem Written.checkLayer {c : Blueprint} {w : Location × Entry} (h : b.Written names d place l w)
    (hpath : c.filePath l = b.filePath l)
    (hok : b.text names l = c.text names l ∨ ∃ text, c.text names l = .ok text) : ∃ check,
      onDisk (c.checkLayer names l) d = (.ok check, d) ∧ check.layer = l ∧
      (check.isStale = true ↔ b.text names l ≠ c.text names l) := by
  obtain ⟨text, htext, hread⟩ := h.read
  obtain ⟨expected, hexpected⟩ : ∃ expected, c.text names l = .ok expected :=
    hok.elim (fun hsame => ⟨text, hsame.symm.trans htext⟩) id
  rw [← hpath] at hread
  refine ⟨_, onDisk_checkLayer.mpr
    ⟨rfl, expected, some text, hexpected, onDisk_readExisting_text hread, rfl⟩, rfl, ?_⟩
  rw [isStale_iff, htext, hexpected, Ne, Ne, Except.ok.injEq]

theorem checkEach_of_written {c : Blueprint} {layers : List Layer}
    {writes : List (Location × Entry)} (h : List.Forall₂ (b.Written names d place) layers writes)
    (hpath : ∀ l, c.filePath l = b.filePath l)
    (hok : ∀ l, b.text names l = c.text names l ∨ ∃ text, c.text names l = .ok text) : ∃ checks,
      onDisk (c.checkEach names layers) d = (.ok checks, d) ∧
      checks.map FileCheck.layer = layers ∧ ∀ check ∈ checks,
        (check.isStale = true ↔ b.text names check.layer ≠ c.text names check.layer) := by
  induction h with
  | nil => exact ⟨[], rfl, rfl, fun check hc => nomatch hc⟩
  | @cons l w rest writes hw _ ih =>
    obtain ⟨checks, hchecks, hlayers, hstale⟩ := ih
    obtain ⟨check, hcheck, hlayer, hfirst⟩ := hw.checkLayer (hpath l) (hok l)
    refine ⟨check :: checks, onDisk_checkEach_cons.mpr ⟨_, _, _, hcheck, hchecks, rfl⟩, ?_, ?_⟩
    · rw [List.map_cons, hlayers, hlayer]
    · intro k hk
      rcases List.mem_cons.mp hk with rfl | hmem
      · rwa [hlayer]
      · exact hstale k hmem

section Given

variable (current : String) (n : EntityName) (o : Options) (x y : List String)

/-- With two lists of excludes a resolver has one text if and only if the same fields are left. -/
theorem text_resolver_iff (names : ModuleNames) :
    (ofOptions current n { o with excludes := x }).text names .resolver =
        (ofOptions current n { o with excludes := y }).text names .resolver ↔
      ∀ f, f ∈ (ofOptions current n { o with excludes := x }).fields ↔
        f ∈ (ofOptions current n { o with excludes := y }).fields :=
  (text_resolver_inj (ofOptions current n o) names (ascending x) (ascending y)).trans fields_eq_iff

theorem text_excludes_iff (names : ModuleNames) (l : Layer) :
    (ofOptions current n { o with excludes := x }).text names l ≠
        (ofOptions current n { o with excludes := y }).text names l ↔
      l = .resolver ∧ ¬∀ f, f ∈ (ofOptions current n { o with excludes := x }).fields ↔
        f ∈ (ofOptions current n { o with excludes := y }).fields := by
  cases l with
  | repository => exact ⟨fun h => absurd rfl h, fun h => nomatch h.1⟩
  | service => exact ⟨fun h => absurd rfl h, fun h => nomatch h.1⟩
  | resolver => rw [Ne, text_resolver_iff, eq_self, true_and]

theorem text_of_excludes (names : ModuleNames) (l : Layer) :
    (ofOptions current n { o with excludes := x }).text names l =
        (ofOptions current n { o with excludes := y }).text names l ∨
      ∃ text, (ofOptions current n { o with excludes := y }).text names l = .ok text := by
  cases l with
  | repository => exact Or.inl rfl
  | service => exact Or.inl rfl
  | resolver => exact Or.inr (exists_text_resolver _ names)

end Given

/-- Which fields the excludes leave is all that generated code tells about them. A resolver has one
text with two lists of excludes if and only if they leave the same fields; and comparing with other
excludes than have been generated with finds a layer stale if and only if it is the resolver and
they leave other fields. -/
theorem check_notices_excludes (n : EntityName) (o : Options) (names : ModuleNames)
    (x y : List String) :
    (∀ current, ∃ before after,
      (ofOptions current n { o with excludes := x }).text names .resolver = .ok before ∧
      (ofOptions current n { o with excludes := y }).text names .resolver = .ok after ∧
      (before = after ↔ ∀ f, f ∈ (ofOptions current n { o with excludes := x }).fields ↔
        f ∈ (ofOptions current n { o with excludes := y }).fields)) ∧
    ∀ (s s' : Scene) (files : List GeneratedFile),
      ((ofOptions s.disk.currentPath n { o with excludes := x }).generateLayers names
        Layer.all).run.run s = (.ok files, s') →
      ∃ checks t,
        ((ofOptions s'.disk.currentPath n { o with excludes := y }).check names).run.run s' =
          (.ok checks, t) ∧
        checks.map FileCheck.layer = Layer.all ∧ ∀ check ∈ checks,
          (check.isStale = true ↔ check.layer = .resolver ∧
            ¬∀ f, f ∈ (ofOptions s.disk.currentPath n { o with excludes := x }).fields ↔
              f ∈ (ofOptions s'.disk.currentPath n { o with excludes := y }).fields) := by
  constructor
  · intro current
    obtain ⟨before, hbefore⟩ :=
      exists_text_resolver (ofOptions current n { o with excludes := x }) names
    obtain ⟨after, hafter⟩ :=
      exists_text_resolver (ofOptions current n { o with excludes := y }) names
    refine ⟨before, after, hbefore, hafter, ?_⟩
    rw [← text_resolver_iff current n o x y names, hbefore, hafter, Except.ok.injEq]
  · intro s s' files h
    have hrun := onDisk_of_run h
    have hcurrent : s'.disk.currentPath = s.disk.currentPath := by
      rw [currentPath, currentPath, current_of_onDisk hrun]
    rw [hcurrent]
    obtain ⟨m, place, _, hsettled, hlayers⟩ := settled_of_generateEach hrun
    obtain ⟨writes, _, hall, _⟩ := writes_of_generateEach hsettled (by decide) hlayers
    obtain ⟨checks, hchecks, hlayer, hstale⟩ := checkEach_of_written
      (c := ofOptions s.disk.currentPath n { o with excludes := y }) hall (fun l => rfl)
      (text_of_excludes s.disk.currentPath n o x y names)
    obtain ⟨t, ht, _⟩ := run_of_onDisk hchecks
    refine ⟨checks, t, ht, hlayer, ?_⟩
    intro check hc
    rw [hstale check hc, text_excludes_iff]

/-- Without the query for one order, the resolver that has been generated is stale. -/
theorem check_notices_excludes_order : ∃ files s' checks t,
    (rootOrder.generateLayers .standard Layer.all).run.run (Scene.ofDisk emptyOutput) =
      (.ok files, s') ∧
    ((ofOptions s'.disk.currentPath orderName
      { inDirectory "/" with excludes := ["order"] }).check .standard).run.run s' =
        (.ok checks, t) ∧
    checks.map FileCheck.layer = Layer.all ∧
    ∀ check ∈ checks, (check.isStale = true ↔ check.layer = .resolver) := by
  obtain ⟨files, e, hrun⟩ := generate_emptyOutput
  obtain ⟨s', hs', _⟩ := run_of_onDisk (s := Scene.ofDisk emptyOutput) hrun
  obtain ⟨checks, t, ht, hlayers, hstale⟩ := (check_notices_excludes orderName (inDirectory "/")
    .standard [] ["order"]).2 (Scene.ofDisk emptyOutput) s' files hs'
  refine ⟨files, s', checks, t, hs', ht, hlayers, ?_⟩
  intro check hc
  rw [hstale check hc]
  have hdiffer : ¬∀ f, f ∈ (ofOptions (Scene.ofDisk emptyOutput).disk.currentPath orderName
      { inDirectory "/" with excludes := [] }).fields ↔ f ∈ (ofOptions s'.disk.currentPath orderName
        { inDirectory "/" with excludes := ["order"] }).fields := by
    intro hsame
    have hone := hsame .one
    rw [mem_fields, mem_fields] at hone
    have hleft : ResolverField.one.exposedName orderName ∉ ascending [] := by decide
    have hexcluded : ResolverField.one.exposedName orderName ∈ ascending ["order"] := by decide
    exact hone.mp hleft hexcluded
  exact and_iff_left hdiffer

end CrudLayers.Blueprint
