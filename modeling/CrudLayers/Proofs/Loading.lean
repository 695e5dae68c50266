import CrudLayers.Config.Load
import CrudLayers.Proofs.TomlTables
import CrudLayers.Proofs.Writing

namespace CrudLayers.Config

open Attempt Setting

theorem onDisk_firstFile (paths : List String) (d : Disk) :
    (firstFile paths).onDisk d = (paths.find? d.isFile, d) := by
  induction paths with
  | nil => rfl
  | cons path rest ih =>
    change (if d.isFile path then return some path else firstFile rest : Program _).onDisk d = _
    rw [List.find?_cons]
    cases d.isFile path with
    | true => rfl
    | false => exact ih

/-- The keys of the settings in a file ascend. -/
theorem onDisk_readFile (shown path : String) (d : Disk) :
    ∃ r, onDisk (readFile shown path) d = (r, d) ∧
      ∀ entries, r = .ok entries → (table entries).Ordered := by
  rw [readFile, onDisk_bind_of_ok onDisk_read]
  cases d.read path with
  | error fault => exact ⟨_, rfl, fun entries h => nomatch h⟩
  | ok bytes =>
    simp only
    cases Bytes.text? bytes with
    | none => exact ⟨_, rfl, fun entries h => nomatch h⟩
    | some text =>
      simp only
      cases hparse : Toml.parse? text with
      | none => exact ⟨_, rfl, fun entries h => nomatch h⟩
      | some file =>
        refine ⟨_, rfl, fun entries h => ?_⟩
        cases h
        exact Toml.ordered_of_parse hparse

/-- Without a file there are the variables alone. -/
theorem onDisk_load_without_file {current path : String} {d : Disk}
    (h : ∀ p ∈ candidates current path, d.isFile p = false)
    (environment : List (String × String)) :
    onDisk (load current environment path) d =
      (ofSettings path [] (Environment.settings environment), d) := by
  have hfirst : onDisk (ExceptT.lift (firstFile (candidates current path)) :
      Attempt ConfigFault (Option String)) d = (.ok none, d) := by
    rw [onDisk_lift, onDisk_firstFile, List.find?_eq_none.mpr (by simpa using h)]
  exact onDisk_bind_of_ok hfirst _

/-- Loading reads the same from the disk in every environment. -/
theorem onDisk_load (current path : String) (d : Disk) :
    ∃ source : Except ConfigFault (String × List (String × Setting)),
      (∀ s, source = .ok s → (table s.2).Ordered) ∧ ∀ environment,
        onDisk (load current environment path) d =
          (source >>= fun s => ofSettings s.1 s.2 (Environment.settings environment), d) := by
  have hfirst : onDisk (ExceptT.lift (firstFile (candidates current path)) :
      Attempt ConfigFault (Option String)) d =
        (.ok ((candidates current path).find? d.isFile), d) := by
    rw [onDisk_lift, onDisk_firstFile]
  cases hfound : (candidates current path).find? d.isFile with
  | none =>
    rw [hfound] at hfirst
    refine ⟨.ok (path, []), fun s hs => ?_, fun environment => onDisk_bind_of_ok hfirst _⟩
    cases hs
    exact ordered_empty
  | some found =>
    rw [hfound] at hfirst
    obtain ⟨r, hr, hordered⟩ := onDisk_readFile (Path.shownFrom current found) found d
    refine ⟨r.map (fun lower => (Path.shownFrom current found, lower)), fun s hs => ?_,
      fun environment => (onDisk_bind_of_ok hfirst _).trans ?_⟩
    · obtain ⟨lower, hlower, rfl⟩ := except_map_eq_ok.mp hs
      exact hordered lower hlower
    · dsimp only
      rw [onDisk_bind, hr]
      cases r with
      | ok lower => rfl
      | error fault => rfl

end CrudLayers.Config
