import CrudLayers.Proofs.Making

namespace CrudLayers

theorem not_dot_of_isNameChar {c : Char} (h : isNameChar c = true) : c ≠ '.' := by
  rintro rfl
  revert h
  decide

/-- The name of an entity is what stands before the first dot of a file name. -/
theorem Layer.takeWhile_fileName (l : Layer) (n : EntityName) :
    (l.fileName n.text).toList.takeWhile (· ≠ '.') = n.text.toList := by
  have hchars : ∀ c ∈ n.text.toList, decide (c ≠ '.') = true :=
    fun c hc => decide_eq_true (not_dot_of_isNameChar (n.text_chars c hc))
  have hname : (l.fileName n.text).toList = n.text.toList ++ '.' :: (l.name ++ ".ts").toList := by
    simp [Layer.fileName]
  rw [hname, List.takeWhile_append_of_pos hchars, List.takeWhile_cons_of_neg (by decide),
    List.append_nil]

/-- A file name belongs to one layer of one entity. -/
theorem Layer.fileName_inj {l k : Layer} {n m : EntityName}
    (h : l.fileName n.text = k.fileName m.text) : l = k ∧ n = m := by
  have htext : n.text = m.text := by
    apply String.toList_injective
    rw [← l.takeWhile_fileName n, ← k.takeWhile_fileName m, h]
  rw [htext] at h
  refine ⟨Layer.fileName_injective h, ?_⟩
  cases n
  cases m
  cases htext
  rfl

namespace Blueprint

variable {a b : Blueprint} {l k : Layer}

theorem isName_generatedDir : Path.IsName generatedDir :=
  Path.isName_of_first (show generatedDir.toList = 'g' :: _ by rfl) (by decide) (by decide)

theorem components_outputDir (b : Blueprint) : Path.components b.outputDir =
    Path.components b.baseDir ++ [generatedDir] ++ [b.name.text] := by
  rw [outputDir, Path.components_join b.name.isName, Path.components_join isName_generatedDir]

theorem components_filePath (b : Blueprint) (l : Layer) : Path.components (b.filePath l) =
    Path.components b.outputDir ++ [l.fileName b.name.text] :=
  Path.components_join (l.isName_fileName b.name) b.outputDir

/-- A path belongs to one layer of one entity. -/
theorem filePath_inj (h : a.filePath l = b.filePath k) : a.name = b.name ∧ l = k := by
  have hname := a.fileName?_filePath l
  rw [h, b.fileName?_filePath, Option.some.injEq] at hname
  obtain ⟨hlayer, hentity⟩ := Layer.fileName_inj hname
  exact ⟨hentity.symm, hlayer.symm⟩

/-- No file has the path of a directory on the way to files under the same base directory, however
that is spelled. -/
theorem components_ne_of_mem_upward (hbase : a.baseDir = b.baseDir) {directory : String}
    (h : directory ∈ Path.upward b.outputDir) :
    Path.components (a.filePath l) ≠ Path.components directory := by
  have habove := Path.above_upwardFrom (Or.inr (Or.inr b.endsInName_outputDir.ends)) _ directory h
  obtain ⟨more, hmore⟩ := habove.components
  intro heq
  have hlength := congrArg List.length hmore
  rw [← heq, components_filePath, components_outputDir, components_outputDir, hbase] at hlength
  simp only [List.length_append, List.length_singleton] at hlength
  omega

end Blueprint

end CrudLayers
