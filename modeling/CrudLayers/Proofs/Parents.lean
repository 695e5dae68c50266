import CrudLayers.Proofs.Paths

namespace CrudLayers.Path

theorem exists_fillers (backwards : List (List Char)) : ∃ fillers,
    backwards = fillers ++ backwards.dropWhile isFiller ∧
      fillers.reverse.filter (fun piece => !isFiller piece) = [] := by
  refine ⟨backwards.takeWhile isFiller, List.takeWhile_append_dropWhile.symm, ?_⟩
  rw [List.filter_eq_nil_iff]
  intro piece hp
  have hall := List.all_eq_true.mp (List.all_takeWhile (p := isFiller) (l := backwards)) piece
    (List.mem_reverse.mp hp)
  simp [hall]

theorem not_filler_of_dropWhile {backwards rest : List (List Char)} {last : List Char}
    (h : backwards.dropWhile isFiller = last :: rest) : isFiller last = false := by
  have hh := List.head?_dropWhile_not isFiller backwards
  rw [h] at hh
  simpa using hh

/-- Cutting off the last component leaves a beginning of the pieces, which ends in no filler. -/
theorem dropLastComponent_spec {body front : List (List Char)}
    (h : dropLastComponent body.reverse = some front) :
    front.reverse <+: body ∧
      (∃ last, body.filter (fun piece => !isFiller piece) =
        front.reverse.filter (fun piece => !isFiller piece) ++ [last]) ∧
      ∀ last rest, front = last :: rest → isFiller last = false := by
  unfold dropLastComponent at h
  obtain ⟨behind, hbehind, hnone⟩ := exists_fillers body.reverse
  cases hd : body.reverse.dropWhile isFiller with
  | nil =>
    rw [hd] at h
    cases h
  | cons last rest =>
    rw [hd] at h hbehind
    cases h
    obtain ⟨before, hbefore, hnone'⟩ := exists_fillers rest
    have hbody : body = (rest.dropWhile isFiller).reverse ++
        (before.reverse ++ last :: behind.reverse) := by
      have hrev := congrArg List.reverse hbehind
      have hrest := congrArg List.reverse hbefore
      rw [List.reverse_append] at hrest
      simpa [hrest] using hrev
    refine ⟨⟨_, hbody.symm⟩, ⟨last, ?_⟩, fun y ys hy => not_filler_of_dropWhile hy⟩
    rw [hbody, List.filter_append, List.filter_append, hnone', List.nil_append,
      List.filter_cons_of_pos (by simp [not_filler_of_dropWhile hd]), hnone]

theorem intercalate_isEmpty (body : List (List Char)) {last : List Char}
    (hl : isFiller last = false) :
    (['/'].intercalate (body ++ [last])).isEmpty = false := by
  cases body with
  | nil =>
    cases last with
    | nil => cases hl
    | cons c rest => simp
  | cons first rest => simp [List.intercalate_cons_of_ne_nil]

/-- What is left of a path when some pieces are left in front of its last component. -/
theorem parent?_of_front {path : String} {front : List (List Char)} {last : List Char}
    (hd : dropLastComponent (parts path.toList).body.reverse = some (last :: front))
    (hl : isFiller last = false) : parent? path = some
      (String.ofList (Parts.text { parts path.toList with body := (last :: front).reverse })) := by
  have hboth := (spelled path.toList).not_both
  have hempty := intercalate_isEmpty front.reverse hl
  rw [← List.reverse_cons] at hempty
  rw [parent?, Parts.text]
  simp only [hd, hempty]
  cases hr : (parts path.toList).rooted with
  | true => simp [hboth hr]
  | false =>
    cases hdot : (parts path.toList).dotted with
    | true => simp
    | false => simp

/-- What is left of a path when its last component is its first one too. -/
theorem parent?_of_nil {path : String}
    (hd : dropLastComponent (parts path.toList).body.reverse = some []) :
    parent? path = some (if (parts path.toList).rooted then "/"
      else if (parts path.toList).dotted then "." else "") := by
  rw [parent?]
  simp only [hd]
  cases (parts path.toList).rooted with
  | true => simp
  | false =>
    cases (parts path.toList).dotted with
    | true => simp
    | false => simp

/-- The parent of a path with a name joined to it is that path, provided it ends in no filler. -/
theorem Ends.parent?_join {path name : String} (h : Ends path) (hn : IsName name) :
    parent? (Path.join path name) = some path := by
  obtain ⟨front, last, hbody, hl⟩ := h.body_eq
  have hparts : parts (Path.join path name).toList =
      { parts path.toList with body := front ++ [last] ++ [name.toList] } := by
    have hne : (parts path.toList).body ≠ [[]] := by
      intro he
      rw [hbody, List.append_eq_singleton_iff] at he
      simp_all [isFiller]
    apply parts_of_spelled
    rw [h.split_join hn, ← hbody]
    exact (spelled path.toList).concat hne name.toList
  have hdrop : dropLastComponent (parts (Path.join path name).toList).body.reverse =
      some (last :: front.reverse) := by
    rw [hparts]
    simp [dropLastComponent, hn.no_filler, hl]
  have htext : Parts.text (parts path.toList) = path.toList := text_parts (by simp [hbody])
  rw [parent?_of_front hdrop hl, hparts]
  simp only [List.reverse_cons, List.reverse_reverse, ← hbody]
  rw [htext, String.ofList_toList]

theorem Ends.holder_join {path name : String} (h : Ends path) (hn : IsName name) :
    holder (Path.join path name) = path := by
  rw [holder, h.parent?_join hn]
  exact if_neg h.ne_empty

/-- A parent that has components of its own does not end in filler. -/
theorem ends_of_front {path parent : String} {front : List (List Char)} {last : List Char}
    (hd : dropLastComponent (parts path.toList).body.reverse = some (last :: front))
    (h : parent? path = some parent) :
    parts parent.toList = { parts path.toList with body := (last :: front).reverse } ∧
      Ends parent := by
  obtain ⟨hstart, _, hends⟩ := dropLastComponent_spec hd
  have hl := hends last front rfl
  rw [parent?_of_front hd hl] at h
  have hparts : parts parent.toList =
      { parts path.toList with body := (last :: front).reverse } := by
    rw [← Option.some.inj h, String.toList_ofList]
    exact parts_text (by simp) hstart
  obtain ⟨start, hsplit⟩ := (spelled parent.toList).exists_append
  rw [hparts, List.reverse_cons, ← List.append_assoc] at hsplit
  exact ⟨hparts, start ++ front.reverse, last, hsplit, hl⟩

/-- The parent of a path starts where the path starts and has its components but the last. It is the
start itself, or it does not end in filler. -/
theorem parent?_spec {path parent : String} (h : parent? path = some parent) (hne : parent ≠ "") :
    isAbsolute parent = isAbsolute path ∧
      (∃ last, components path = components parent ++ [last]) ∧
      (parent = "/" ∨ parent = "." ∨ Ends parent) := by
  cases hd : dropLastComponent (parts path.toList).body.reverse with
  | none =>
    simp only [parent?, hd] at h
    split at h
    · cases h
      exact absurd rfl hne
    · cases h
  | some front =>
    obtain ⟨_, ⟨last, hfilter⟩, _⟩ := dropLastComponent_spec hd
    have hcomp : components path = (front.reverse.filter (fun piece => !isFiller piece)).map
        String.ofList ++ [String.ofList last] := by
      rw [components, hfilter, List.map_append]
      rfl
    cases front with
    | nil =>
      rw [parent?_of_nil hd] at h
      rw [isAbsolute_eq path]
      split at h
      · rename_i hr
        cases h
        exact ⟨hr.symm, ⟨_, hcomp⟩, Or.inl rfl⟩
      · rename_i hr
        split at h
        · cases h
          exact ⟨(eq_false_of_ne_true hr).symm, ⟨_, hcomp⟩, Or.inr (Or.inl rfl)⟩
        · cases h
          exact absurd rfl hne
    | cons y ys =>
      obtain ⟨hparts, hends⟩ := ends_of_front hd h
      refine ⟨?_, ⟨String.ofList last, ?_⟩, Or.inr (Or.inr hends)⟩
      · rw [isAbsolute_eq, isAbsolute_eq, hparts]
      · rw [hcomp, components, hparts]

/-- The directory that receives the last component of a path lies in front of it, wherever the path
starts. -/
theorem Ends.holder_spec {path : String} (h : Ends path) :
    isAbsolute (holder path) = isAbsolute path ∧
      ∃ last, components path = components (holder path) ++ [last] := by
  obtain ⟨front, last, hbody, hl⟩ := h.body_eq
  have hd : dropLastComponent (parts path.toList).body.reverse =
      some (front.reverse.dropWhile isFiller) := by
    simp [dropLastComponent, hbody, hl]
  cases hrest : front.reverse.dropWhile isFiller with
  | nil =>
    rw [hrest] at hd
    obtain ⟨_, ⟨last', hfilter⟩, _⟩ := dropLastComponent_spec hd
    have hcomp : components path = [String.ofList last'] := by
      rw [components, hfilter]
      rfl
    have hparent := parent?_of_nil hd
    cases hr : (parts path.toList).rooted with
    | true =>
      rw [if_pos hr] at hparent
      rw [holder, hparent, isAbsolute_eq path, hr]
      exact ⟨rfl, _, hcomp⟩
    | false =>
      have hholder : holder path = "." := by
        cases hdot : (parts path.toList).dotted <;> simp [holder, hparent, hr, hdot]
      rw [hholder, isAbsolute_eq path, hr]
      exact ⟨rfl, _, hcomp⟩
  | cons y ys =>
    rw [hrest] at hd
    have hparent := parent?_of_front hd ((dropLastComponent_spec hd).2.2 y ys rfl)
    have hne := (ends_of_front hd hparent).2.ne_empty
    obtain ⟨hstart, hlast, _⟩ := parent?_spec hparent hne
    rw [holder, hparent]
    simp only [if_neg hne]
    exact ⟨hstart, hlast⟩

end CrudLayers.Path

namespace CrudLayers.Blueprint

theorem parent?_filePath (b : Blueprint) (l : Layer) :
    Path.parent? (b.filePath l) = some b.outputDir :=
  b.endsInName_outputDir.ends.parent?_join (l.isName_fileName b.name)

end CrudLayers.Blueprint
