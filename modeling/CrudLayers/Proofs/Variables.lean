import CrudLayers.Config.Environment
import CrudLayers.Proofs.Casing

namespace CrudLayers

theorem not_isBlank_of_isNameChar {c : Char} (h : isNameChar c = true) : isBlank c = false := by
  have hcode : 33 ≤ c.toNat ∧ c.toNat ≤ 122 := by
    simp only [isNameChar, Char.isAlphanum, Char.isAlpha, Char.isUpper, Char.isLower, Char.isDigit,
      UInt32.le_iff_toNat_le, Bool.or_eq_true, Bool.and_eq_true, decide_eq_true_eq,
      beq_iff_eq] at h
    rcases h with h | rfl
    · simp at h
      omega
    · decide
  simp [isBlank]
  omega

theorem trimBlank_eq {s : List Char} (h : ∀ c ∈ s, isBlank c = false) : trimBlank s = s := by
  have hdrop : ∀ t : List Char, (∀ c ∈ t, isBlank c = false) → t.dropWhile isBlank = t := by
    intro t ht
    rw [List.dropWhile_eq_self_iff]
    intro hpos
    simp [ht _ (List.getElem_mem hpos)]
  rw [trimBlank, hdrop s h, hdrop _ (by simpa using h), List.reverse_reverse]

namespace Environment

def variableName (way : List String) : String :=
  variableStart ++ "__".intercalate (way.map capitals)

/-- A text that can be told apart within the name of a variable: without two underscores in a row
and with none at its end. -/
structure Segment (s : List Char) : Prop where
  nonempty : s ≠ []
  chars : ∀ c ∈ s, isNameChar c = true
  single : ¬ ['_', '_'] <:+: s
  ending : s.getLast? ≠ some '_'

theorem Segment.capitals {s : List Char} (h : Segment s) : Segment (s.map Char.toUpper) where
  nonempty := by simpa using h.nonempty
  chars := by
    intro c hc
    obtain ⟨c', hc', rfl⟩ := List.mem_map.mp hc
    exact isNameChar_toUpper (h.chars c' hc')
  single := by
    rw [List.infix_map_iff]
    rintro ⟨t, ht, heq⟩
    obtain ⟨a, b, rfl⟩ : ∃ a b, t = [a, b] :=
      List.length_eq_two.mp (by simpa using congrArg List.length heq.symm)
    obtain ⟨ha, hb⟩ : a = '_' ∧ b = '_' := by
      simp only [List.map_cons, List.map_nil, List.cons.injEq, and_true] at heq
      exact ⟨toUpper_eq_underscore heq.1.symm, toUpper_eq_underscore heq.2.symm⟩
    rw [ha, hb] at ht
    exact h.single ht
  ending := by
    rw [List.getLast?_map]
    intro heq
    obtain ⟨c, hc, hu⟩ := Option.map_eq_some_iff.mp heq
    rw [toUpper_eq_underscore hu] at hc
    exact h.ending hc

theorem Segment.no_dot {s : List Char} (h : Segment s) : '.' ∉ s := by
  intro hdot
  cases h.chars '.' hdot

/-- One underscore, or none, stays as it is. -/
theorem dotted_cons {c : Char} {rest : List Char} (h : c = '_' → rest.head? ≠ some '_') :
    dotted (c :: rest) = c :: dotted rest := by
  rw [dotted]
  rintro rest' rfl rfl
  exact h rfl rfl

theorem single_tail {c : Char} {s : List Char} (h : ¬ ['_', '_'] <:+: c :: s) :
    ¬ ['_', '_'] <:+: s ∧ (c = '_' → s.head? ≠ some '_') := by
  refine ⟨fun hs => h (hs.trans (List.suffix_cons c s).isInfix), ?_⟩
  rintro rfl hhead
  obtain ⟨rest, rfl⟩ := List.head?_eq_some_iff.mp hhead
  exact h ⟨[], rest, rfl⟩

theorem dotted_of_single {s : List Char} (h : ¬ ['_', '_'] <:+: s) : dotted s = s := by
  induction s with
  | nil => rfl
  | cons c rest ih =>
    obtain ⟨hrest, hhead⟩ := single_tail h
    rw [dotted_cons hhead, ih hrest]

/-- A segment ends at the first two underscores after it. -/
theorem dotted_append {s rest : List Char} (h : ¬ ['_', '_'] <:+: s)
    (hlast : s.getLast? ≠ some '_') :
    dotted (s ++ '_' :: '_' :: rest) = s ++ '.' :: dotted rest := by
  induction s with
  | nil => rfl
  | cons c s ih =>
    obtain ⟨hrest, hhead⟩ := single_tail h
    cases s with
    | nil =>
      have hc : c ≠ '_' := fun hc => hlast (by rw [hc]; rfl)
      rw [List.singleton_append, dotted_cons (fun heq => absurd heq hc)]
      rfl
    | cons c' s =>
      rw [List.getLast?_cons_cons] at hlast
      have hhead' : c = '_' → (c' :: s ++ '_' :: '_' :: rest).head? ≠ some '_' := hhead
      rw [List.cons_append, dotted_cons hhead', ih hrest hlast]
      rfl

theorem dotted_intercalate {pieces : List (List Char)} (h : ∀ piece ∈ pieces, Segment piece) :
    dotted (['_', '_'].intercalate pieces) = ['.'].intercalate pieces := by
  induction pieces with
  | nil => rfl
  | cons piece rest ih =>
    obtain ⟨hpiece, hrest⟩ := List.forall_mem_cons.mp h
    cases rest with
    | nil =>
      rw [List.intercalate_singleton, List.intercalate_singleton, dotted_of_single hpiece.single]
    | cons next others =>
      rw [List.intercalate_cons_cons, List.intercalate_cons_cons, List.append_assoc,
        List.append_assoc, ← ih hrest]
      exact dotted_append hpiece.single hpiece.ending

theorem segments_eq_splitOn (s : List Char) : segments s = s.splitOn '.' := by
  induction s with
  | nil => rfl
  | cons c rest ih =>
    rw [segments, List.splitOn_cons_eq_if_modifyHead, ih]
    by_cases hc : c = '.'
    · simp [hc]
    · cases hs : rest.splitOn '.' with
      | nil => exact absurd hs (List.splitOn_ne_nil _ _)
      | cons piece pieces => simp [hc]

/-- The characters of pieces with something between them are theirs or its. -/
theorem forall_mem_intercalate {P : Char → Prop} {between : List Char} {pieces : List (List Char)}
    (hbetween : ∀ c ∈ between, P c) (h : ∀ piece ∈ pieces, ∀ c ∈ piece, P c) :
    ∀ c ∈ between.intercalate pieces, P c := by
  induction pieces with
  | nil => exact List.forall_mem_nil _
  | cons piece rest ih =>
    obtain ⟨hpiece, hrest⟩ := List.forall_mem_cons.mp h
    cases rest with
    | nil => rwa [List.intercalate_singleton]
    | cons next others =>
      rw [List.intercalate_cons_cons, List.forall_mem_append, List.forall_mem_append]
      exact ⟨⟨hpiece, hbetween⟩, ih hrest⟩

theorem toList_variableName (way : List String) : (variableName way).toList =
    variableStart.toList ++
      ['_', '_'].intercalate (way.map (fun key => key.toList.map Char.toUpper)) := by
  have hmap : way.map (String.toList ∘ capitals) =
      way.map (fun key => key.toList.map Char.toUpper) :=
    List.map_congr_left (fun key _ => String.toList_ofList)
  rw [variableName, String.toList_append, String.toList_intercalate, List.map_map, hmap]
  rfl

/-- The variable of a place leads to that place, in small letters. -/
theorem way?_variableName {way : List String} (hne : way ≠ [])
    (h : ∀ key ∈ way, Segment key.toList) : way? (variableName way) = some (way.map small) := by
  have hpieces : ∀ piece ∈ way.map (fun key => key.toList.map Char.toUpper), Segment piece := by
    intro piece hp
    obtain ⟨key, hkey, rfl⟩ := List.mem_map.mp hp
    exact (h key hkey).capitals
  have hchars : ∀ piece ∈ way.map (fun key => key.toList.map Char.toUpper), ∀ c ∈ piece,
      isBlank c = false :=
    fun piece hp c hc => not_isBlank_of_isNameChar ((hpieces piece hp).chars c hc)
  have hunderscores : ∀ c ∈ ['_', '_'], isBlank c = false := by simp [isBlank]
  have hdot : ∀ c ∈ ['.'], isBlank c = false := by simp [isBlank]
  have htrim : trimBlank (variableName way).toList = (variableName way).toList := by
    refine trimBlank_eq ?_
    rw [toList_variableName, List.forall_mem_append]
    exact ⟨by simp [variableStart, isBlank], forall_mem_intercalate hunderscores hchars⟩
  have hsegments : segments (trimBlank (dotted ((variableName way).toList.drop
      variableStart.toList.length))) = way.map (fun key => key.toList.map Char.toUpper) := by
    rw [toList_variableName, List.drop_left, dotted_intercalate hpieces,
      trimBlank_eq (forall_mem_intercalate hdot hchars), segments_eq_splitOn]
    exact List.splitOn_intercalate '.' (fun piece hp => (hpieces piece hp).no_dot)
      (by simpa using hne)
  have hempty : (way.map (fun key => key.toList.map Char.toUpper)).contains [] = false := by
    simp only [List.contains_eq_mem, decide_eq_false_iff_not]
    exact fun hp => (hpieces [] hp).nonempty rfl
  have hstart : (variableName way).toList.take variableStart.toList.length =
      variableStart.toList := by
    rw [toList_variableName, List.take_left]
  have hsmall : way.map ((fun piece => String.ofList (piece.map Char.toLower)) ∘
      fun key => key.toList.map Char.toUpper) = way.map small := by
    refine List.map_congr_left (fun key _ => ?_)
    simp [small, Function.comp_def]
  unfold way?
  simp only [htrim, hsegments, hempty, hstart, if_true, Bool.false_eq_true, if_false, List.map_map,
    hsmall]

def addVariable (entries : List (String × Setting)) (e : String × String) :
    List (String × Setting) :=
  match way? e.1 with
  | some (key :: rest) => Setting.layEntries entries [(key, (value e.2).nested rest)]
  | _ => entries

theorem settings_eq (environment : List (String × String)) :
    settings environment = environment.foldl addVariable [] := rfl

/-- Variables that lead nowhere change no settings. -/
theorem foldl_addVariable_of_nowhere {environment : List (String × String)}
    (h : ∀ e ∈ environment, way? e.1 = none) (entries : List (String × Setting)) :
    environment.foldl addVariable entries = entries := by
  induction environment with
  | nil => rfl
  | cons e rest ih =>
    obtain ⟨he, hrest⟩ := List.forall_mem_cons.mp h
    rw [List.foldl_cons, addVariable, he]
    exact ih hrest

theorem settings_of_nowhere {environment : List (String × String)}
    (h : ∀ e ∈ environment, way? e.1 = none) : settings environment = [] :=
  foldl_addVariable_of_nowhere h []

/-- One variable among such that lead nowhere gives its own setting and no other. -/
theorem settings_single {before after : List (String × String)} {key name v : String}
    {rest : List String} (h : ∀ e ∈ before ++ after, way? e.1 = none)
    (hway : way? name = some (key :: rest)) :
    settings (before ++ (name, v) :: after) = [(key, (value v).nested rest)] := by
  obtain ⟨hbefore, hafter⟩ := List.forall_mem_append.mp h
  rw [settings_eq, List.foldl_append, foldl_addVariable_of_nowhere hbefore, List.foldl_cons,
    foldl_addVariable_of_nowhere hafter, addVariable, hway]
  simp [Setting.layEntries, Setting.put]

end Environment

/-- The variable for a setting of an entity leads to the entity's name in small letters. -/
theorem EntityName.way?_setting {n : EntityName} {key : String}
    (hkey : Environment.Segment key.toList) (hsingle : ¬ ['_', '_'] <:+: n.text.toList)
    (hending : n.text.toList.getLast? ≠ some '_') :
    Environment.way? (Environment.variableName ["entities", n.text, key]) =
      some ["entities", small n.text, small key] := by
  have hentities : Environment.Segment "entities".toList :=
    ⟨by simp, by simp [isNameChar], by decide +kernel, by decide +kernel⟩
  have hname : Environment.Segment n.text.toList := by
    obtain ⟨first, rest, htext, _, _⟩ := n.shape
    exact ⟨by simp [htext], n.text_chars, hsingle, hending⟩
  rw [Environment.way?_variableName (List.cons_ne_nil _ _)
    (List.forall_mem_cons.mpr ⟨hentities, List.forall_mem_cons.mpr
      ⟨hname, List.forall_mem_singleton.mpr hkey⟩⟩)]
  simp [small]

end CrudLayers
