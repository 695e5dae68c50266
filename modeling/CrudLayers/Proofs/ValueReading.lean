import CrudLayers.Proofs.ValueGrammar

namespace CrudLayers.Environment

open Toml (Reader)

def readPadded (depth : Nat) : Reader Setting := fun s => do
  let (v, rest) ← readBody depth (skipBlanks s)
  return (v, skipBlanks rest)

theorem readPadded_sound {depth : Nat}
    (hbody : ∀ {s v rest}, (∀ c ∈ s.head?, isAsciiBlank c = false) →
      readBody depth s = some (v, rest) → ∃ w, s = w ++ rest ∧ Spells w v) :
    Sound (readPadded depth) (Padded Spells) := by
  intro s v rest h
  simp only [readPadded, Option.bind_eq_bind, Option.bind_eq_some_iff, Option.pure_def,
    Option.some.injEq, Prod.mk.injEq, Prod.exists] at h
  obtain ⟨_, behind, hread, rfl, rfl⟩ := h
  obtain ⟨before, hs, hbefore⟩ := exists_blanks s
  obtain ⟨w, hw, hspells⟩ := hbody (head_skipBlanks s) hread
  obtain ⟨after, hbehind, hafter⟩ := exists_blanks behind
  refine ⟨_, ?_, .mk hbefore hspells hafter⟩
  rw [List.append_assoc, ← hbehind, List.append_assoc, ← hw, ← hs]

theorem readBody_sound (depth : Nat) {s rest : List Char} {v : Setting}
    (hhead : ∀ c ∈ s.head?, isAsciiBlank c = false) (h : readBody depth s = some (v, rest)) :
    ∃ w, s = w ++ rest ∧ Spells w v := by
  induction depth generalizing s v rest with
  | zero => cases h
  | succ depth ih =>
    have hpadded : Sound (readPadded depth) (Padded Spells) := readPadded_sound ih
    unfold readBody at h
    split at h
    · cases h
      exact ⟨_, rfl, .yes⟩
    · cases h
      exact ⟨_, rfl, .no⟩
    · obtain ⟨⟨entries, _⟩, hread, heq⟩ := Option.map_eq_some_iff.mp h
      cases heq
      obtain ⟨w, rfl, hw⟩ := readItems_sound (readEntry_sound hpadded) _ hread
      exact ⟨_, rfl, .table hw⟩
    · obtain ⟨⟨items, _⟩, hread, heq⟩ := Option.map_eq_some_iff.mp h
      cases heq
      obtain ⟨w, rfl, hw⟩ := readItems_sound hpadded _ hread
      exact ⟨_, rfl, .list hw⟩
    · obtain ⟨⟨t, _⟩, hread, heq⟩ := Option.map_eq_some_iff.mp h
      cases heq
      obtain ⟨w, u, rfl, hw, rfl⟩ := readQuoted_sound hread
      exact ⟨_, rfl, .quoted hw⟩
    · cases h
      exact ⟨_, rfl, .single _⟩
    · cases h
    · next hyes hno _ _ hquote _ hsingle =>
      obtain ⟨w, behind, rfl, hw, hbehind⟩ := exists_front (fun c => !isSeparator c) s
      simp only [takeWhile_front hw hbehind, List.drop_left, Option.some.injEq,
        Prod.mk.injEq] at h
      obtain ⟨rfl, rfl⟩ := h
      refine ⟨w, rfl, .word ⟨by simpa using hw, fun c hc => hhead c ?_, ?_, ?_, ?_, ?_⟩
        (bareValue_iff.mpr rfl)⟩
      · obtain ⟨w, rfl⟩ := List.head?_eq_some_iff.mp hc
        rfl
      · intro heq
        obtain ⟨w, rfl⟩ := List.head?_eq_some_iff.mp heq
        exact hquote _ rfl
      · intro heq
        obtain ⟨w, rfl⟩ := List.head?_eq_some_iff.mp heq
        exact hsingle _ rfl
      · rintro ⟨w, rfl⟩
        exact hyes _ rfl
      · rintro ⟨w, rfl⟩
        exact hno _ rfl

theorem readBody_word {depth : Nat} {s : List Char} (hyes : ¬ ['t', 'r', 'u', 'e'] <+: s)
    (hno : ¬ ['f', 'a', 'l', 's', 'e'] <+: s) (hquote : s.head? ≠ some '\"')
    (hsingle : s.head? ≠ some '\'') (hlist : s.head? ≠ some '[') (htable : s.head? ≠ some '\x7b') :
    readBody (depth + 1) s = some (bare (trimBlank (s.takeWhile (fun c => !isSeparator c))),
      s.drop (s.takeWhile (fun c => !isSeparator c)).length) := by
  unfold readBody
  split
  · exact absurd ⟨_, rfl⟩ hyes
  · exact absurd ⟨_, rfl⟩ hno
  · exact absurd rfl htable
  · exact absurd rfl hlist
  · exact absurd rfl hquote
  · exact absurd rfl hsingle
  · exact absurd rfl hsingle
  · rfl

theorem trimBlank_append {s after : List Char} (h : ∀ c ∈ after, isBlank c = true) :
    trimBlank (s ++ after) = trimBlank s := by
  rw [trimBlank, trimBlank, List.dropWhile_append]
  split
  · next hs =>
    rw [List.isEmpty_iff.mp hs, List.dropWhile_eq_nil_iff.mpr h]
  · rw [List.reverse_append, List.dropWhile_append_of_pos (by simpa using h)]

/-- What a text starts with is not told by what follows it and has no part in this. -/
theorem prefix_of_append {l s t : List Char} (h : l <+: s ++ t) (ht : ∀ c ∈ t.head?, c ∉ l) :
    l <+: s := by
  rcases List.prefix_or_prefix_of_prefix h (List.prefix_append s t) with hl | ⟨u, rfl⟩
  · exact hl
  · cases u with
    | nil => simp
    | cons c u =>
      obtain ⟨x, rfl⟩ := (List.prefix_append_right_inj s).mp h
      exact absurd (by simp) (ht c rfl)

theorem head_behind {after rest : List Char} (hafter : Blanks after) (hrest : Stops rest) :
    ∀ c ∈ (after ++ rest).head?, c ∈ wordEnds := by
  intro c hc
  cases after with
  | nil => exact (hrest.kinds c hc).2.2
  | cons d after =>
    obtain rfl : d = c := Option.some.inj hc
    have hd : isAsciiBlank d = true := hafter d List.mem_cons_self
    simp only [isAsciiBlank, Bool.or_eq_true, beq_iff_eq] at hd
    simp only [wordEnds, List.mem_cons]
    tauto

theorem Word.read {depth : Nat} {w after rest : List Char} (h : Word w) (hafter : Blanks after)
    (hrest : Stops rest) :
    readBody (depth + 1) (w ++ (after ++ rest)) = some (bare (trimBlank w), rest) := by
  have hne : ∀ {d}, d ∉ wordEnds → (after ++ rest).head? ≠ some d :=
    fun hd heq => hd (head_behind hafter hrest _ heq)
  have hstart : ∀ {l}, (∀ d ∈ wordEnds, d ∉ l) → l <+: w ++ (after ++ rest) → l <+: w :=
    fun hends hl => prefix_of_append hl (fun d hd => hends d (head_behind hafter hrest d hd))
  have hsep : ∀ {d}, isSeparator d = true → w.head? ≠ some d := by
    intro d hd heq
    rw [h.separators d (List.mem_of_mem_head? heq)] at hd
    cases hd
  have htake : (w ++ (after ++ rest)).takeWhile (fun c => !isSeparator c) = w ++ after := by
    rw [← List.append_assoc]
    apply takeWhile_front
    · intro c hc
      rcases List.mem_append.mp hc with hc | hc
      · simp [h.separators c hc]
      · simp [(asciiBlank_kinds (hafter c hc)).2.2]
    · intro c hc
      simp [(hrest.kinds c hc).2.1]
  rw [readBody_word]
  · rw [htake, ← List.append_assoc, List.drop_left,
      trimBlank_append (fun c hc => (asciiBlank_kinds (hafter c hc)).1)]
  · exact fun hl => h.yes (hstart (by simp [wordEnds]) hl)
  · exact fun hl => h.no (hstart (by simp [wordEnds]) hl)
  · exact head_append_ne h.quote (hne (by decide))
  · exact head_append_ne h.single (hne (by decide))
  · exact head_append_ne (hsep rfl) (hne (by decide))
  · exact head_append_ne (hsep rfl) (hne (by decide))

theorem Spells.head {w : List Char} {v : Setting} (h : Spells w v) :
    ∀ c ∈ w.head?, isAsciiBlank c = false ∧ c ≠ ']' := by
  cases h with
  | word h =>
    intro c hc
    refine ⟨h.blank c hc, ?_⟩
    rintro rfl
    cases h.separators _ (List.mem_of_mem_head? hc)
  | _ => simp [isAsciiBlank]

theorem Padded.head {w : List Char} {v : Setting} (h : Padded Spells w v) :
    w.head? ≠ some ']' := by
  obtain ⟨hbefore, h, hafter⟩ := h
  refine head_append_ne (head_append_ne (hbefore.head_ne rfl) ?_) (hafter.head_ne rfl)
  exact fun hc => (h.head _ hc).2 rfl

theorem readPadded_complete {depth : Nat}
    (hbody : ∀ {w v after rest}, w.length < depth → Spells w v → Blanks after → Stops rest →
      ∃ left, readBody depth (w ++ (after ++ rest)) = some (v, left) ∧ skipBlanks left = rest) :
    Complete (readPadded depth) (Padded Spells) depth := by
  rintro _ v rest hsize (@⟨before, s, after, _, hbefore, h, hafter⟩) hrest
  simp only [List.length_append] at hsize
  -- Nothing tells the blanks behind an empty word from those before it.
  obtain ⟨behind, left, hskip, hread, hleft⟩ : ∃ behind left,
      skipBlanks (before ++ s ++ after ++ rest) = s ++ (behind ++ rest) ∧
        readBody depth (s ++ (behind ++ rest)) = some (v, left) ∧ skipBlanks left = rest := by
    cases s with
    | nil =>
      obtain ⟨left, hread, hleft⟩ := hbody (by omega) h (List.forall_mem_nil _) hrest
      refine ⟨[], left, ?_, hread, hleft⟩
      rw [List.append_nil]
      exact hrest.skip (hbefore.append hafter)
    | cons c s =>
      obtain ⟨left, hread, hleft⟩ := hbody (by omega) h hafter hrest
      refine ⟨after, left, ?_, hread, hleft⟩
      rw [List.append_assoc, List.append_assoc]
      exact hbefore.skip (fun d hd => (h.head d hd).1)
  rw [readPadded, hskip, hread, ← hleft]
  rfl

/-- A text that spells a value is read as this value, where an item ends. -/
theorem Spells.read {depth : Nat} {w after rest : List Char} {v : Setting}
    (hdepth : w.length < depth) (h : Spells w v) (hafter : Blanks after) (hrest : Stops rest) :
    ∃ left, readBody depth (w ++ (after ++ rest)) = some (v, left) ∧ skipBlanks left = rest := by
  induction depth generalizing w v after rest with
  | zero => cases hdepth
  | succ depth ih =>
    have hpadded : Complete (readPadded depth) (Padded Spells) depth := readPadded_complete ih
    have hskip : skipBlanks (after ++ rest) = rest := hrest.skip hafter
    cases h with
    | yes => exact ⟨after ++ rest, rfl, hskip⟩
    | no => exact ⟨after ++ rest, rfl, hskip⟩
    | quoted h => exact ⟨after ++ rest, congrArg (Option.map _) (h.read_all _), hskip⟩
    | single c => exact ⟨after ++ rest, rfl, hskip⟩
    | @list s items h =>
      have hsize : s.length ≤ depth := (Nat.lt_of_succ_lt_succ hdepth).le
      have hread := h.read_all (.inl rfl) Padded.head (hpadded.mono hsize) (after ++ rest)
      exact ⟨after ++ rest, congrArg (Option.map _) hread, hskip⟩
    | @table s entries h =>
      have hsize : s.length ≤ depth := (Nat.lt_of_succ_lt_succ hdepth).le
      have hread := h.read_all (.inr rfl) Keyed.head (Keyed.read (hpadded.mono hsize))
        (after ++ rest)
      exact ⟨after ++ rest, congrArg (Option.map _) hread, hskip⟩
    | word h hv =>
      rw [← bareValue_iff.mp hv]
      exact ⟨rest, h.read hafter hrest, hrest.skip (List.forall_mem_nil _)⟩

/-- What the text of a variable stands for: the value that it spells, or else itself. -/
inductive Denotes (s : String) : Setting → Prop where
  | spelled {v : Setting} (h : Padded Spells s.toList v) : Denotes s v
  | itself (h : ∀ v, ¬ Padded Spells s.toList v) : Denotes s (.text s)

theorem value_of_spelled {s : String} {v : Setting} (h : Padded Spells s.toList v) :
    value s = v := by
  have hread : readPadded (s.toList.length + 1) (s.toList ++ []) = some (v, []) :=
    readPadded_complete Spells.read (Nat.lt_succ_self _) h (by simp [Stops])
  rw [List.append_nil, readPadded] at hread
  obtain ⟨⟨_, rest⟩, hbody, heq⟩ := Option.bind_eq_some_iff.mp hread
  obtain ⟨rfl, hrest⟩ := Prod.mk.inj (Option.some.inj heq)
  rw [value, hbody]
  exact if_pos hrest

theorem value_of_unspelled {s : String} (h : ∀ v, ¬ Padded Spells s.toList v) :
    value s = .text s := by
  have hread : ∀ v rest, readBody (s.toList.length + 1) (skipBlanks s.toList) = some (v, rest) →
      skipBlanks rest ≠ [] := by
    intro v rest hbody hrest
    have hpadded : readPadded (s.toList.length + 1) s.toList = some (v, []) := by
      rw [readPadded, hbody, ← hrest]
      rfl
    obtain ⟨w, hw, hspells⟩ := readPadded_sound (readBody_sound _) hpadded
    rw [List.append_nil] at hw
    exact h v (hw ▸ hspells)
  unfold value
  dsimp only
  split
  · next v rest hbody => exact if_neg (hread v rest hbody)
  · rfl

/-- What the text of a variable stands for is what the grammar says. -/
theorem denotes_iff {s : String} {v : Setting} : Denotes s v ↔ value s = v := by
  constructor
  · rintro (h | h)
    · exact value_of_spelled h
    · exact value_of_unspelled h
  · rintro rfl
    by_cases hspelled : ∃ v, Padded Spells s.toList v
    · obtain ⟨v, hv⟩ := hspelled
      exact value_of_spelled hv ▸ .spelled hv
    · rw [not_exists] at hspelled
      exact value_of_unspelled hspelled ▸ .itself hspelled

example : Denotes "[]" (.list []) := denotes_iff.mpr rfl

example : Denotes "\"[]\"" (.text "[]") := denotes_iff.mpr rfl

/-- A text that its form makes something else than a word. -/
inductive Formed : List Char → Prop where
  | number {s : List Char} {v : Setting} (h : Numeral s v) : Formed s
  | yes : Formed ['t', 'r', 'u', 'e']
  | no : Formed ['f', 'a', 'l', 's', 'e']
  | quoted {s t : List Char} (h : Quoted s t) : Formed ('\"' :: s)
  | single (c : Char) : Formed ['\'', c, '\'']
  | list {s : List Char} {items : List Setting} (h : Items ']' (Padded Spells) s items) :
      Formed ('[' :: s)
  | table {s : List Char} {entries : List (String × Setting)}
      (h : Items '\x7d' (Keyed (Padded Spells)) s entries) : Formed ('\x7b' :: s)

theorem Numeral.word {s : List Char} {v : Setting} (h : Numeral s v) : Word s where
  separators := by
    intro c hc
    by_contra hsep
    simp only [isSeparator, Bool.not_eq_false, Bool.or_eq_true, beq_iff_eq] at hsep
    rcases hsep with (((rfl | rfl) | rfl) | rfl) | rfl
    all_goals exact h.not_mem rfl (by decide) hc
  blank := by
    intro c hc
    by_contra hblank
    simp only [isAsciiBlank, Bool.not_eq_false, Bool.or_eq_true, beq_iff_eq] at hblank
    rcases hblank with (((rfl | rfl) | rfl) | rfl) | rfl
    all_goals exact h.not_mem rfl (by decide) (List.mem_of_mem_head? hc)
  quote := fun hc => h.not_mem rfl (by decide) (List.mem_of_mem_head? hc)
  single := fun hc => h.not_mem rfl (by decide) (List.mem_of_mem_head? hc)
  yes := fun hl => h.not_mem (c := 't') rfl (by decide) (hl.subset (by simp))
  no := fun hl => h.not_mem (c := 'f') rfl (by decide) (hl.subset (by simp))

theorem Quoted.length_lt {s t : List Char} (h : Quoted s t) : t.length < s.length := by
  induction h with
  | done => simp
  | plain => simpa
  | escaped _ _ ih =>
    simp only [List.length_cons, List.length_append]
    omega

/-- The ends of a trimmed text are no blanks. -/
theorem ends_of_trimmed {s : List Char} (h : trimBlank s = s) :
    (∀ c ∈ s.head?, isBlank c = false) ∧ ∀ c ∈ s.getLast?, isBlank c = false := by
  have hfront : trimBlank s <+: s.dropWhile isBlank := by
    rw [trimBlank, ← List.reverse_suffix, List.reverse_reverse]
    exact List.dropWhile_suffix isBlank
  rw [h] at hfront
  have hsame : s.dropWhile isBlank = s :=
    (List.dropWhile_suffix isBlank).eq_of_length_le hfront.length_le
  have hhead := head_dropWhile (p := isBlank) s
  rw [hsame] at hhead
  refine ⟨hhead, fun c hc => ?_⟩
  rw [← h, trimBlank, List.getLast?_reverse] at hc
  exact head_dropWhile _ c hc

theorem Padded.trimmed {s : List Char} {v : Setting} (h : Padded Spells s v)
    (htrim : trimBlank s = s) : Spells s v := by
  obtain @⟨before, s, after, _, hbefore, h, hafter⟩ := h
  obtain ⟨hhead, hlast⟩ := ends_of_trimmed htrim
  cases before with
  | cons c before =>
    have hblank := (asciiBlank_kinds (hbefore c List.mem_cons_self)).1
    rw [hhead c rfl] at hblank
    cases hblank
  | nil =>
    rcases List.eq_nil_or_concat after with rfl | ⟨after, c, rfl⟩
    · simpa using h
    · have hblank := (asciiBlank_kinds (hafter c (by simp))).1
      rw [hlast c (by simp)] at hblank
      cases hblank

theorem Spells.padded {s : List Char} {v : Setting} (h : Spells s v) : Padded Spells s v := by
  have hpadded := Padded.mk (List.forall_mem_nil _) h (List.forall_mem_nil _)
  rwa [List.append_nil] at hpadded

/-- What a text that has a form spells is never the text itself. -/
theorem Formed.spells {s : List Char} (h : Formed s) (htrim : trimBlank s = s) :
    ∃ v, Spells s v ∧ v ≠ .text (String.ofList s) := by
  cases h with
  | number h => exact ⟨_, .word h.word (htrim.symm ▸ .number h), h.ne_text _⟩
  | yes => exact ⟨_, .yes, by simp⟩
  | no => exact ⟨_, .no, by simp⟩
  | @quoted s t h =>
    refine ⟨_, .quoted h, ?_⟩
    rw [ne_eq, Setting.text.injEq, String.ofList_inj]
    rintro rfl
    simpa using h.length_lt
  | single c =>
    refine ⟨_, .single c, ?_⟩
    rw [ne_eq, Setting.text.injEq, ← String.toList_inj]
    simp
  | list h => exact ⟨_, .list h, by simp⟩
  | table h => exact ⟨_, .table h, by simp [tableOf]⟩

theorem Spells.formed_or_word {s : List Char} {v : Setting} (h : Spells s v) :
    Formed s ∨ BareValue (trimBlank s) v := by
  cases h with
  | yes => exact .inl .yes
  | no => exact .inl .no
  | quoted h => exact .inl (.quoted h)
  | single c => exact .inl (.single c)
  | list h => exact .inl (.list h)
  | table h => exact .inl (.table h)
  | word _ hv => exact .inr hv

/-- A trimmed text stands for itself if and only if it has no other form than that of a word. -/
theorem denotes_self_iff {s : String} (htrim : trimBlank s.toList = s.toList) :
    Denotes s (.text s) ↔ ¬ Formed s.toList := by
  constructor
  · intro hself hformed
    obtain ⟨v, hv, hne⟩ := hformed.spells htrim
    rw [String.ofList_toList] at hne
    apply hne
    rw [← denotes_iff.mp hself, denotes_iff.mp (.spelled hv.padded)]
  · intro hunformed
    by_cases hspelled : ∃ v, Padded Spells s.toList v
    · obtain ⟨v, hv⟩ := hspelled
      have hword := (hv.trimmed htrim).formed_or_word.resolve_left hunformed
      rw [htrim] at hword
      cases hword with
      | number h => exact absurd (.number h) hunformed
      | text =>
        rw [String.ofList_toList] at hv
        exact .spelled hv
    · exact .itself (not_exists.mp hspelled)

end CrudLayers.Environment
