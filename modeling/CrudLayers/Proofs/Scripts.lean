import CrudLayers.Diff.Compact
import Mathlib.Data.List.Basic

namespace CrudLayers.Diff

variable {α : Type}

namespace Script

variable {m : Mark}

@[simp]
theorem side_nil : side m ([] : Script α) = [] :=
  rfl

theorem side_cons (e : Edit α) (s : Script α) :
    side m (e :: s) = side m [e] ++ side m s :=
  side_append m [e] s

@[simp]
theorem side_keep (items : List α) : side m [⟨.keep, items⟩] = items := by
  simp [side]

/-- Blocks with one mark are joined to one. -/
theorem side_joined (k : Mark) (items more : List α) :
    side m [⟨k, items ++ more⟩] = side m [⟨k, items⟩] ++ side m [⟨k, more⟩] := by
  by_cases hk : k = .keep ∨ k = m <;> simp [side, hk]

/-- Removed and added blocks next to each other have no side in common. -/
theorem side_swap {e f : Edit α} (he : e.mark ≠ .keep) (hf : f.mark ≠ .keep)
    (hne : e.mark ≠ f.mark) : side m [e] ++ side m [f] = side m [f] ++ side m [e] := by
  by_cases hm : e.mark = m
  · have hfm : f.mark ≠ m := fun h => hne (hm.trans h.symm)
    simp [side, hf, hfm]
  · simp [side, he, hm]

end Script

section Common

variable [BEq α] [LawfulBEq α]

theorem take_commonStart (l m : List α) :
    l.take (commonStart l m) = m.take (commonStart l m) := by
  induction l generalizing m with
  | nil => simp [commonStart]
  | cons a l ih =>
    cases m with
    | nil => simp [commonStart]
    | cons b m =>
      by_cases hab : a = b
      · simp [commonStart, hab, ih]
      · simp [commonStart, hab]

/-- What two lists have in common at their end. -/
theorem drop_commonEnd (l m : List α) :
    l.drop (l.length - commonEnd l m) = m.drop (m.length - commonEnd l m) := by
  have h := take_commonStart l.reverse m.reverse
  rw [List.take_reverse, List.take_reverse, List.reverse_inj] at h
  exact h

end Common

namespace Focus

open Script

variable {m : Mark}

theorem side_script (f : Focus α) :
    side m f.script = side m f.above.reverse ++ side m [f.edit] ++ side m f.below := by
  rw [script, side_append, side_cons, List.append_assoc]

@[simp]
theorem side_keepBefore (items : List α) (edits : List (Edit α)) :
    side m (keepBefore items edits) = items ++ side m edits := by
  unfold keepBefore
  split
  · simp [side]
  · simp [side]

@[simp]
theorem side_keepAfter (items : List α) (edits : List (Edit α)) :
    side m (keepAfter items edits).reverse = side m edits.reverse ++ items := by
  unfold keepAfter
  split
  · simp [side_append, side]
  · simp [side_append, side]

/-- Two views with the same mark in focus, of scripts with the same sides. -/
structure Moved (f g : Focus α) : Prop where
  mark : g.edit.mark = f.edit.mark
  sides : ∀ m, side m g.script = side m f.script

theorem Moved.refl (f : Focus α) : Moved f f :=
  ⟨rfl, fun _ => rfl⟩

theorem Moved.trans {f g h : Focus α} (hfg : Moved f g) (hgh : Moved g h) : Moved f h :=
  ⟨hgh.mark.trans hfg.mark, fun m => (hgh.sides m).trans (hfg.sides m)⟩

section Steps

variable {above below : List (Edit α)} {e f : Edit α} {items block : List α} {k : Mark}

/-- A block passes one with another mark, in either direction. -/
theorem moved_past (he : e.mark ≠ .keep) (hf : f.mark ≠ .keep) (hne : e.mark ≠ f.mark) :
    Moved ⟨e :: above, f, below⟩ ⟨above, f, e :: below⟩ ∧
      Moved ⟨above, f, e :: below⟩ ⟨e :: above, f, below⟩ := by
  have hsides : ∀ m, side m (script ⟨above, f, e :: below⟩) =
      side m (script ⟨e :: above, f, below⟩) := by
    intro m
    have hswap := side_swap (m := m) he hf hne
    rw [side_script, side_script, side_cons e below, List.reverse_cons, side_append]
    simp only [List.append_assoc]
    rw [← List.append_assoc (side m [e]), hswap, List.append_assoc]
  exact ⟨⟨rfl, hsides⟩, ⟨rfl, fun m => (hsides m).symm⟩⟩

theorem moved_into_above : Moved ⟨⟨k, items⟩ :: above, ⟨k, block⟩, below⟩
    ⟨above, ⟨k, items ++ block⟩, below⟩ := by
  refine ⟨rfl, fun m => ?_⟩
  simp [side_script, side_append, side_joined k items block]

theorem moved_into_below : Moved ⟨above, ⟨k, block⟩, ⟨k, items⟩ :: below⟩
    ⟨above, ⟨k, block ++ items⟩, below⟩ := by
  refine ⟨rfl, fun m => ?_⟩
  simp [side_script, side_cons ⟨k, items⟩ below, side_joined k block items]

/-- An added block takes the end of what is kept above it to its front, and leaves behind it its
own end, which is the same. -/
theorem moved_above (above below : List (Edit α)) (left items block : List α) :
    Moved ⟨⟨.keep, left ++ items⟩ :: above, ⟨.add, block ++ items⟩, below⟩
      ⟨if left.isEmpty then above else ⟨.keep, left⟩ :: above, ⟨.add, items ++ block⟩,
        keepBefore items below⟩ := by
  refine ⟨rfl, fun m => ?_⟩
  have hleft : side m (if left.isEmpty then above else ⟨.keep, left⟩ :: above).reverse =
      side m above.reverse ++ left := by
    cases left <;> simp [side_append]
  simp only [side_script, hleft, side_keepBefore, List.reverse_cons, side_append, side_keep]
  rw [side_joined, side_joined]
  by_cases hm : m = .add
  · simp [side, hm]
  · simp [side, Ne.symm hm]

theorem moved_below (above below : List (Edit α)) (left items block : List α) :
    Moved ⟨above, ⟨.add, items ++ block⟩, ⟨.keep, items ++ left⟩ :: below⟩
      ⟨keepAfter items above, ⟨.add, block ++ items⟩,
        if left.isEmpty then below else ⟨.keep, left⟩ :: below⟩ := by
  refine ⟨rfl, fun m => ?_⟩
  have hleft : side m (if left.isEmpty then below else ⟨.keep, left⟩ :: below) =
      left ++ side m below := by
    cases left <;> simp [side]
  simp only [side_script, hleft, side_keepAfter, side_cons ⟨.keep, items ++ left⟩ below, side_keep]
  rw [side_joined, side_joined]
  by_cases hm : m = .add
  · simp [side, hm]
  · simp [side, Ne.symm hm]

end Steps

section Marked

variable [BEq α] {above below : List (Edit α)} {e f : Edit α} {steps : Nat}

theorem up_marked (h : e.mark ≠ .keep) : up (steps + 1) ⟨e :: above, f, below⟩ =
    if e.mark = f.mark then up steps ⟨above, ⟨e.mark, e.block ++ f.block⟩, below⟩
    else up steps ⟨above, f, e :: below⟩ := by
  obtain ⟨k, items⟩ := e
  cases k with
  | keep => exact absurd rfl h
  | remove => rfl
  | add => rfl

theorem down_marked (h : e.mark ≠ .keep) : down (steps + 1) ⟨above, f, e :: below⟩ =
    if e.mark = f.mark then down steps ⟨above, ⟨e.mark, f.block ++ e.block⟩, below⟩
    else down steps ⟨e :: above, f, below⟩ := by
  obtain ⟨k, items⟩ := e
  cases k with
  | keep => exact absurd rfl h
  | remove => rfl
  | add => rfl

end Marked

section Moves

variable [BEq α] [LawfulBEq α] {kept : List α} {e : Edit α}

/-- Only an added block moves over what is kept above it, and as far as the two end alike. -/
theorem roomAbove_spec (h : roomAbove kept e ≠ 0) : e.mark = .add ∧
    e.block.take (e.block.length - roomAbove kept e) ++
      kept.drop (kept.length - roomAbove kept e) = e.block := by
  unfold roomAbove at h ⊢
  split at h
  · rename_i hmark
    rw [if_pos hmark, drop_commonEnd, List.take_append_drop]
    exact ⟨hmark, rfl⟩
  · exact absurd rfl h

theorem roomBelow_spec (h : roomBelow kept e ≠ 0) : e.mark = .add ∧
    kept.take (roomBelow kept e) ++ e.block.drop (roomBelow kept e) = e.block := by
  unfold roomBelow at h ⊢
  split at h
  · rename_i hmark
    rw [if_pos hmark, take_commonStart, List.take_append_drop]
    exact ⟨hmark, rfl⟩
  · exact absurd rfl h

/-- Moving a block up leaves both sides as they are, however far it goes. -/
theorem moved_up (steps : Nat) (f : Focus α) (hf : f.edit.mark ≠ .keep) :
    Moved f (f.up steps) := by
  induction steps generalizing f with
  | zero => exact .refl f
  | succ steps ih =>
    obtain ⟨above, ⟨mark, block⟩, below⟩ := f
    cases above with
    | nil => exact .refl _
    | cons e above =>
      by_cases hkeep : e.mark = .keep
      · obtain ⟨_, kept⟩ := e
        simp only at hkeep
        subst hkeep
        simp only [up]
        split
        · rename_i hempty
          have hdrop : Moved ⟨⟨.keep, kept⟩ :: above, ⟨mark, block⟩, below⟩
              ⟨above, ⟨mark, block⟩, below⟩ :=
            ⟨rfl, fun m => by simp [side_script, side_append, List.isEmpty_iff.mp hempty]⟩
          exact hdrop.trans (ih _ hf)
        · split
          · exact .refl _
          · rename_i hroom
            obtain ⟨hmark, hblock⟩ := roomAbove_spec hroom
            simp only at hmark hblock
            subst hmark
            have hstep := moved_above above below
              (kept.take (kept.length - roomAbove kept ⟨.add, block⟩))
              (kept.drop (kept.length - roomAbove kept ⟨.add, block⟩))
              (block.take (block.length - roomAbove kept ⟨.add, block⟩))
            rw [List.take_append_drop, hblock] at hstep
            exact hstep.trans (ih _ hf)
      · rw [up_marked hkeep]
        split
        · rename_i hsame
          obtain ⟨_, items⟩ := e
          simp only at hsame
          subst hsame
          exact moved_into_above.trans (ih _ hf)
        · rename_i hother
          exact (moved_past hkeep hf hother).1.trans (ih _ hf)

/-- So does moving it down. -/
theorem moved_down (steps : Nat) (f : Focus α) (hf : f.edit.mark ≠ .keep) :
    Moved f (f.down steps) := by
  induction steps generalizing f with
  | zero => exact .refl f
  | succ steps ih =>
    obtain ⟨above, ⟨mark, block⟩, below⟩ := f
    cases below with
    | nil => exact .refl _
    | cons e below =>
      by_cases hkeep : e.mark = .keep
      · obtain ⟨_, kept⟩ := e
        simp only at hkeep
        subst hkeep
        simp only [down]
        split
        · rename_i hempty
          have hdrop : Moved ⟨above, ⟨mark, block⟩, ⟨.keep, kept⟩ :: below⟩
              ⟨above, ⟨mark, block⟩, below⟩ :=
            ⟨rfl, fun m => by simp [side_script, side, List.isEmpty_iff.mp hempty]⟩
          exact hdrop.trans (ih _ hf)
        · split
          · exact .refl _
          · rename_i hroom
            obtain ⟨hmark, hblock⟩ := roomBelow_spec hroom
            simp only at hmark hblock
            subst hmark
            have hstep := moved_below above below (kept.drop (roomBelow kept ⟨.add, block⟩))
              (kept.take (roomBelow kept ⟨.add, block⟩))
              (block.drop (roomBelow kept ⟨.add, block⟩))
            rw [List.take_append_drop, hblock] at hstep
            exact hstep.trans (ih _ hf)
      · rw [down_marked hkeep]
        split
        · rename_i hsame
          obtain ⟨_, items⟩ := e
          simp only at hsame
          subst hsame
          exact moved_into_below.trans (ih _ hf)
        · rename_i hother
          exact (moved_past hkeep hf hother).2.trans (ih _ hf)

end Moves

end Focus

section Settle

variable [BEq α] [LawfulBEq α]

theorem side_settle {mark : Mark} (hmark : mark ≠ .keep) (m : Mark) (steps : Nat)
    (above below : List (Edit α)) : Script.side m (settle mark steps above below) =
      Script.side m above.reverse ++ Script.side m below := by
  induction steps generalizing above below with
  | zero => rw [settle, Script.side_append]
  | succ steps ih =>
    cases below with
    | nil => simp [settle]
    | cons e below =>
      simp only [settle]
      split
      · rename_i he
        generalize weight above + weight (e :: below) = size
        have hup := Focus.moved_up size ⟨above, e, below⟩ (he ▸ hmark)
        have hdown := Focus.moved_down size _ (hup.mark ▸ he ▸ hmark)
        have hsides := (hup.trans hdown).sides m
        rw [Focus.side_script, Focus.side_script] at hsides
        rw [ih, List.reverse_cons, Script.side_append, hsides, Script.side_cons e below,
          List.append_assoc]
      · rw [ih, List.reverse_cons, Script.side_append, Script.side_cons e below,
          List.append_assoc]

/-- Both sides of a script stay as they are when its blocks are moved. -/
theorem side_compact (m : Mark) (s : Script α) : Script.side m (compact s) = Script.side m s := by
  simp only [compact]
  rw [side_settle (by simp), side_settle (by simp)]
  simp

end Settle

end CrudLayers.Diff
