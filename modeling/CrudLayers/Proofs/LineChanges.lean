import CrudLayers.CommandLine.Run
import CrudLayers.Proofs.Scripts

namespace CrudLayers.Diff

inductive IsEnd : List Char → Prop where
  | lineFeed : IsEnd ['\n']
  | carriageReturn : IsEnd ['\r']
  | both : IsEnd ['\r', '\n']

def Plain (s : List Char) : Prop :=
  ∀ c ∈ s, c ≠ '\n' ∧ c ≠ '\r'

/-- A text is cut into lines behind each end of a line. A carriage return is a whole end unless a
line feed follows, and only the last line may have no end. -/
inductive Lines : List Char → List (List Char) → Prop where
  | none : Lines [] []
  | unended {body : List Char} (plain : Plain body) (nonempty : body ≠ []) : Lines body [body]
  | ended {body ending rest : List Char} {lines : List (List Char)} (plain : Plain body)
      (isEnd : IsEnd ending) (whole : ending = ['\r'] → rest.head? ≠ some '\n')
      (tail : Lines rest lines) : Lines (body ++ ending ++ rest) ((body ++ ending) :: lines)

section Splitting

variable {text body ending rest line : List Char} {lines before after : List (List Char)} {c : Char}

theorem plain_nil : Plain [] :=
  List.forall_mem_nil _

theorem Lines.flatten (h : Lines text lines) : lines.flatten = text := by
  induction h with
  | none => rfl
  | unended => simp
  | ended _ _ _ _ ih => simp [ih]

theorem Lines.eq_nil (h : Lines text []) : text = [] := by
  cases h
  rfl

/-- A character that ends no line belongs to the line that follows. -/
theorem Lines.cons (hc : c ≠ '\n' ∧ c ≠ '\r') (h : Lines rest (line :: lines)) :
    Lines (c :: rest) ((c :: line) :: lines) := by
  cases h with
  | unended plain nonempty =>
    exact .unended (List.forall_mem_cons.mpr ⟨hc, plain⟩) (List.cons_ne_nil _ _)
  | ended plain isEnd whole tail =>
    exact .ended (List.forall_mem_cons.mpr ⟨hc, plain⟩) isEnd whole tail

theorem lines_splitLines (s : List Char) : Lines s (splitLines s) := by
  fun_induction splitLines s with
  | case1 => exact .none
  | case2 rest ih => exact (Lines.ended plain_nil .lineFeed (by simp) ih :)
  | case3 rest ih => exact (Lines.ended plain_nil .both (by simp) ih :)
  | case4 rest hfeed ih =>
    have hwhole : rest.head? ≠ some '\n' := by
      intro hhead
      obtain ⟨rest', hrest⟩ := List.head?_eq_some_iff.mp hhead
      exact hfeed rest' hrest
    exact (Lines.ended plain_nil .carriageReturn (fun _ => hwhole) ih :)
  | case5 c rest hfeed hboth hreturn hnone ih =>
    rw [hnone] at ih
    have hplain : Plain [c] := by
      exact List.forall_mem_singleton.mpr ⟨hfeed, hreturn⟩
    rw [ih.eq_nil]
    exact .unended hplain (List.cons_ne_nil _ _)
  | case6 c rest hfeed hboth hreturn line lines hlines ih =>
    rw [hlines] at ih
    exact ih.cons ⟨hfeed, hreturn⟩

theorem isEnded_of_isEnd (h : IsEnd ending) : isEnded (body ++ ending) = true := by
  cases h <;> simp [isEnded]

/-- A line without an end is the last one. -/
theorem Lines.last_of_not_ended (h : Lines text lines) (hlines : lines = before ++ line :: after)
    (hline : isEnded line = false) : after = [] := by
  induction h generalizing before with
  | none => simp at hlines
  | unended =>
    cases before with
    | nil => simpa using (List.cons.inj hlines).2.symm
    | cons first before => simp at hlines
  | ended plain isEnd whole tail ih =>
    cases before with
    | nil =>
      rw [← (List.cons.inj hlines).1, isEnded_of_isEnd isEnd] at hline
      cases hline
    | cons first before => exact ih (List.cons.inj hlines).2

end Splitting

section Lists

variable {α : Type}

/-- What is kept, and what has a mark, in order. -/
def sideOf (m : Mark) (cs : List (Change α)) : List α :=
  (cs.filter (fun c => c.mark = .keep ∨ c.mark = m)).map Change.item

variable {m : Mark}

@[simp]
theorem sideOf_append (cs cs' : List (Change α)) :
    sideOf m (cs ++ cs') = sideOf m cs ++ sideOf m cs' := by
  simp [sideOf]

theorem sideOf_cons {c : Change α} (h : c.mark = .keep ∨ c.mark = m) (cs : List (Change α)) :
    sideOf m (c :: cs) = c.item :: sideOf m cs := by
  simp [sideOf, h]

theorem sideOf_marked (k : Mark) (items : List α) :
    sideOf m (marked k items) = Script.side m [⟨k, items⟩] := by
  unfold sideOf marked
  rw [List.filter_map, List.map_map]
  by_cases hk : k = .keep ∨ k = m
  · simp only [Function.comp_def, hk, decide_true, List.filter_true, List.map_id', Script.side,
      if_true, List.append_nil]
  · simp only [Function.comp_def, hk, decide_false, List.filter_false, List.map_nil, Script.side,
      if_false]

/-- Listing what is removed before what is added changes the order on neither side. -/
theorem sideOf_changesAfter (removed added : List α) (s : Script α) :
    sideOf .remove (changesAfter removed added s) = removed ++ Script.source s ∧
      sideOf .add (changesAfter removed added s) = added ++ Script.target s := by
  induction s generalizing removed added with
  | nil => simp [changesAfter, sideOf_marked, Script.source, Script.target, Script.side]
  | cons e rest ih =>
    obtain ⟨k, items⟩ := e
    cases k with
    | keep =>
      obtain ⟨hsource, htarget⟩ := ih [] []
      simp only [changesAfter, sideOf_append, hsource, htarget, sideOf_marked]
      simp [Script.source, Script.target, Script.side]
    | remove =>
      obtain ⟨hsource, htarget⟩ := ih (removed ++ items) added
      simp [changesAfter, hsource, htarget, Script.source, Script.target, Script.side]
    | add =>
      obtain ⟨hsource, htarget⟩ := ih removed (added ++ items)
      simp [changesAfter, hsource, htarget, Script.source, Script.target, Script.side]

variable [BEq α] [LawfulBEq α]

/-- Whatever is taken for the middle, the parts of a script lead from one list to the other. -/
theorem sides_divide (steps : Nat) (old new : List α) :
    (divide steps old new).source = old ∧ (divide steps old new).target = new := by
  have hreplaced : ∀ l l' : List α,
      Script.source (Script.block .remove l ++ Script.block .add l') = l ∧
        Script.target (Script.block .remove l ++ Script.block .add l') = l' := by
    intro l l'
    simp [Script.source, Script.target, Script.side_append, Script.side_block]
  induction steps generalizing old new with
  | zero => exact hreplaced old new
  | succ steps ih =>
    -- The lists are cut into what they have in common in front, what they have in common at the
    -- end, and what is left between.
    have hfront := take_commonStart old new
    simp only [divide]
    generalize commonStart old new = front at hfront ⊢
    have hback := drop_commonEnd (old.drop front) (new.drop front)
    generalize commonEnd (old.drop front) (new.drop front) = back at hback ⊢
    have hold : old = old.take front ++ ((old.drop front).take ((old.drop front).length - back) ++
        (old.drop front).drop ((old.drop front).length - back)) := by
      rw [List.take_append_drop, List.take_append_drop]
    have hnew : new = old.take front ++ ((new.drop front).take ((new.drop front).length - back) ++
        (old.drop front).drop ((old.drop front).length - back)) := by
      rw [hback, hfront, List.take_append_drop, List.take_append_drop]
    generalize (old.drop front).take ((old.drop front).length - back) = oldInner at hold ⊢
    generalize (new.drop front).take ((new.drop front).length - back) = newInner at hnew ⊢
    generalize (old.drop front).drop ((old.drop front).length - back) = tail at hold hnew ⊢
    generalize old.take front = head at hold hnew ⊢
    generalize hinner : (if (oldInner.isEmpty || newInner.isEmpty) = true then _ else _) = inner
    have hsides : inner.source = oldInner ∧ inner.target = newInner := by
      rw [← hinner]
      split
      · exact hreplaced oldInner newInner
      · split
        · rename_i x y _
          obtain ⟨hsource, htarget⟩ := ih (oldInner.take x) (newInner.take y)
          obtain ⟨hsource', htarget'⟩ := ih (oldInner.drop x) (newInner.drop y)
          unfold Script.source Script.target at *
          rw [Script.side_append, Script.side_append, hsource, htarget, hsource', htarget',
            List.take_append_drop, List.take_append_drop]
          exact ⟨rfl, rfl⟩
        · exact hreplaced oldInner newInner
    unfold Script.source Script.target at *
    simp [Script.side_append, Script.side_block, hsides, ← hold, ← hnew]

/-- The changes from one list to another have the one on the side of what is removed, and the other
on the side of what is added. -/
theorem sideOf_changes (old new : List α) :
    sideOf .remove (changes old new) = old ∧ sideOf .add (changes old new) = new := by
  have hsides := sides_divide (old.length + new.length + 1) old new
  have hchanges := sideOf_changesAfter [] []
    (compact (divide (old.length + new.length + 1) old new))
  unfold Script.source Script.target at *
  rw [side_compact, side_compact, hsides.1, hsides.2] at hchanges
  exact hchanges

end Lists

theorem sideOf_of_kept {α : Type} {m : Mark} {cs : List (Change α)}
    (h : ∀ c ∈ cs, c.mark = .keep) : sideOf m cs = cs.map Change.item := by
  have hall : cs.filter (fun c => c.mark = .keep ∨ c.mark = m) = cs := by
    apply List.filter_eq_self.mpr
    intro c hc
    simp [h c hc]
  rw [sideOf, hall]

/-- Changes are an edit script between two texts that loses nothing: what is not added is cut from
the old text, and what is not removed from the new one, line by line. -/
structure Faithful (old new : String) (cs : List (Change (List Char))) : Prop where
  oldText : (sideOf .remove cs).flatten = old.toList
  newText : (sideOf .add cs).flatten = new.toList
  oldLines : Lines old.toList (sideOf .remove cs)
  newLines : Lines new.toList (sideOf .add cs)
  /-- A line without an end, which is given one in print, is the last of the texts that it is in. -/
  unended : ∀ before c after, cs = before ++ c :: after → isEnded c.item = false →
    (c.mark ≠ .add → sideOf .remove after = []) ∧ (c.mark ≠ .remove → sideOf .add after = [])
  /-- Texts that differ have a change with a mark. -/
  marked : old = new ∨ ∃ c ∈ cs, c.mark ≠ .keep

theorem faithful_lineChanges (old new : String) : Faithful old new (lineChanges old new) := by
  obtain ⟨hold, hnew⟩ : sideOf .remove (lineChanges old new) = splitLines old.toList ∧
      sideOf .add (lineChanges old new) = splitLines new.toList := sideOf_changes _ _
  generalize lineChanges old new = cs at hold hnew ⊢
  have holdLines := lines_splitLines old.toList
  have hnewLines := lines_splitLines new.toList
  rw [← hold] at holdLines
  rw [← hnew] at hnewLines
  refine ⟨holdLines.flatten, hnewLines.flatten, holdLines, hnewLines, ?_, ?_⟩
  · intro before c after hcs hend
    have hside : ∀ m, (c.mark = .keep ∨ c.mark = m) →
        sideOf m cs = sideOf m before ++ c.item :: sideOf m after := by
      intro m hm
      rw [hcs, sideOf_append, sideOf_cons hm]
    constructor
    · intro hmark
      have hm : c.mark = .keep ∨ c.mark = .remove := by
        cases hc : c.mark <;> simp_all
      exact holdLines.last_of_not_ended (hside .remove hm) hend
    · intro hmark
      have hm : c.mark = .keep ∨ c.mark = .add := by
        cases hc : c.mark <;> simp_all
      exact hnewLines.last_of_not_ended (hside .add hm) hend
  · by_cases hkept : ∀ c ∈ cs, c.mark = .keep
    · left
      apply String.toList_injective
      rw [← holdLines.flatten, ← hnewLines.flatten]
      exact congrArg List.flatten
        ((sideOf_of_kept hkept).trans (sideOf_of_kept hkept).symm)
    · right
      push Not at hkept
      exact hkept

end CrudLayers.Diff

namespace CrudLayers.CommandLine

open Diff

/-- What is printed for a file that is there. If it holds what it should, its path is all; if not,
the changes follow, each as its sign, its line and, where the line has no end, a line feed. They
are an edit script from what the file holds to what it should hold, and one of them has a sign. -/
theorem check_prints_script (l : Layer) (path current expected : String) :
    Faithful current expected (lineChanges current expected) ∧
    checkText ⟨l, path, some current, expected⟩ =
      if current = expected then "✓ " ++ path ++ "\n"
      else "✗ " ++ path ++ " (differs)\n" ++
        String.ofList ((lineChanges current expected).flatMap fun c =>
          (match c.mark with
            | .keep => ' '
            | .remove => '-'
            | .add => '+') :: c.item ++ if isEnded c.item then [] else ['\n']) ++ "\n" := by
  refine ⟨faithful_lineChanges current expected, ?_⟩
  by_cases hsame : current = expected
  · simp [checkText, FileCheck.isStale, hsame]
  · have hstale : FileCheck.isStale ⟨l, path, some current, expected⟩ = true := by
      simp [FileCheck.isStale, hsame]
    simp only [checkText, hstale, hsame, if_true, if_false]
    rfl

/-- A lone carriage return ends a line, and a last line without an end is given one. -/
example : Diff.text "a\rb\r\nc" "b\r\nc\n" = "-a\r b\r\n-c\n+c\n" := by
  decide +kernel

end CrudLayers.CommandLine
