import CrudLayers.Text.Lines
import Mathlib.Data.List.Basic

namespace CrudLayers

section Lines

variable {margin front s t : List Char}

theorem dropReturn_append {seen : List Char} (h : s.head? ≠ some '\r') :
    dropReturn (seen ++ s) = dropReturn seen ++ s := by
  cases seen with
  | nil =>
    cases s with
    | nil => rfl
    | cons c rest =>
      have hc : c ≠ '\r' := by simpa using h
      simp [dropReturn, hc]
  | cons c rest =>
    by_cases hc : c = '\r'
    · simp [dropReturn, hc]
    · simp [dropReturn, hc]

/-- A line feed ends the lines in front of it, and new ones begin behind it. -/
theorem linesAfter_newline (seen s t : List Char) :
    linesAfter seen (s ++ '\n' :: t) = linesAfter seen (s ++ ['\n']) ++ lines t := by
  induction s generalizing seen with
  | nil => simp [linesAfter, lines]
  | cons c rest ih =>
    by_cases hc : c = '\n'
    · simp [linesAfter, hc, ih]
    · simp [linesAfter, hc, ih]

theorem lines_newline (s t : List Char) :
    lines (s ++ '\n' :: t) = lines (s ++ ['\n']) ++ lines t :=
  linesAfter_newline [] s t

/-- What has no line feed is read as the beginning of a line. -/
theorem linesAfter_pass (h : '\n' ∉ s) (seen t : List Char) :
    linesAfter seen (s ++ t) = linesAfter (s.reverse ++ seen) t := by
  induction s generalizing seen with
  | nil => rfl
  | cons c rest ih =>
    rw [List.mem_cons, not_or] at h
    have hc : c ≠ '\n' := fun he => h.1 he.symm
    simp [linesAfter, hc, ih h.2]

theorem linesAfter_ne_nil {seen : List Char} (h : seen ++ s ≠ []) : linesAfter seen s ≠ [] := by
  induction s generalizing seen with
  | nil => simpa [linesAfter] using h
  | cons c rest ih =>
    rw [linesAfter]
    split
    · exact List.cons_ne_nil _ _
    · exact ih (by simp)

theorem lines_ne_nil (h : s ≠ []) : lines s ≠ [] :=
  linesAfter_ne_nil h

theorem intercalate_append {ps qs : List (List Char)} (sep : List Char) (hp : ps ≠ [])
    (hq : qs ≠ []) :
    sep.intercalate (ps ++ qs) = sep.intercalate ps ++ sep ++ sep.intercalate qs := by
  induction ps with
  | nil => exact absurd rfl hp
  | cons p rest ih =>
    cases rest with
    | nil => simp [List.intercalate_cons_of_ne_nil hq]
    | cons next rest =>
      rw [List.cons_append, List.intercalate_cons_of_ne_nil (by simp), ih (by simp),
        List.intercalate_cons_cons]
      simp

theorem indent_newline (s : List Char) (ht : t ≠ []) :
    indent margin (s ++ '\n' :: t) = indent margin (s ++ ['\n']) ++ '\n' :: indent margin t := by
  have hs : lines (s ++ ['\n']) ≠ [] := lines_ne_nil (by simp)
  rw [indent, lines_newline, List.map_append, intercalate_append _ (by simpa using hs)
    (by simpa using lines_ne_nil ht)]
  simp [indent]

end Lines

/-- The lines of a text. A line feed ends a line, and a carriage return right before it belongs to
the end. -/
inductive LinesOf : List Char → List (List Char) → Prop where
  | nil : LinesOf [] []
  | unended {line : List Char} (whole : '\n' ∉ line) (nonempty : line ≠ []) : LinesOf line [line]
  | feed {line s : List Char} {ls : List (List Char)} (whole : '\n' ∉ line)
    (bare : line.getLast? ≠ some '\r') (tail : LinesOf s ls) :
    LinesOf (line ++ '\n' :: s) (line :: ls)
  | returned {line s : List Char} {ls : List (List Char)} (whole : '\n' ∉ line)
    (tail : LinesOf s ls) : LinesOf (line ++ '\r' :: '\n' :: s) (line :: ls)

section LinesOf

variable {margin line s : List Char} {ls : List (List Char)}

theorem lines_feed (h : '\n' ∉ line) (s : List Char) :
    lines (line ++ '\n' :: s) = (dropReturn line.reverse).reverse :: lines s := by
  rw [lines, linesAfter_pass h]
  simp [linesAfter, lines]

theorem LinesOf.lines_eq (h : LinesOf s ls) : lines s = ls := by
  induction h with
  | nil => rfl
  | @unended line whole nonempty =>
    have hpass := linesAfter_pass whole [] []
    rw [List.append_nil] at hpass
    rw [lines, hpass]
    simp [linesAfter, nonempty]
  | @feed line s ls whole bare tail ih =>
    have hlast : line.reverse.head? ≠ some '\r' := by simpa using bare
    rw [lines_feed whole, ih, ← List.nil_append line.reverse, dropReturn_append hlast]
    simp [dropReturn]
  | @returned line s ls whole tail ih =>
    have hwhole : '\n' ∉ line ++ ['\r'] := by simp [whole]
    have hparts : line ++ '\r' :: '\n' :: s = (line ++ ['\r']) ++ '\n' :: s := by simp
    rw [hparts, lines_feed hwhole, ih]
    simp [dropReturn]

/-- Every text is cut into lines at its line feeds, the first one first. -/
theorem exists_linesOf (s : List Char) : ∃ ls, LinesOf s ls := by
  induction hn : s.length using Nat.strongRecOn generalizing s with
  | ind n ih =>
  by_cases hfeed : '\n' ∈ s
  · obtain ⟨line, rest, rfl, whole⟩ := List.eq_append_cons_of_mem hfeed
    obtain ⟨ls, tail⟩ := ih rest.length (by simp [← hn]; omega) rest rfl
    by_cases hlast : line.getLast? = some '\r'
    · obtain ⟨line, rfl⟩ := List.getLast?_eq_some_iff.mp hlast
      rw [List.mem_append, not_or] at whole
      refine ⟨line :: ls, ?_⟩
      rw [List.append_assoc]
      exact .returned whole.1 tail
    · exact ⟨line :: ls, .feed whole hlast tail⟩
  · by_cases hs : s = []
    · exact ⟨[], hs ▸ .nil⟩
    · exact ⟨[s], .unended hfeed hs⟩

theorem linesOf_iff : LinesOf s ls ↔ lines s = ls := by
  constructor
  · exact LinesOf.lines_eq
  · rintro rfl
    obtain ⟨ls, h⟩ := exists_linesOf s
    rwa [h.lines_eq]

/-- A block is moved line by line: what is blank becomes empty, any other line comes behind the
margin, and no line feed stands at the end. -/
theorem LinesOf.indent_eq (h : LinesOf s ls) (margin : List Char) : indent margin s =
    List.intercalate ['\n'] (ls.map fun line =>
      if line.all isBlank then [] else margin ++ line) := by
  rw [indent, h.lines_eq]
  rfl

end LinesOf

/-- Part of a line that can be seen and that no end of a line takes anything from. -/
structure InLine (s : List Char) : Prop where
  newline : '\n' ∉ s
  visible : s.all isBlank = false
  last : s.getLast? ≠ some '\r'

namespace InLine

variable {margin front s t : List Char}

theorem ne_nil (h : InLine s) : s ≠ [] := by
  rintro rfl
  cases h.visible

/-- A part of a line stays one with something more in front of it. -/
theorem append_left (h : InLine s) (hf : '\n' ∉ front) : InLine (front ++ s) where
  newline := by simp [hf, h.newline]
  visible := by simp [h.visible]
  last := by
    rw [List.getLast?_append_of_ne_nil _ h.ne_nil]
    exact h.last

theorem append (hs : InLine s) (ht : InLine t) : InLine (s ++ t) :=
  ht.append_left hs.newline

/-- The line that a text starts with is the longer by what is written in front of it. -/
theorem linesAfter_append (h : InLine s) (seen t : List Char) :
    linesAfter (seen ++ s.reverse) t =
      (s ++ (linesAfter seen t).headD []) :: (linesAfter seen t).tail := by
  have hlast : s.reverse.head? ≠ some '\r' := by simpa using h.last
  induction t generalizing seen with
  | nil =>
    have hne : seen ++ s.reverse ≠ [] := by simp [h.ne_nil]
    by_cases hseen : seen = []
    · simp [linesAfter, hseen, h.ne_nil]
    · simp [linesAfter, hseen]
  | cons c rest ih =>
    by_cases hc : c = '\n'
    · simp [linesAfter, hc, dropReturn_append hlast]
    · simp only [linesAfter, hc, if_false]
      exact ih (c :: seen)

theorem lines_append (h : InLine s) (t : List Char) :
    lines (s ++ t) = (s ++ (lines t).headD []) :: (lines t).tail := by
  rw [lines, linesAfter_pass h.newline, List.append_nil]
  exact h.linesAfter_append [] t

end InLine

section Indent

variable {margin front s t : List Char}

/-- A text that goes on in a line that has begun: all its lines but the first are moved. -/
def indentOn (margin s : List Char) : List Char :=
  List.intercalate ['\n'] ((lines s).headD [] :: (lines s).tail.map (indentLine margin))

theorem intercalate_append_head (sep p q : List Char) (rest : List (List Char)) :
    sep.intercalate ((p ++ q) :: rest) = p ++ sep.intercalate (q :: rest) := by
  cases rest with
  | nil => simp
  | cons next rest => simp [List.intercalate_cons_cons]

theorem InLine.indentLine_append (h : InLine s) (t : List Char) :
    indentLine margin (s ++ t) = margin ++ s ++ t := by
  rw [indentLine, if_neg (by simp [h.visible]), List.append_assoc]

theorem InLine.indent_append (h : InLine s) (t : List Char) :
    indent margin (s ++ t) = margin ++ s ++ indentOn margin t := by
  rw [indent, h.lines_append, List.map_cons, h.indentLine_append, intercalate_append_head, indentOn]

theorem InLine.indent_line (h : InLine s) : indent margin (s ++ ['\n']) = margin ++ s := by
  rw [h.indent_append]
  simp [indentOn, lines, linesAfter, dropReturn]

/-- What stands behind the last line feed of a text can be told from the text. -/
theorem append_newline_inj {front' s' : List Char} (hs : '\n' ∉ s) (hs' : '\n' ∉ s')
    (h : front ++ '\n' :: s = front' ++ '\n' :: s') : s = s' := by
  have hpieces := congrArg (List.splitOn '\n') h
  rw [List.splitOn_append_cons_self, List.splitOn_append_cons_self,
    List.splitOn_eq_singleton hs, List.splitOn_eq_singleton hs'] at hpieces
  exact (List.cons.inj (List.append_inj' hpieces rfl).2).1

theorem exists_last_newline (h : '\n' ∈ s) : ∃ front last, s = front ++ '\n' :: last ∧
    '\n' ∉ last := by
  obtain ⟨last, front, hsplit, hlast⟩ := List.eq_append_cons_of_mem (List.mem_reverse.mpr h)
  refine ⟨front.reverse, last.reverse, ?_, by simpa using hlast⟩
  rw [← List.reverse_reverse s, hsplit]
  simp

/-- What is shown of a value that is written into a line of a block, once the block is moved. -/
def ShownAs (margin value shown : List Char) : Prop :=
  ∀ before after rest, InLine before → InLine after → rest ≠ [] →
    indent margin (before ++ value ++ after ++ '\n' :: rest) =
      margin ++ before ++ shown ++ after ++ '\n' :: indent margin rest

/-- What is shown of a value is the same between any two parts of a line, and it is the value itself
exactly if that has no line feed. -/
theorem exists_shownAs (value : List Char) (hmargin : margin ≠ []) (hline : '\n' ∉ margin) :
    ∃ shown, ShownAs margin value shown ∧ (shown = value ↔ '\n' ∉ value) := by
  by_cases hvalue : '\n' ∈ value
  · obtain ⟨front, last, rfl, hlast⟩ := exists_last_newline hvalue
    -- What stands in front of the last line feed is moved on its own, and so is what stands behind.
    refine ⟨indentOn margin (front ++ ['\n']) ++ '\n' :: (margin ++ last), ?_, ?_⟩
    · intro before after rest hb ha hr
      have hparts : before ++ (front ++ '\n' :: last) ++ after ++ '\n' :: rest =
          before ++ front ++ '\n' :: (last ++ after ++ '\n' :: rest) := by simp
      rw [hparts, indent_newline _ (by simp), indent_newline _ hr,
        (ha.append_left hlast).indent_line, List.append_assoc before, hb.indent_append]
      simp
    · refine iff_of_false ?_ (not_not.mpr hvalue)
      intro h
      have hsame := append_newline_inj (by simp [hline, hlast]) hlast h
      exact hmargin (List.append_left_eq_self.mp hsame)
  · refine ⟨value, ?_, iff_of_true rfl hvalue⟩
    intro before after rest hb ha hr
    have hall : InLine (before ++ value ++ after) :=
      ha.append_left (by simp [hb.newline, hvalue])
    rw [indent_newline _ hr, hall.indent_line]
    simp

end Indent

end CrudLayers
