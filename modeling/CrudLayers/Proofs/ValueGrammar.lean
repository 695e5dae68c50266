import CrudLayers.Proofs.Numerals

namespace CrudLayers.Environment

open Toml (Reader)

/-- The letters that have a meaning of their own behind a backslash. -/
def escapedLetters : List (Char × Char) :=
  [('b', '\x08'), ('f', '\x0c'), ('n', '\n'), ('r', '\r'), ('t', '\t'), ('\"', '\"'), ('\\', '\\')]

/-- How many digits follow the letters that stand before the number of a character. -/
def numberedLetters : List (Char × Nat) :=
  [('u', 4), ('U', 8)]

/-- What may stand behind a backslash, and the character that it stands for. -/
inductive Escape : List Char → Char → Prop where
  | letter {mark c : Char} (h : (mark, c) ∈ escapedLetters) : Escape [mark] c
  | numbered {mark c : Char} {digits : List Char} {n : Nat}
      (hmark : (mark, digits.length) ∈ numberedLetters) (hn : Toml.hexNumber? 0 digits = some n)
      (hc : Toml.character? n = some c) : Escape (mark :: digits) c

/-- A quoted text behind its first quote, up to its last one. -/
inductive Quoted : List Char → List Char → Prop where
  | done : Quoted ['\"'] []
  | plain {c : Char} {s t : List Char} (hc : isQuotable c = true) (hquote : c ≠ '\"')
      (hslash : c ≠ '\\') (h : Quoted s t) : Quoted (c :: s) (c :: t)
  | escaped {mark s t : List Char} {c : Char} (hmark : Escape mark c) (h : Quoted s t) :
      Quoted ('\\' :: (mark ++ s)) (c :: t)

def Blanks (s : List Char) : Prop :=
  ∀ c ∈ s, isAsciiBlank c = true

inductive Padded {α : Type} (P : List Char → α → Prop) : List Char → α → Prop where
  | mk {before s after : List Char} {a : α} (hbefore : Blanks before) (h : P s a)
      (hafter : Blanks after) : Padded P (before ++ s ++ after) a

/-- Items behind an opening mark, with commas between them, up to the closing mark. The last item
may have a comma behind it, and may not be empty. -/
inductive Items {α : Type} (close : Char) (P : List Char → α → Prop) :
    List Char → List α → Prop where
  | done : Items close P [close] []
  | last {s : List Char} {a : α} (hs : s ≠ []) (h : P s a) : Items close P (s ++ [close]) [a]
  | cons {s t : List Char} {a : α} {rest : List α} (h : P s a) (hrest : Items close P t rest) :
      Items close P (s ++ ',' :: t) (a :: rest)

inductive Key : List Char → String → Prop where
  | plain {s : List Char} (hs : s ≠ []) (h : ∀ c ∈ s, isKeyChar c = true) :
      Key s (String.ofList s)
  | quoted {s t : List Char} (h : Quoted s t) : Key ('\"' :: s) (String.ofList t)

inductive Keyed (P : List Char → Setting → Prop) : List Char → String × Setting → Prop where
  | mk {before key after s : List Char} {name : String} {v : Setting} (hbefore : Blanks before)
      (hkey : Key key name) (hafter : Blanks after) (h : P s v) :
      Keyed P (before ++ (key ++ (after ++ '=' :: s))) (name, v)

/-- A text without the marks of lists and tables, that nothing at its start makes a value of
another sort. -/
structure Word (s : List Char) : Prop where
  separators : ∀ c ∈ s, isSeparator c = false
  blank : ∀ c ∈ s.head?, isAsciiBlank c = false
  quote : s.head? ≠ some '\"'
  single : s.head? ≠ some '\''
  yes : ¬ ['t', 'r', 'u', 'e'] <+: s
  no : ¬ ['f', 'a', 'l', 's', 'e'] <+: s

/-- A text and the value that it spells. -/
inductive Spells : List Char → Setting → Prop where
  | yes : Spells ['t', 'r', 'u', 'e'] (.flag true)
  | no : Spells ['f', 'a', 'l', 's', 'e'] (.flag false)
  | quoted {s t : List Char} (h : Quoted s t) : Spells ('\"' :: s) (.text (String.ofList t))
  | single (c : Char) : Spells ['\'', c, '\''] (.text (String.singleton c))
  | list {s : List Char} {items : List Setting} (h : Items ']' (Padded Spells) s items) :
      Spells ('[' :: s) (.list items)
  | table {s : List Char} {entries : List (String × Setting)}
      (h : Items '\x7d' (Keyed (Padded Spells)) s entries) : Spells ('\x7b' :: s) (tableOf entries)
  | word {s : List Char} {v : Setting} (h : Word s) (hv : BareValue (trimBlank s) v) : Spells s v

theorem readNumbered_eq_some {k : Nat} {s rest : List Char} {c : Char} :
    Toml.readNumbered k s = some (c, rest) ↔ ∃ digits n, s = digits ++ rest ∧ digits.length = k ∧
      Toml.hexNumber? 0 digits = some n ∧ Toml.character? n = some c := by
  simp only [Toml.readNumbered, Option.bind_eq_bind, Option.bind_none,
    Option.ite_none_left_eq_some, Option.bind_eq_some_iff, Option.pure_def, Option.some.injEq,
    Prod.mk.injEq, not_lt]
  constructor
  · rintro ⟨hlength, n, hn, _, hc, rfl, rfl⟩
    exact ⟨s.take k, n, (List.take_append_drop k s).symm, List.length_take_of_le hlength, hn, hc⟩
  · rintro ⟨digits, n, rfl, rfl, hn, hc⟩
    simp [hn, hc]

theorem readEscape_eq_some {s rest : List Char} {c : Char} :
    Toml.readEscape s = some (c, rest) ↔ ∃ mark, s = mark ++ rest ∧ Escape mark c := by
  constructor
  · intro h
    unfold Toml.readEscape at h
    split at h
    case h_8 | h_9 =>
      obtain ⟨digits, n, rfl, hlength, hn, hc⟩ := readNumbered_eq_some.mp h
      exact ⟨_ :: digits, rfl, .numbered (by simp [numberedLetters, hlength]) hn hc⟩
    case h_10 => cases h
    all_goals
      cases h
      exact ⟨[_], rfl, .letter (by simp [escapedLetters])⟩
  · rintro ⟨mark, rfl, hmark⟩
    cases hmark with
    | letter h =>
      have hread : ∀ e ∈ escapedLetters, Toml.readEscape (e.1 :: rest) = some (e.2, rest) := by
        simp [escapedLetters, Toml.readEscape]
      exact hread _ h
    | @numbered letter _ digits n hmark hn hc =>
      have hread : ∀ e ∈ numberedLetters, ∀ s,
          Toml.readEscape (e.1 :: s) = Toml.readNumbered e.2 s := by
        simp [numberedLetters, Toml.readEscape]
      exact (hread _ hmark _).trans (readNumbered_eq_some.mpr ⟨digits, n, rfl, rfl, hn, hc⟩)

theorem readQuoted_sound {steps : Nat} {seen s t rest : List Char}
    (h : readQuoted steps seen s = some (t, rest)) :
    ∃ w u, s = w ++ rest ∧ Quoted w u ∧ t = seen.reverse ++ u := by
  induction steps generalizing seen s with
  | zero => cases h
  | succ steps ih =>
    unfold readQuoted at h
    split at h
    · cases h
      exact ⟨['\"'], [], rfl, .done, (List.append_nil _).symm⟩
    · next s =>
      simp only [Option.bind_eq_bind, Option.bind_eq_some_iff] at h
      obtain ⟨⟨c, s'⟩, hescape, h⟩ := h
      obtain ⟨mark, rfl, hmark⟩ := readEscape_eq_some.mp hescape
      obtain ⟨w, u, rfl, hw, rfl⟩ := ih h
      exact ⟨'\\' :: (mark ++ w), c :: u, by simp, .escaped hmark hw, by simp⟩
    · next c s hquote hslash =>
      split at h
      · next hc =>
        obtain ⟨w, u, rfl, hw, rfl⟩ := ih h
        exact ⟨c :: w, c :: u, rfl, .plain hc hquote hslash hw, by simp⟩
      · cases h
    · cases h

theorem Quoted.read {w u : List Char} (h : Quoted w u) {steps : Nat} {seen rest : List Char}
    (hsteps : w.length ≤ steps) :
    readQuoted steps seen (w ++ rest) = some (seen.reverse ++ u, rest) := by
  induction h generalizing steps seen with
  | done =>
    obtain ⟨steps, rfl⟩ := Nat.exists_eq_add_of_lt hsteps
    simp [readQuoted]
  | @plain c _ _ hc hquote hslash h ih =>
    cases steps with
    | zero => simp at hsteps
    | succ steps =>
      simp only [List.length_cons, Nat.add_le_add_iff_right] at hsteps
      rw [List.cons_append, readQuoted, if_pos hc, ih hsteps]
      · simp
      · exact hquote
      · exact hslash
  | @escaped mark s _ c hmark h ih =>
    cases steps with
    | zero => simp at hsteps
    | succ steps =>
      simp only [List.length_cons, List.length_append, Nat.add_le_add_iff_right] at hsteps
      have hread : Toml.readEscape (mark ++ (s ++ rest)) = some (c, s ++ rest) :=
        readEscape_eq_some.mpr ⟨mark, rfl, hmark⟩
      simp [readQuoted, hread, ih (Nat.le_of_add_left_le hsteps)]

theorem Quoted.read_all {w u : List Char} (h : Quoted w u) (rest : List Char) :
    readQuoted ((w ++ rest).length + 1) [] (w ++ rest) = some (u, rest) := by
  apply h.read
  simp only [List.length_append]
  omega

theorem readKey_of_head {s : List Char} (h : s.head? ≠ some '\"') : readKey s =
    if s.takeWhile isKeyChar = [] then none
    else some (String.ofList (s.takeWhile isKeyChar), s.drop (s.takeWhile isKeyChar).length) := by
  unfold readKey
  split
  · exact absurd rfl h
  · rfl

theorem readKey_sound {s rest : List Char} {name : String} (h : readKey s = some (name, rest)) :
    ∃ w, s = w ++ rest ∧ Key w name := by
  by_cases hquote : s.head? = some '\"'
  · obtain ⟨s, rfl⟩ := List.head?_eq_some_iff.mp hquote
    obtain ⟨⟨t, _⟩, hread, heq⟩ := Option.map_eq_some_iff.mp h
    cases heq
    obtain ⟨w, u, rfl, hw, rfl⟩ := readQuoted_sound hread
    exact ⟨'\"' :: w, rfl, .quoted hw⟩
  · obtain ⟨key, behind, rfl, hkey, hbehind⟩ := exists_front isKeyChar s
    rw [readKey_of_head hquote, takeWhile_front hkey hbehind, List.drop_left] at h
    simp only [Option.ite_none_left_eq_some, Option.some.injEq, Prod.mk.injEq] at h
    obtain ⟨hne, rfl, rfl⟩ := h
    exact ⟨key, rfl, .plain hne hkey⟩

theorem Key.read {w rest : List Char} {name : String} (h : Key w name)
    (hrest : ∀ c ∈ rest.head?, isKeyChar c = false) : readKey (w ++ rest) = some (name, rest) := by
  cases h with
  | quoted h =>
    exact congrArg (Option.map _) (h.read_all rest)
  | plain hs h =>
    have hquote : (w ++ rest).head? ≠ some '\"' := by
      obtain ⟨c, s, rfl⟩ := List.exists_cons_of_ne_nil hs
      intro heq
      cases heq
      exact absurd (h '\"' List.mem_cons_self) (by decide)
    rw [readKey_of_head hquote, takeWhile_front h hrest, if_neg hs, List.drop_left]

/-- A blank of ASCII is a blank, and has no meaning in keys, lists and tables. -/
theorem asciiBlank_kinds {c : Char} (h : isAsciiBlank c = true) :
    isBlank c = true ∧ isKeyChar c = false ∧ isSeparator c = false := by
  have hkinds : ∀ d ∈ [' ', '\t', '\n', '\x0c', '\r'],
      isBlank d = true ∧ isKeyChar d = false ∧ isSeparator d = false := by
    simp [isBlank, isKeyChar, isSeparator]
  apply hkinds
  simpa [isAsciiBlank, or_assoc] using h

theorem Blanks.skip {before rest : List Char} (h : Blanks before)
    (hrest : ∀ c ∈ rest.head?, isAsciiBlank c = false) : skipBlanks (before ++ rest) = rest := by
  rw [skipBlanks, List.dropWhile_append_of_pos h]
  cases rest with
  | nil => rfl
  | cons c rest => simp [hrest c rfl]

theorem exists_blanks (s : List Char) : ∃ before, s = before ++ skipBlanks s ∧ Blanks before :=
  ⟨s.takeWhile isAsciiBlank, List.takeWhile_append_dropWhile.symm,
    fun _ hc => List.mem_takeWhile_imp hc⟩

theorem head_skipBlanks (s : List Char) : ∀ c ∈ (skipBlanks s).head?, isAsciiBlank c = false :=
  head_dropWhile s

theorem Blanks.head_ne {s : List Char} {c : Char} (h : Blanks s) (hc : isAsciiBlank c = false) :
    s.head? ≠ some c := by
  intro hhead
  rw [h c (List.mem_of_mem_head? hhead)] at hc
  cases hc

theorem head_append_ne {s t : List Char} {c : Char} (hs : s.head? ≠ some c)
    (ht : t.head? ≠ some c) : (s ++ t).head? ≠ some c := by
  cases s with
  | nil => exact ht
  | cons d s => exact hs

theorem Blanks.append {s t : List Char} (hs : Blanks s) (ht : Blanks t) : Blanks (s ++ t) :=
  List.forall_mem_append.mpr ⟨hs, ht⟩

/-- All that a reader reads is by the grammar. -/
def Sound {α : Type} (read : Reader α) (P : List Char → α → Prop) : Prop :=
  ∀ {s a rest}, read s = some (a, rest) → ∃ w, s = w ++ rest ∧ P w a

/-- Nothing follows, or a character that ends an item. -/
def Stops (rest : List Char) : Prop :=
  ∀ c ∈ rest.head?, c = ',' ∨ c = ']' ∨ c = '\x7d'

def wordEnds : List Char :=
  [' ', '\t', '\n', '\x0c', '\r', ',', ']', '\x7d']

theorem Stops.kinds {rest : List Char} (h : Stops rest) : ∀ c ∈ rest.head?,
    isAsciiBlank c = false ∧ isSeparator c = true ∧ c ∈ wordEnds := by
  intro c hc
  rcases h c hc with rfl | rfl | rfl
  · decide
  · decide
  · decide

/-- Blanks up to the end of an item are skipped. -/
theorem Stops.skip {after rest : List Char} (h : Stops rest) (hafter : Blanks after) :
    skipBlanks (after ++ rest) = rest :=
  hafter.skip (fun c hc => (h.kinds c hc).1)

/-- A reader reads all shorter texts that are by the grammar, where they end. -/
def Complete {α : Type} (read : Reader α) (P : List Char → α → Prop) (size : Nat) : Prop :=
  ∀ {w a rest}, w.length < size → P w a → Stops rest → read (w ++ rest) = some (a, rest)

theorem Complete.mono {α : Type} {read : Reader α} {P : List Char → α → Prop} {size size' : Nat}
    (h : Complete read P size') (hsize : size ≤ size') : Complete read P size :=
  fun hlength => h (hlength.trans_le hsize)

section Items

variable {α : Type} {close : Char} {P : List Char → α → Prop} {reader : Reader α}

/-- What one more step of reading items may find. -/
theorem readItems_succ {steps : Nat} {s rest : List Char} {items : List α} :
    readItems close reader (steps + 1) s = some (items, rest) ↔
      (s = close :: rest ∧ items = []) ∨
      (s.head? ≠ some close ∧ ∃ a mark behind, reader s = some (a, mark :: behind) ∧
        ((mark = close ∧ rest = behind ∧ items = [a]) ∨
        (mark ≠ close ∧ mark = ',' ∧ ∃ others, readItems close reader steps behind =
          some (others, rest) ∧ items = a :: others))) := by
  by_cases hhead : s.head? = some close
  · obtain ⟨s, rfl⟩ := List.head?_eq_some_iff.mp hhead
    simp [readItems, eq_comm, and_comm]
  · have hs : s ≠ close :: rest := by
      rintro rfl
      exact hhead rfl
    rw [readItems, if_neg hhead]
    simp only [hs, hhead, false_and, false_or, ne_eq, not_false_eq_true, true_and]
    cases hitem : reader s with
    | none => simp
    | some r =>
      obtain ⟨a, _ | ⟨mark, behind⟩⟩ := r
      · simp
      · by_cases hclose : mark = close
        · simp [hclose, eq_comm, and_comm]
        · by_cases hcomma : mark = ','
          · subst hcomma
            simp [hclose, Option.bind_eq_some_iff, and_comm, @eq_comm _ _ items]
          · simp [hclose, hcomma]

theorem readItems_sound (hread : Sound reader P) (steps : Nat) :
    Sound (readItems close reader steps) (Items close P) := by
  induction steps with
  | zero => exact fun h => nomatch h
  | succ steps ih =>
    intro s items rest hitems
    rcases readItems_succ.mp hitems with ⟨rfl, rfl⟩ | ⟨hhead, a, mark, behind, ha, hmark⟩
    · exact ⟨[close], rfl, .done⟩
    · obtain ⟨w, rfl, hw⟩ := hread ha
      rcases hmark with ⟨rfl, rfl, rfl⟩ | ⟨_, rfl, others, hothers, rfl⟩
      · exact ⟨w ++ [mark], by simp, .last (by rintro rfl; exact hhead rfl) hw⟩
      · obtain ⟨t, rfl, ht⟩ := ih hothers
        exact ⟨w ++ ',' :: t, by simp, .cons hw ht⟩

theorem Items.length_pos {s : List Char} {items : List α} (h : Items close P s items) :
    0 < s.length := by
  cases h with
  | done => simp
  | last => simp
  | cons => simp

theorem Items.read {s rest : List Char} {items : List α} {steps : Nat}
    (h : Items close P s items) (hclose : close = ']' ∨ close = '\x7d')
    (hhead : ∀ {t a}, P t a → t.head? ≠ some close) (hread : Complete reader P s.length)
    (hsteps : s.length ≤ steps) :
    readItems close reader steps (s ++ rest) = some (items, rest) := by
  obtain ⟨steps, rfl⟩ := Nat.exists_eq_succ_of_ne_zero (h.length_pos.trans_le hsteps).ne'
  induction h generalizing steps with
  | done => exact readItems_succ.mpr (.inl ⟨rfl, rfl⟩)
  | @last s a hs h =>
    have hfirst : (s ++ [close] ++ rest).head? ≠ some close := by
      rw [List.append_assoc, List.head?_append_of_ne_nil _ hs]
      exact hhead h
    have hitem : reader (s ++ [close] ++ rest) = some (a, close :: rest) := by
      rw [List.append_assoc]
      exact hread (by simp) h (by simp [Stops, hclose])
    exact readItems_succ.mpr (.inr ⟨hfirst, a, close, rest, hitem, .inl ⟨rfl, rfl, rfl⟩⟩)
  | @cons s t a others h hrest ih =>
    have hcomma : close ≠ ',' := by
      rcases hclose with rfl | rfl
      · decide
      · decide
    have hfirst : (s ++ ',' :: t ++ rest).head? ≠ some close := by
      cases s with
      | nil => simpa using hcomma.symm
      | cons c s => simpa using hhead h
    have hitem : reader (s ++ ',' :: t ++ rest) = some (a, ',' :: (t ++ rest)) := by
      rw [List.append_assoc]
      exact hread (by simp) h (by simp [Stops])
    simp only [List.length_append, List.length_cons] at hsteps hread
    obtain ⟨steps, rfl⟩ := Nat.exists_eq_succ_of_ne_zero
      (show steps ≠ 0 by have := hrest.length_pos; omega)
    have hothers := ih (fun hlength => hread (by omega)) (by omega) (by omega)
    exact readItems_succ.mpr (.inr ⟨hfirst, a, ',', t ++ rest, hitem,
      .inr ⟨hcomma.symm, rfl, others, hothers, rfl⟩⟩)

theorem Items.read_all {s : List Char} {items : List α} (h : Items close P s items)
    (hclose : close = ']' ∨ close = '\x7d') (hhead : ∀ {t a}, P t a → t.head? ≠ some close)
    (hread : Complete reader P s.length) (rest : List Char) :
    readItems close reader ((s ++ rest).length + 1) (s ++ rest) = some (items, rest) := by
  apply h.read hclose hhead hread
  simp only [List.length_append]
  omega

end Items

theorem readMark_eq_some {mark : Char} {s rest : List Char} :
    Toml.readMark mark s = some rest ↔ s = mark :: rest := by
  cases s with
  | nil => simp [Toml.readMark]
  | cons c s => simp [Toml.readMark]

section Entries

variable {P : List Char → Setting → Prop} {reader : Reader Setting}

theorem readEntry_eq_some {s rest : List Char} {name : String} {v : Setting} :
    readEntry reader s = some ((name, v), rest) ↔ ∃ behind s',
      readKey (skipBlanks s) = some (name, behind) ∧ skipBlanks behind = '=' :: s' ∧
        reader s' = some (v, rest) := by
  simp only [readEntry, Option.bind_eq_bind, Option.bind_eq_some_iff, readMark_eq_some,
    Option.pure_def, Option.some.injEq, Prod.mk.injEq, Prod.exists]
  constructor
  · rintro ⟨_, behind, hkey, s', hmark, _, _, hv, ⟨rfl, rfl⟩, rfl⟩
    exact ⟨behind, s', hkey, hmark, hv⟩
  · rintro ⟨behind, s', hkey, hmark, hv⟩
    exact ⟨name, behind, hkey, s', hmark, v, rest, hv, ⟨rfl, rfl⟩, rfl⟩

theorem readEntry_sound (hread : Sound reader P) : Sound (readEntry reader) (Keyed P) := by
  rintro s ⟨name, v⟩ rest h
  obtain ⟨behind, s', hkey, hmark, hv⟩ := readEntry_eq_some.mp h
  obtain ⟨before, hs, hbefore⟩ := exists_blanks s
  obtain ⟨key, hskip, hkey⟩ := readKey_sound hkey
  obtain ⟨after, hbehind, hafter⟩ := exists_blanks behind
  obtain ⟨w, rfl, hw⟩ := hread hv
  refine ⟨_, ?_, .mk hbefore hkey hafter hw⟩
  rw [hs, hskip, hbehind, hmark]
  simp

/-- The sign behind a key, or a blank before it, is no part of the key. -/
theorem head_sign {after s : List Char} (h : Blanks after) :
    ∀ c ∈ (after ++ '=' :: s).head?, isKeyChar c = false := by
  cases after with
  | nil => simp [isKeyChar]
  | cons c after =>
    simpa using (asciiBlank_kinds (h c List.mem_cons_self)).2.1

theorem Key.head {w : List Char} {name : String} (h : Key w name) :
    ∃ c s, w = c :: s ∧ isAsciiBlank c = false ∧ c ≠ '\x7d' := by
  cases h with
  | quoted h => exact ⟨_, _, rfl, by decide, by decide⟩
  | plain hs h =>
    obtain ⟨c, s, rfl⟩ := List.exists_cons_of_ne_nil hs
    have hc : isKeyChar c = true := h c List.mem_cons_self
    refine ⟨c, s, rfl, ?_, by rintro rfl; cases hc⟩
    by_contra hblank
    rw [(asciiBlank_kinds (Bool.eq_true_of_not_eq_false hblank)).2.1] at hc
    cases hc

theorem Keyed.read {size : Nat} (hread : Complete reader P size) :
    Complete (readEntry reader) (Keyed P) size := by
  rintro _ _ rest hsize (@⟨before, key, after, s, name, v, hbefore, hkey, hafter, hv⟩) hrest
  simp only [List.length_append, List.length_cons] at hsize
  have hskip : skipBlanks (before ++ (key ++ (after ++ '=' :: (s ++ rest)))) =
      key ++ (after ++ '=' :: (s ++ rest)) := by
    apply hbefore.skip
    obtain ⟨c, key, rfl, hc, _⟩ := hkey.head
    simpa using hc
  have hsign : skipBlanks (after ++ '=' :: (s ++ rest)) = '=' :: (s ++ rest) :=
    hafter.skip (by simp [isAsciiBlank])
  simp only [List.append_assoc, List.cons_append]
  refine readEntry_eq_some.mpr ⟨_, _, ?_, hsign, hread (by omega) hv hrest⟩
  rw [hskip]
  exact hkey.read (head_sign hafter)

theorem Keyed.head {w : List Char} {e : String × Setting} (h : Keyed P w e) :
    w.head? ≠ some '\x7d' := by
  obtain ⟨hbefore, hkey, hafter, h⟩ := h
  obtain ⟨c, key, rfl, _, hc⟩ := hkey.head
  exact head_append_ne (hbefore.head_ne rfl) (by simpa using hc)

end Entries

end CrudLayers.Environment
