import CrudLayers.Text.Json
import Mathlib.Data.List.TakeWhile

namespace CrudLayers.Json

def isBlank (c : Char) : Bool :=
  c == ' ' || c == '\n' || c == '\r' || c == '\t'

def skip (s : List Char) : List Char :=
  s.dropWhile isBlank

def hexValue? (c : Char) : Option Nat :=
  if '0' ≤ c ∧ c ≤ '9' then some (c.toNat - 48)
  else if 'a' ≤ c ∧ c ≤ 'f' then some (c.toNat - 87)
  else if 'A' ≤ c ∧ c ≤ 'F' then some (c.toNat - 55)
  else none

/-- The character with a number of four hexadecimal digits; half of a pair is none. -/
def ofHex? (a b c d : Char) : Option Char := do
  let n := 4096 * (← hexValue? a) + 256 * (← hexValue? b) + 16 * (← hexValue? c) + (← hexValue? d)
  if 0xd800 ≤ n ∧ n ≤ 0xdfff then none else some (Char.ofNat n)

def unescape? (c : Char) : Option Char :=
  if c = '\"' ∨ c = '\\' ∨ c = '/' then some c
  else if c = 'n' then some '\n'
  else if c = 'r' then some '\r'
  else if c = 't' then some '\t'
  else if c = 'b' then some '\x08'
  else if c = 'f' then some '\x0c'
  else none

def readChars : List Char → Option (List Char × List Char)
  | '\"' :: rest => some ([], rest)
  | '\\' :: 'u' :: a :: b :: c :: d :: rest => do
    let first ← ofHex? a b c d
    let (chars, after) ← readChars rest
    return (first :: chars, after)
  | '\\' :: c :: rest => do
    let first ← unescape? c
    let (chars, after) ← readChars rest
    return (first :: chars, after)
  | c :: rest =>
    if c.toNat < 0x20 then none
    else do
      let (chars, after) ← readChars rest
      return (c :: chars, after)
  | [] => none

mutual

def readValue : Nat → List Char → Option (Json × List Char)
  | 0, _ => none
  | fuel + 1, s =>
    match skip s with
    | '\"' :: rest => do
      let (chars, after) ← readChars rest
      return (.string (String.ofList chars), after)
    | 't' :: 'r' :: 'u' :: 'e' :: rest => some (.flag true, rest)
    | 'f' :: 'a' :: 'l' :: 's' :: 'e' :: rest => some (.flag false, rest)
    | '[' :: rest =>
      match skip rest with
      | ']' :: after => some (.array [], after)
      | _ => do
        let (items, after) ← readItems fuel rest
        return (.array items, after)
    | '\x7b' :: rest =>
      match skip rest with
      | '\x7d' :: after => some (.object [], after)
      | _ => do
        let (members, after) ← readMembers fuel rest
        return (.object members, after)
    | c :: rest =>
      if c.isDigit then
        some (.number (Nat.ofDigitChars 10 ((c :: rest).takeWhile Char.isDigit) 0),
          (c :: rest).dropWhile Char.isDigit)
      else none
    | [] => none

def readItems : Nat → List Char → Option (List Json × List Char)
  | 0, _ => none
  | fuel + 1, s => do
    let (item, after) ← readValue fuel s
    match skip after with
    | ',' :: rest => do
      let (items, last) ← readItems fuel rest
      return (item :: items, last)
    | ']' :: rest => return ([item], rest)
    | _ => none

def readMembers : Nat → List Char → Option (List (String × Json) × List Char)
  | 0, _ => none
  | fuel + 1, s =>
    match skip s with
    | '\"' :: rest => do
      let (key, after) ← readChars rest
      match skip after with
      | ':' :: rest => do
        let (v, after) ← readValue fuel rest
        match skip after with
        | ',' :: rest => do
          let (members, last) ← readMembers fuel rest
          return ((String.ofList key, v) :: members, last)
        | '\x7d' :: rest => return ([(String.ofList key, v)], rest)
        | _ => none
      | _ => none
    | _ => none

end

/-- The value of a text that holds nothing else. -/
def read? (text : String) : Option Json := do
  let (v, rest) ← readValue (text.length + 1) text.toList
  if skip rest = [] then some v else none

section Strings

theorem hexValue?_hexDigit : ∀ n < 16, hexValue? (hexDigit n) = some n := by
  decide

/-- A character that is escaped by its number is read back. -/
theorem ofHex?_hexDigits {c : Char} (h : c.toNat < 0x20) :
    ofHex? '0' '0' (hexDigit (c.toNat / 16)) (hexDigit (c.toNat % 16)) = some c := by
  have hzero : hexValue? '0' = some 0 := by decide
  have hnumber : 4096 * 0 + 256 * 0 + 16 * (c.toNat / 16) + c.toNat % 16 = c.toNat := by omega
  rw [ofHex?, hzero, hexValue?_hexDigit _ (by omega), hexValue?_hexDigit _ (by omega)]
  simp only [Option.bind_eq_bind, Option.bind_some, hnumber]
  rw [if_neg (by omega), Char.ofNat_toNat]

theorem readChars_plain {c : Char} (hquote : c ≠ '\"') (hslash : c ≠ '\\')
    (hcontrol : ¬c.toNat < 0x20) (rest : List Char) : readChars (c :: rest) =
      (readChars rest).map (fun read => (c :: read.1, read.2)) := by
  rw [readChars, if_neg hcontrol]
  · cases readChars rest <;> rfl
  · exact hquote
  · exact fun _ _ _ _ _ h _ => hslash h
  · exact fun _ _ h _ => hslash h

theorem readChars_backslash {c first : Char} (hnumber : c ≠ 'u') (h : unescape? c = some first)
    (rest : List Char) : readChars ('\\' :: c :: rest) =
      (readChars rest).map (fun read => (first :: read.1, read.2)) := by
  rw [readChars, h]
  · cases readChars rest <;> rfl
  · exact fun _ _ _ _ _ h _ => hnumber h

theorem readChars_number {c : Char} (h : c.toNat < 0x20) (rest : List Char) :
    readChars ('\\' :: 'u' :: '0' :: '0' :: hexDigit (c.toNat / 16) :: hexDigit (c.toNat % 16) ::
      rest) = (readChars rest).map (fun read => (c :: read.1, read.2)) := by
  rw [readChars, ofHex?_hexDigits h]
  cases readChars rest <;> rfl

/-- However a character is written inside a string, it is read as itself. -/
theorem readChars_escape (c : Char) (rest : List Char) : readChars (escape c ++ rest) =
    (readChars rest).map (fun read => (c :: read.1, read.2)) := by
  unfold escape
  -- The seven characters that have a letter of their own come first.
  iterate 7
    split
    · subst_vars
      exact readChars_backslash (by decide) (by decide) rest
  split
  · rename_i hcontrol
    exact readChars_number hcontrol rest
  · rename_i hquote hslash _ _ _ _ _ hcontrol
    exact readChars_plain hquote hslash hcontrol rest

theorem readChars_quoted (cs rest : List Char) :
    readChars (cs.flatMap escape ++ '\"' :: rest) = some (cs, rest) := by
  induction cs with
  | nil => rfl
  | cons c cs ih =>
    rw [List.flatMap_cons, List.append_assoc, readChars_escape, ih]
    rfl

theorem toList_quote (s : String) :
    (quote s).toList = '\"' :: (s.toList.flatMap escape ++ ['\"']) := by
  simp [quote]

end Strings

section Values

theorem skip_newLine (depth : Nat) (s : List Char) :
    skip ((newLine depth).toList ++ s) = skip s := by
  have hblank : ∀ c ∈ (newLine depth).toList, isBlank c = true := by
    intro c hc
    simp only [newLine, String.toList_ofList, List.mem_cons, List.mem_replicate] at hc
    rcases hc with rfl | ⟨_, rfl⟩
    · decide
    · decide
  rw [skip, skip, List.dropWhile_append_of_pos hblank]

theorem skip_cons {c : Char} (h : isBlank c = false) (s : List Char) : skip (c :: s) = c :: s := by
  rw [skip, List.dropWhile_cons_of_neg (by simp [h])]

/-- Blanks in front of a value do not matter. -/
theorem readValue_congr {s t : List Char} (h : skip s = skip t) (fuel : Nat) :
    readValue fuel s = readValue fuel t := by
  cases fuel with
  | zero => rfl
  | succ fuel => simp only [readValue, h]

theorem readItems_congr {s t : List Char} (h : skip s = skip t) (fuel : Nat) :
    readItems fuel s = readItems fuel t := by
  cases fuel with
  | zero => rfl
  | succ fuel => rw [readItems, readItems, readValue_congr h]

theorem readMembers_congr {s t : List Char} (h : skip s = skip t) (fuel : Nat) :
    readMembers fuel s = readMembers fuel t := by
  cases fuel with
  | zero => rfl
  | succ fuel => simp only [readMembers, h]

/-- The text does not go on with a digit, so that a number in front of it ends there. -/
def NoDigit (s : List Char) : Prop :=
  ∀ c ∈ s.head?, c.isDigit = false

theorem noDigit_newLine (depth : Nat) (s : List Char) : NoDigit ((newLine depth).toList ++ s) := by
  simp [NoDigit, newLine]

theorem noDigit_cons {c : Char} (h : c.isDigit = false) (s : List Char) : NoDigit (c :: s) := by
  simp [NoDigit, h]

theorem exists_toDigits_cons (n : Nat) :
    ∃ c ds, Nat.toDigits 10 n = c :: ds ∧ c.isDigit = true := by
  cases hds : Nat.toDigits 10 n with
  | nil => exact absurd hds (by simp)
  | cons c ds =>
    have hmem : c ∈ Nat.toDigits 10 n := by rw [hds]; exact List.mem_cons_self
    exact ⟨c, ds, rfl, Nat.isDigit_of_mem_toDigits (by decide) (by decide) hmem⟩

theorem not_blank_of_isDigit {c : Char} (h : c.isDigit = true) : isBlank c = false := by
  rw [isBlank]
  by_contra hblank
  simp only [Bool.or_eq_false_iff, beq_eq_false_iff_ne, not_and_or, not_not] at hblank
  rcases hblank with ((rfl | rfl) | rfl) | rfl <;> exact absurd h (by decide)

theorem readValue_digit {c : Char} (hc : c.isDigit = true) (fuel : Nat) (rest : List Char) :
    readValue (fuel + 1) (c :: rest) =
      some (.number (Nat.ofDigitChars 10 ((c :: rest).takeWhile Char.isDigit) 0),
        (c :: rest).dropWhile Char.isDigit) := by
  rw [readValue, skip_cons (not_blank_of_isDigit hc)]
  split
  case h_6 heq =>
    cases heq
    rw [if_pos hc]
  all_goals
    rename_i heq
    cases heq
  all_goals exact absurd hc (by decide)

theorem readValue_number (n fuel : Nat) {rest : List Char} (hrest : NoDigit rest) :
    readValue (fuel + 1) (Nat.toDigits 10 n ++ rest) = some (.number n, rest) := by
  obtain ⟨c, ds, hds, hc⟩ := exists_toDigits_cons n
  have hdigits : ∀ c ∈ Nat.toDigits 10 n, c.isDigit = true :=
    fun c hc => Nat.isDigit_of_mem_toDigits (by decide) (by decide) hc
  have hread := readValue_digit hc fuel (ds ++ rest)
  have hstop : rest.takeWhile Char.isDigit = [] ∧ rest.dropWhile Char.isDigit = rest := by
    cases rest with
    | nil => exact ⟨rfl, rfl⟩
    | cons d tail =>
      have hd := hrest d rfl
      exact ⟨List.takeWhile_cons_of_neg (by simp [hd]), List.dropWhile_cons_of_neg (by simp [hd])⟩
  rw [← List.cons_append, ← hds, List.takeWhile_append_of_pos hdigits,
    List.dropWhile_append_of_pos hdigits, hstop.1, hstop.2, List.append_nil] at hread
  rw [hread, Nat.ofDigitChars_toDigits (by decide) (by decide)]

/-- How the text of a value starts. -/
theorem exists_print_cons (v : Json) (depth : Nat) : ∃ c rest,
    (print depth v).toList = c :: rest ∧ isBlank c = false ∧ c ≠ ']' := by
  cases v with
  | string s => exact ⟨'\"', _, by rw [print, toList_quote], by decide, by decide⟩
  | number n =>
    obtain ⟨c, ds, hds, hc⟩ := exists_toDigits_cons n
    refine ⟨c, ds, by rw [print, Nat.toString_eq_ofList_toDigits, String.toList_ofList, hds],
      not_blank_of_isDigit hc, ?_⟩
    rintro rfl
    exact absurd hc (by decide)
  | flag b => cases b <;> simp [print, isBlank]
  | array items =>
    cases items with
    | nil => simp [print, isBlank]
    | cons item rest => simp [print, isBlank]
  | object members =>
    cases members with
    | nil => simp [print, isBlank]
    | cons member rest => simp [print, isBlank]

/-- With so much fuel, what has been printed is read back. -/
structure Reads (fuel : Nat) : Prop where
  value : ∀ v depth rest, (print depth v).length < fuel → NoDigit rest →
    readValue fuel ((print depth v).toList ++ rest) = some (v, rest)
  items : ∀ item more depth outer rest,
    (print depth item).length + (printItems depth more).length + 1 < fuel →
    readItems fuel ((print depth item).toList ++ ((printItems depth more).toList ++
      ((newLine outer).toList ++ ']' :: rest))) = some (item :: more, rest)
  members : ∀ key v more depth outer rest,
    (print depth v).length + (printMembers depth more).length + 1 < fuel →
    readMembers fuel ((quote key).toList ++ (':' :: ' ' :: ((print depth v).toList ++
      ((printMembers depth more).toList ++ ((newLine outer).toList ++ '\x7d' :: rest))))) =
      some ((key, v) :: more, rest)

theorem Reads.items_succ {fuel : Nat} (h : Reads fuel) (item : Json) (more : List Json)
    (depth outer : Nat) (rest : List Char)
    (hfuel : (print depth item).length + (printItems depth more).length + 1 < fuel + 1) :
    readItems (fuel + 1) ((print depth item).toList ++ ((printItems depth more).toList ++
      ((newLine outer).toList ++ ']' :: rest))) = some (item :: more, rest) := by
  have hclose : skip ((newLine outer).toList ++ ']' :: rest) = ']' :: rest := by
    rw [skip_newLine, skip_cons (by decide)]
  cases more with
  | nil =>
    have hitem := h.value item depth ((newLine outer).toList ++ ']' :: rest) (by omega)
      (noDigit_newLine _ _)
    rw [printItems, readItems]
    simp only [String.toList_empty, List.nil_append, hitem, Option.bind_eq_bind, Option.bind_some,
      hclose]
    rfl
  | cons next more =>
    rw [printItems] at hfuel ⊢
    simp only [String.toList_append, String.length_append, List.append_assoc] at hfuel ⊢
    have hcomma : ",".toList = [','] := rfl
    have hlength : ",".length = 1 := rfl
    have hitem := h.value item depth (',' :: ((newLine depth).toList ++
      ((print depth next).toList ++ ((printItems depth more).toList ++
        ((newLine outer).toList ++ ']' :: rest))))) (by omega) (noDigit_cons (by decide) _)
    have hmore := h.items next more depth outer rest (by omega)
    rw [hcomma, readItems]
    simp only [List.singleton_append, hitem, Option.bind_eq_bind, Option.bind_some,
      skip_cons (show isBlank ',' = false by decide), readItems_congr (skip_newLine _ _), hmore]
    rfl

theorem Reads.members_succ {fuel : Nat} (h : Reads fuel) (key : String) (v : Json)
    (more : List (String × Json)) (depth outer : Nat) (rest : List Char)
    (hfuel : (print depth v).length + (printMembers depth more).length + 1 < fuel + 1) :
    readMembers (fuel + 1) ((quote key).toList ++ (':' :: ' ' :: ((print depth v).toList ++
      ((printMembers depth more).toList ++ ((newLine outer).toList ++ '\x7d' :: rest))))) =
      some ((key, v) :: more, rest) := by
  have hclose : skip ((newLine outer).toList ++ '\x7d' :: rest) = '\x7d' :: rest := by
    rw [skip_newLine, skip_cons (by decide)]
  have hspace : ∀ s, readValue fuel (' ' :: s) = readValue fuel s :=
    fun s => readValue_congr (List.dropWhile_cons_of_pos (by decide)) fuel
  rw [toList_quote, readMembers]
  simp only [List.cons_append, List.append_assoc, List.nil_append,
    skip_cons (show isBlank '\"' = false by decide), readChars_quoted, Option.bind_eq_bind,
    Option.bind_some, skip_cons (show isBlank ':' = false by decide), hspace, String.ofList_toList]
  cases more with
  | nil =>
    have hv := h.value v depth ((newLine outer).toList ++ '\x7d' :: rest) (by omega)
      (noDigit_newLine _ _)
    rw [printMembers]
    simp only [String.toList_empty, List.nil_append, hv, Option.bind_some, hclose]
    rfl
  | cons next more =>
    obtain ⟨key', v'⟩ := next
    rw [printMembers] at hfuel ⊢
    simp only [String.toList_append, String.length_append, List.append_assoc] at hfuel ⊢
    have hcomma : ",".toList = [','] := rfl
    have hcolon : ": ".toList = [':', ' '] := rfl
    have hlength : ",".length = 1 := rfl
    have hmore := h.members key' v' more depth outer rest (by omega)
    rw [hcomma, hcolon]
    simp only [List.cons_append, List.nil_append]
    rw [h.value v depth _ (by omega) (noDigit_cons (by decide) _)]
    simp only [Option.bind_some, skip_cons (show isBlank ',' = false by decide),
      readMembers_congr (skip_newLine _ _), hmore]
    rfl

theorem readValue_array {s tail : List Char} {c : Char} (h : skip s = c :: tail) (hc : c ≠ ']')
    (fuel : Nat) : readValue (fuel + 1) ('[' :: s) =
      (readItems fuel s).map (fun read => (.array read.1, read.2)) := by
  rw [readValue, skip_cons (by decide)]
  simp only [h]
  split
  · rename_i heq
    cases heq
    exact absurd rfl hc
  · cases readItems fuel s <;> rfl

theorem readValue_object {s tail : List Char} {c : Char} (h : skip s = c :: tail) (hc : c ≠ '\x7d')
    (fuel : Nat) : readValue (fuel + 1) ('\x7b' :: s) =
      (readMembers fuel s).map (fun read => (.object read.1, read.2)) := by
  rw [readValue, skip_cons (by decide)]
  simp only [h]
  split
  · rename_i heq
    cases heq
    exact absurd rfl hc
  · cases readMembers fuel s <;> rfl

theorem Reads.value_succ {fuel : Nat} (h : Reads fuel) (v : Json) (depth : Nat) (rest : List Char)
    (hfuel : (print depth v).length < fuel + 1) (hrest : NoDigit rest) :
    readValue (fuel + 1) ((print depth v).toList ++ rest) = some (v, rest) := by
  cases v with
  | string s =>
    rw [print, toList_quote, readValue, List.cons_append, skip_cons (by decide)]
    simp only [List.append_assoc, List.singleton_append, readChars_quoted, Option.bind_eq_bind,
      Option.bind_some, String.ofList_toList]
    rfl
  | number n =>
    rw [print, Nat.toString_eq_ofList_toDigits, String.toList_ofList]
    exact readValue_number n fuel hrest
  | flag b => cases b <;> simp [print, readValue, skip, isBlank]
  | array items =>
    cases items with
    | nil => simp [print, readValue, skip, isBlank]
    | cons item more =>
      obtain ⟨c, tail, hstart, hblank, hc⟩ := exists_print_cons item (depth + 1)
      have hopen : "[".toList = ['['] := rfl
      have hclose : "]".toList = [']'] := rfl
      have hlength : "[".length = 1 ∧ "]".length = 1 := ⟨rfl, rfl⟩
      rw [print] at hfuel ⊢
      simp only [String.toList_append, String.length_append, List.append_assoc, hopen, hclose,
        List.cons_append, List.nil_append] at hfuel ⊢
      have hskip : ∀ s, skip ((newLine (depth + 1)).toList ++
          ((print (depth + 1) item).toList ++ s)) = c :: (tail ++ s) := by
        intro s
        rw [skip_newLine, hstart, List.cons_append, skip_cons hblank]
      have hitems := h.items item more (depth + 1) depth rest (by omega)
      rw [readValue_array (hskip _) hc, readItems_congr (skip_newLine _ _), hitems]
      rfl
  | object members =>
    cases members with
    | nil => simp [print, readValue, skip, isBlank]
    | cons member more =>
      obtain ⟨key, v⟩ := member
      have hopen : "\x7b".toList = ['\x7b'] := rfl
      have hclose : "\x7d".toList = ['\x7d'] := rfl
      have hcolon : ": ".toList = [':', ' '] := rfl
      have hlength : "\x7b".length = 1 ∧ "\x7d".length = 1 := ⟨rfl, rfl⟩
      rw [print] at hfuel ⊢
      simp only [String.toList_append, String.length_append, List.append_assoc, hopen, hclose,
        hcolon, List.cons_append, List.nil_append] at hfuel ⊢
      have hskip : ∀ s, skip ((newLine (depth + 1)).toList ++ ((quote key).toList ++ s)) =
          '\"' :: (key.toList.flatMap escape ++ ['\"'] ++ s) := by
        intro s
        rw [skip_newLine, toList_quote, List.cons_append, skip_cons (by decide)]
      have hmembers := h.members key v more (depth + 1) depth rest (by omega)
      rw [readValue_object (hskip _) (by decide), readMembers_congr (skip_newLine _ _), hmembers]
      rfl

theorem reads (fuel : Nat) : Reads fuel := by
  induction fuel with
  | zero => exact ⟨fun _ _ _ h => absurd h (Nat.not_lt_zero _),
      fun _ _ _ _ _ h => absurd h (Nat.not_lt_zero _),
      fun _ _ _ _ _ _ h => absurd h (Nat.not_lt_zero _)⟩
  | succ fuel ih => exact ⟨ih.value_succ, ih.items_succ, ih.members_succ⟩

end Values

end CrudLayers.Json
