import CrudLayers.Config.Environment
import Mathlib

namespace CrudLayers.Environment

/-- Characters of one sort in front of one of another, or of nothing, are what is taken while they
last. -/
theorem takeWhile_front {p : Char → Bool} {front back : List Char}
    (hfront : ∀ c ∈ front, p c = true) (hback : ∀ c ∈ back.head?, p c = false) : (front ++ back).takeWhile p = front := by
  rw [List.takeWhile_append_of_pos hfront]
  cases back with
  | nil => simp
  | cons c back => simp [hback c rfl]

theorem head_dropWhile {p : Char → Bool} (s : List Char) :
    ∀ c ∈ (s.dropWhile p).head?, p c = false := by
  intro c hc
  have h := List.head?_dropWhile_not p s
  rw [hc] at h
  simpa using h

theorem exists_front (p : Char → Bool) (s : List Char) : ∃ front back, s = front ++ back ∧
    (∀ c ∈ front, p c = true) ∧ ∀ c ∈ back.head?, p c = false :=
  ⟨s.takeWhile p, s.dropWhile p, List.takeWhile_append_dropWhile.symm,
    fun _ hc => List.mem_takeWhile_imp hc, head_dropWhile s⟩

structure Digits (s : List Char) : Prop where
  nonempty : s ≠ []
  digits : ∀ c ∈ s, c.isDigit = true

/-- A sign, which may be missing, and whether it is a minus. -/
inductive Sign : List Char → Bool → Prop where
  | missing : Sign [] false
  | plus : Sign ['+'] false
  | minus : Sign ['-'] true

def signedNumber (negative : Bool) (digits : List Char) : Int :=
  if negative then -Toml.decimalNumber digits else Toml.decimalNumber digits

/-- An exponent, which may be missing, and its value. -/
inductive Exponent : List Char → Int → Prop where
  | missing : Exponent [] 0
  | written {mark : Char} {sign digits : List Char} {negative : Bool}
      (hmark : mark = 'e' ∨ mark = 'E') (hsign : Sign sign negative) (hdigits : Digits digits) :
      Exponent (mark :: (sign ++ digits)) (signedNumber negative digits)

/-- A number and its value. One without a minus is below `2 ^ 64`, one with a minus is no less than
`-2 ^ 63`; one with a point may have no digits on one side of it. -/
inductive Numeral : List Char → Setting → Prop where
  | whole {sign digits : List Char} (hsign : Sign sign false) (hdigits : Digits digits)
      (hrange : Toml.decimalNumber digits < 2 * Toml.halfRange) :
      Numeral (sign ++ digits) (.unsigned (Toml.decimalNumber digits))
  | negative {digits : List Char} (hdigits : Digits digits)
      (hrange : Toml.decimalNumber digits ≤ Toml.halfRange) :
      Numeral ('-' :: digits) (.signed (-Toml.decimalNumber digits))
  | decimal {sign before after exponent : List Char} {negative : Bool} {e : Int}
      (hsign : Sign sign negative) (hdigits : Digits (before ++ after))
      (hexponent : Exponent exponent e) :
      Numeral (sign ++ (before ++ '.' :: after ++ exponent)) (.float (.number negative
        (.ofDecimal ⟨Toml.decimalNumber (before ++ after), e - after.length⟩)))

/-- What a text without quotes and brackets stands for: the number that it is, or else itself. -/
inductive BareValue (s : List Char) : Setting → Prop where
  | number {v : Setting} (h : Numeral s v) : BareValue s v
  | text (h : ∀ v, ¬ Numeral s v) : BareValue s (.text (String.ofList s))

theorem digits?_eq_some {s : List Char} {n : Nat} :
    digits? s = some n ↔ Digits s ∧ Toml.decimalNumber s = n := by
  rw [digits?]
  split
  · next h =>
    rw [Option.some.injEq, iff_and_self]
    exact fun _ => ⟨h.1, List.all_eq_true.mp h.2⟩
  · next h =>
    simp only [reduceCtorEq, false_iff, not_and]
    exact fun hdigits => absurd ⟨hdigits.nonempty, List.all_eq_true.mpr hdigits.digits⟩ h

theorem Digits.digits? {s : List Char} (h : Digits s) :
    Environment.digits? s = some (Toml.decimalNumber s) :=
  digits?_eq_some.mpr ⟨h, rfl⟩

/-- No digit is a character of another sort. -/
theorem Digits.not_mem {s : List Char} {c : Char} (h : Digits s) (hc : c.isDigit = false) :
    c ∉ s := by
  intro hmem
  rw [h.digits c hmem] at hc
  cases hc

theorem Digits.head_ne {s : List Char} {c : Char} (h : Digits s) (hc : c.isDigit = false) :
    s.head? ≠ some c :=
  fun hhead => h.not_mem hc (List.mem_of_mem_head? hhead)

theorem exists_sign (s : List Char) : ∃ sign rest negative, s = sign ++ rest ∧
    Sign sign negative ∧ Toml.readSign s = (negative, rest) := by
  unfold Toml.readSign
  split
  · exact ⟨['+'], _, false, rfl, .plus, rfl⟩
  · exact ⟨['-'], _, true, rfl, .minus, rfl⟩
  · exact ⟨[], s, false, rfl, .missing, rfl⟩

/-- A sign is read where no second one follows. -/
theorem Sign.readSign {sign s : List Char} {negative : Bool} (h : Sign sign negative)
    (hplus : s.head? ≠ some '+') (hminus : s.head? ≠ some '-') :
    Toml.readSign (sign ++ s) = (negative, s) := by
  cases h with
  | plus => rfl
  | minus => rfl
  | missing =>
    rw [List.nil_append]
    unfold Toml.readSign
    split
    · exact absurd rfl hplus
    · exact absurd rfl hminus
    · rfl

theorem Sign.not_mem {sign : List Char} {negative : Bool} {c : Char} (h : Sign sign negative)
    (hc : c ∉ ['+', '-']) : c ∉ sign := by
  rw [List.mem_pair, not_or] at hc
  cases h with
  | plus => simpa using hc.1
  | minus => simpa using hc.2
  | missing => exact List.not_mem_nil

/-- A character that does not start an exponent. -/
abbrev isMantissa (c : Char) : Bool :=
  c != 'e' && c != 'E'

theorem isMantissa_eq_false {c : Char} : isMantissa c = false ↔ c = 'e' ∨ c = 'E' := by
  simp only [isMantissa, Bool.and_eq_false_iff, bne_eq_false_iff_eq]

theorem splitExponent_append {mantissa exponent : List Char}
    (hmantissa : ∀ c ∈ mantissa, isMantissa c = true)
    (hexponent : ∀ c ∈ exponent.head?, isMantissa c = false) :
    splitExponent (mantissa ++ exponent) = (mantissa, exponent.tail?) := by
  simp only [splitExponent, takeWhile_front hmantissa hexponent, List.drop_left]
  cases exponent with
  | nil => rfl
  | cons c rest => rfl

theorem exponent?_tail? {s : List Char} {e : Int} (h : ∀ c ∈ s.head?, isMantissa c = false) :
    exponent? s.tail? = some e ↔ Exponent s e := by
  cases s with
  | nil =>
    refine ⟨fun he => ?_, fun he => ?_⟩
    · obtain rfl : 0 = e := Option.some.inj he
      exact .missing
    · cases he
      rfl
  | cons mark s =>
    have hmark : mark = 'e' ∨ mark = 'E' := isMantissa_eq_false.mp (h mark rfl)
    refine ⟨fun he => ?_, fun he => ?_⟩
    · obtain ⟨sign, rest, negative, rfl, hsign, hread⟩ := exists_sign s
      simp only [List.tail?_cons, exponent?, hread, Option.bind_eq_bind, Option.bind_eq_some_iff,
        Option.pure_def, Option.some.injEq] at he
      obtain ⟨_, ⟨n, hn, rfl⟩, rfl⟩ := he
      obtain ⟨hdigits, rfl⟩ := digits?_eq_some.mp hn
      exact .written hmark hsign hdigits
    · cases he with
      | written _ hsign hdigits =>
        simp [exponent?, hsign.readSign (hdigits.head_ne rfl) (hdigits.head_ne rfl),
          hdigits.digits?, signedNumber]

theorem Exponent.head {s : List Char} {e : Int} (h : Exponent s e) :
    ∀ c ∈ s.head?, isMantissa c = false := by
  cases h with
  | missing => simp
  | written hmark =>
    simpa only [List.head?_cons, Option.mem_some_iff, forall_eq', isMantissa_eq_false] using hmark

theorem Exponent.not_mem {s : List Char} {e : Int} {c : Char} (h : Exponent s e)
    (hdigit : c.isDigit = false) (hsign : c ∉ ['+', '-']) (hmark : c ∉ ['e', 'E']) : c ∉ s := by
  cases h with
  | missing => exact List.not_mem_nil
  | written hmark' hsign' hdigits =>
    rw [List.mem_cons, List.mem_append, not_or, not_or]
    refine ⟨?_, hsign'.not_mem hsign, hdigits.not_mem hdigit⟩
    rintro rfl
    simp [hmark'] at hmark

/-- Digits are read where the number that they write is in range. -/
theorem ranged_eq_some {P : Nat → Prop} [DecidablePred P] {f : Nat → Setting} {s : List Char}
    {v : Setting} : (do let n ← digits? s; if P n then some (f n) else none) = some v ↔
      Digits s ∧ P (Toml.decimalNumber s) ∧ f (Toml.decimalNumber s) = v := by
  simp only [Option.bind_eq_bind, Option.bind_eq_some_iff, digits?_eq_some,
    Option.ite_none_right_eq_some, Option.some.injEq]
  constructor
  · rintro ⟨n, ⟨hdigits, rfl⟩, hrange, hv⟩
    exact ⟨hdigits, hrange, hv⟩
  · rintro ⟨hdigits, hrange, hv⟩
    exact ⟨_, ⟨hdigits, rfl⟩, hrange, hv⟩

theorem whole?_sound {s : List Char} {v : Setting} (h : whole? s = some v) : Numeral s v := by
  unfold whole? at h
  split at h
  · obtain ⟨hdigits, hrange, rfl⟩ := ranged_eq_some.mp h
    exact .negative hdigits hrange
  · obtain ⟨hdigits, hrange, rfl⟩ := ranged_eq_some.mp h
    exact .whole .plus hdigits hrange
  · obtain ⟨hdigits, hrange, rfl⟩ := ranged_eq_some.mp h
    exact .whole .missing hdigits hrange

theorem whole?_of_digits {s : List Char} (hdigits : Digits s)
    (hrange : Toml.decimalNumber s < 2 * Toml.halfRange) :
    whole? s = some (.unsigned (Toml.decimalNumber s)) := by
  unfold whole?
  split
  · exact absurd rfl (hdigits.head_ne rfl)
  · exact absurd rfl (hdigits.head_ne rfl)
  · exact ranged_eq_some.mpr ⟨hdigits, hrange, rfl⟩

/-- A number with a point is read in front of the point, behind it and in the exponent. -/
theorem float?_append {sign before behind exponent : List Char} {negative : Bool} {x : Binary64}
    (hsign : Toml.readSign (sign ++ (before ++ behind ++ exponent)) =
      (negative, before ++ behind ++ exponent))
    (hmantissa : ∀ c ∈ before ++ behind, isMantissa c = true)
    (hexponent : ∀ c ∈ exponent.head?, isMantissa c = false)
    (hbefore : ∀ c ∈ before, (c != '.') = true) (hbehind : ∀ c ∈ behind.head?, (c != '.') = false) :
    float? (sign ++ (before ++ behind ++ exponent)) = some x ↔
      ∃ e, Digits (before ++ behind.drop 1) ∧ Exponent exponent e ∧
        .number negative (.ofDecimal ⟨Toml.decimalNumber (before ++ behind.drop 1),
          e - (behind.drop 1).length⟩) = x := by
  simp only [float?, hsign, splitExponent_append hmantissa hexponent,
    takeWhile_front hbefore hbehind, List.drop_left, Option.bind_eq_bind, Option.bind_eq_some_iff,
    digits?_eq_some, exponent?_tail? hexponent, Option.pure_def, Option.some.injEq]
  constructor
  · rintro ⟨n, ⟨hdigits, rfl⟩, e, he, hx⟩
    exact ⟨e, hdigits, he, hx⟩
  · rintro ⟨e, hdigits, he, hx⟩
    exact ⟨_, ⟨hdigits, rfl⟩, e, he, hx⟩

theorem float?_sound {s : List Char} {x : Binary64} (h : float? s = some x) (hpoint : '.' ∈ s) :
    Numeral s (.float x) := by
  obtain ⟨sign, s, negative, rfl, hsign, hread⟩ := exists_sign s
  obtain ⟨mantissa, exponent, rfl, hmantissa, hexponent⟩ := exists_front isMantissa s
  obtain ⟨before, behind, rfl, hbefore, hbehind⟩ := exists_front (· != '.') mantissa
  obtain ⟨e, hdigits, he, rfl⟩ :=
    (float?_append hread hmantissa hexponent hbefore hbehind).mp h
  cases behind with
  | nil =>
    have hno : '.' ∉ before := fun hmem => by simpa using hbefore _ hmem
    simp [hsign.not_mem, hno, he.not_mem] at hpoint
  | cons c after =>
    obtain rfl : c = '.' := by simpa using hbehind c rfl
    exact .decimal hsign hdigits he

theorem float?_complete {sign before after exponent : List Char} {negative : Bool} {e : Int}
    (hsign : Sign sign negative) (hdigits : Digits (before ++ after))
    (hexponent : Exponent exponent e) :
    float? (sign ++ (before ++ '.' :: after ++ exponent)) = some (.number negative
      (.ofDecimal ⟨Toml.decimalNumber (before ++ after), e - after.length⟩)) := by
  have hother : ∀ {d}, d.isDigit = false → d ∉ before ∧ d ∉ after :=
    fun hd => not_or.mp (List.mem_append.not.mp (hdigits.not_mem hd))
  have hhead : ∀ {d}, d.isDigit = false → d ≠ '.' →
      (before ++ '.' :: after ++ exponent).head? ≠ some d := by
    intro d hd hpoint hhead
    cases before with
    | nil => exact hpoint (Option.some.inj hhead).symm
    | cons c before => exact (hother hd).1 (List.mem_of_mem_head? (by simpa using hhead))
  refine (float?_append ?_ ?_ hexponent.head ?_ ?_).mpr ⟨e, hdigits, hexponent, rfl⟩
  · exact hsign.readSign (hhead rfl (by decide)) (hhead rfl (by decide))
  · intro c hc
    by_contra hmark
    rcases isMantissa_eq_false.mp (Bool.eq_false_of_not_eq_true hmark) with rfl | rfl
    · simp [hother] at hc
    · simp [hother] at hc
  · intro c hc
    rw [bne_iff_ne]
    rintro rfl
    exact (hother rfl).1 hc
  · simp

theorem bare_of_float? {s : List Char} {x : Binary64} (hpoint : '.' ∈ s) (h : float? s = some x) :
    bare s = .float x := by
  simp [bare, hpoint, h]

theorem bare_of_whole? {s : List Char} {v : Setting} (hpoint : '.' ∉ s) (h : whole? s = some v) :
    bare s = v := by
  simp [bare, hpoint, h]

theorem Numeral.bare {s : List Char} {v : Setting} (h : Numeral s v) : Environment.bare s = v := by
  cases h with
  | whole hsign hdigits hrange =>
    apply bare_of_whole?
    · simp [hsign.not_mem, hdigits.not_mem]
    · cases hsign with
      | missing => exact whole?_of_digits hdigits hrange
      | plus => exact ranged_eq_some.mpr ⟨hdigits, hrange, rfl⟩
  | negative hdigits hrange =>
    apply bare_of_whole?
    · simp [hdigits.not_mem]
    · exact ranged_eq_some.mpr ⟨hdigits, hrange, rfl⟩
  | decimal hsign hdigits hexponent =>
    exact bare_of_float? (by simp) (float?_complete hsign hdigits hexponent)

theorem Numeral.ne_text {s : List Char} {v : Setting} (h : Numeral s v) (t : String) :
    v ≠ .text t := by
  cases h with
  | whole => simp
  | negative => simp
  | decimal => simp

theorem Numeral.not_mem {s : List Char} {v : Setting} {c : Char} (h : Numeral s v)
    (hdigit : c.isDigit = false) (hother : c ∉ ['+', '-', '.', 'e', 'E']) : c ∉ s := by
  have hsign : c ∉ ['+', '-'] := fun hc => hother (by simp at hc ⊢; tauto)
  have hmark : c ∉ ['e', 'E'] := fun hc => hother (by simp at hc ⊢; tauto)
  have hpoint : c ≠ '.' := by
    rintro rfl
    exact hother (by simp)
  cases h with
  | whole hsign' hdigits => simp [hsign'.not_mem hsign, hdigits.not_mem hdigit]
  | negative hdigits =>
    have hminus : c ≠ '-' := fun hc => hsign (by simp [hc])
    simp [hminus, hdigits.not_mem hdigit]
  | decimal hsign' hdigits hexponent =>
    have hdigits := hdigits.not_mem hdigit
    rw [List.mem_append, not_or] at hdigits
    simp [hsign'.not_mem hsign, hdigits, hpoint, hexponent.not_mem hdigit hsign hmark]

/-- The reader of texts without quotes and brackets tells a number from all others. -/
theorem bareValue_iff {s : List Char} {v : Setting} : BareValue s v ↔ bare s = v := by
  have htext : (∀ w, ¬ Numeral s w) → bare s = .text (String.ofList s) := by
    intro hnone
    have hwhole : whole? s = none :=
      Option.eq_none_iff_forall_ne_some.mpr (fun w hw => hnone w (whole?_sound hw))
    have hfloat : '.' ∈ s → float? s = none := fun hpoint =>
      Option.eq_none_iff_forall_ne_some.mpr (fun x hx => hnone _ (float?_sound hx hpoint))
    by_cases hpoint : '.' ∈ s
    · simp [bare, hpoint, hfloat, hwhole]
    · simp [bare, hpoint, hwhole]
  constructor
  · rintro (h | h)
    · exact h.bare
    · exact htext h
  · rintro rfl
    by_cases hnumeral : ∃ w, Numeral s w
    · obtain ⟨w, hw⟩ := hnumeral
      exact hw.bare ▸ .number hw
    · rw [not_exists] at hnumeral
      exact htext hnumeral ▸ .text hnumeral

end CrudLayers.Environment
