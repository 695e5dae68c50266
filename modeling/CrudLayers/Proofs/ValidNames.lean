import CrudLayers.Proofs.Delegation
import CrudLayers.Proofs.FilePaths
import CrudLayers.Proofs.Identifiers
import CrudLayers.Proofs.Resolution
import CrudLayers.Proofs.ResolverText

namespace CrudLayers

section Grammar

def IsSmall (c : Char) : Prop :=
  'a' ≤ c ∧ c ≤ 'z'

def IsLetter (c : Char) : Prop :=
  'A' ≤ c ∧ c ≤ 'Z' ∨ IsSmall c

def IsWordChar (c : Char) : Prop :=
  IsLetter c ∨ '0' ≤ c ∧ c ≤ '9' ∨ c = '_'

instance (c : Char) : Decidable (IsSmall c) :=
  inferInstanceAs (Decidable (_ ∧ _))

instance (c : Char) : Decidable (IsLetter c) :=
  inferInstanceAs (Decidable (_ ∨ _))

instance (c : Char) : Decidable (IsWordChar c) :=
  inferInstanceAs (Decidable (_ ∨ _))

/-- A character of one sort, and then only what a word may have. -/
def IsWord (first : Char → Prop) : List Char → Prop
  | [] => False
  | c :: cs => first c ∧ ∀ d ∈ cs, IsWordChar d

-- The characters of the text are looked at; they are not sought among all that there are.
instance {first : Char → Prop} [DecidablePred first] : DecidablePred (IsWord first)
  | [] => inferInstanceAs (Decidable False)
  | c :: cs =>
    have : Decidable (∀ d ∈ cs, IsWordChar d) := List.decidableBAll _ cs
    decidable_of_iff (first c ∧ ∀ d ∈ cs, IsWordChar d) Iff.rfl

/-- A letter, and then letters, digits and underscores. -/
def IsIdentifier (s : String) : Prop :=
  IsWord IsLetter s.toList

instance (s : String) : Decidable (IsIdentifier s) :=
  inferInstanceAs (Decidable (IsWord IsLetter s.toList))

/-- The first rule for names that a text breaks. -/
inductive Breaks : List Char → NameFault → Prop where
  | empty : Breaks [] .empty
  | firstLetter {c : Char} {cs : List Char} (h : ¬IsSmall c) : Breaks (c :: cs) .firstLetter
  | alphabet {c d : Char} {cs : List Char} (hc : IsSmall c) (hd : d ∈ cs) (h : ¬IsWordChar d) :
    Breaks (c :: cs) .alphabet

variable {c : Char} {s : List Char}

theorem isLower_iff : c.isLower = true ↔ IsSmall c := by
  simp [Char.isLower, IsSmall, Char.le_def]

theorem isUpper_iff : c.isUpper = true ↔ 'A' ≤ c ∧ c ≤ 'Z' := by
  simp [Char.isUpper, Char.le_def]

theorem isDigit_iff : c.isDigit = true ↔ '0' ≤ c ∧ c ≤ '9' := by
  simp [Char.isDigit, Char.le_def]

theorem isNameChar_iff : isNameChar c = true ↔ IsWordChar c := by
  simp only [isNameChar, Char.isAlphanum, Char.isAlpha, Bool.or_eq_true, beq_iff_eq, isLower_iff,
    isUpper_iff, isDigit_iff, IsWordChar, IsLetter, or_assoc]

theorem nameFault?_eq_none : nameFault? s = none ↔ IsWord IsSmall s := by
  cases s with
  | nil => simp [nameFault?, IsWord]
  | cons c cs =>
    by_cases hc : IsSmall c <;>
      simp [nameFault?, IsWord, isLower_iff, isNameChar_iff, hc]

theorem nameFault?_eq_some {fault : NameFault} : nameFault? s = some fault ↔ Breaks s fault := by
  cases s with
  | nil =>
    rw [nameFault?, Option.some.injEq]
    constructor
    · rintro rfl
      exact .empty
    · intro h
      cases h
      rfl
  | cons c cs =>
    simp only [nameFault?, isLower_iff, List.all_eq_true, isNameChar_iff]
    constructor
    · intro h
      split at h
      · rename_i hc
        split at h
        · cases h
        · rename_i hcs
          cases h
          push Not at hcs
          obtain ⟨d, hd, hword⟩ := hcs
          exact .alphabet hc hd hword
      · rename_i hc
        cases h
        exact .firstLetter hc
    · intro h
      cases h with
      | firstLetter h => rw [if_neg h]
      | alphabet hc hd h => rw [if_pos hc, if_neg (fun hall => h (hall _ hd))]

end Grammar

namespace IsIdentifier

variable {s t : String}

theorem chars (h : IsIdentifier s) : ∀ c ∈ s.toList, IsWordChar c := by
  rw [IsIdentifier] at h
  cases hs : s.toList with
  | nil => exact List.forall_mem_nil _
  | cons c cs =>
    rw [hs] at h
    exact List.forall_mem_cons.mpr ⟨.inl h.1, h.2⟩

theorem append (h : IsIdentifier s) (ht : ∀ c ∈ t.toList, IsWordChar c) :
    IsIdentifier (s ++ t) := by
  rw [IsIdentifier] at h ⊢
  rw [String.toList_append]
  cases hs : s.toList with
  | nil => simp [hs, IsWord] at h
  | cons c cs =>
    rw [hs] at h
    exact ⟨h.1, List.forall_mem_append.mpr ⟨h.2, ht⟩⟩

end IsIdentifier

/-- What is written around a stem keeps it an identifier. -/
structure NamePattern.KeepsWord (p : NamePattern) : Prop where
  before : p.before = "" ∨ IsIdentifier p.before
  after : p.after.toList.all isNameChar = true

instance (p : NamePattern) : Decidable p.KeepsWord :=
  decidable_of_iff ((p.before = "" ∨ IsIdentifier p.before) ∧ p.after.toList.all isNameChar = true)
    ⟨fun h => ⟨h.1, h.2⟩, fun h => ⟨h.before, h.after⟩⟩

section Stems

variable (n : EntityName)

theorem isIdentifier_stem (k : Stem) : IsIdentifier (n.stem k) := by
  obtain ⟨first, rest, ht, hl, hrest⟩ := n.shape
  have hword : ∀ c ∈ rest, IsWordChar c := fun c hc => isNameChar_iff.mp (hrest c hc)
  cases k with
  | object =>
    rw [IsIdentifier, EntityName.stem, ht]
    exact ⟨.inr (isLower_iff.mp hl), hword⟩
  | model =>
    rw [IsIdentifier, EntityName.stem, EntityName.toList_model, ht, EntityName.capitalize]
    exact ⟨.inl (isUpper_iff.mp (isUpper_toUpper hl)), hword⟩

theorem NamePattern.KeepsWord.fill {p : NamePattern} (h : p.KeepsWord) :
    IsIdentifier (p.fill n) := by
  have hstem := isIdentifier_stem n p.stem
  have hafter : ∀ c ∈ p.after.toList, IsWordChar c :=
    fun c hc => isNameChar_iff.mp (List.all_eq_true.mp h.after c hc)
  rw [NamePattern.fill]
  rcases h.before with hbefore | hbefore
  · rw [hbefore, String.empty_append]
    exact hstem.append hafter
  · exact (hbefore.append hstem.chars).append hafter

theorem isIdentifier_derived (d : DerivedName) : IsIdentifier (n.derived d) := by
  have hkeeps : d.pattern.KeepsWord := by cases d <;> decide
  exact hkeeps.fill n

theorem isIdentifier_exposedName (f : ResolverField) : IsIdentifier (f.exposedName n) := by
  have hkeeps : f.pattern.KeepsWord := by cases f <;> decide
  exact hkeeps.fill n

theorem isIdentifier_symbol {t : TypeRef} {symbol : String} (h : t.symbol? n = some symbol) :
    IsIdentifier symbol := by
  obtain ⟨d, _, rfl⟩ := Option.map_eq_some_iff.mp h
  exact isIdentifier_derived n d

theorem isIdentifier_methodName (o : Operation) : IsIdentifier o.methodName := by
  cases o <;> decide

end Stems

/-- A name of a file that lies in the directory that it is written to. -/
structure IsFileName (s : String) : Prop where
  slash : '/' ∉ s.toList
  nul : '\x00' ∉ s.toList
  dots : s.toList.count '.' = 2

theorem Layer.isFileName (l : Layer) (n : EntityName) : IsFileName (l.fileName n.text) := by
  have hends : '/' ∉ ("." ++ l.name ++ ".ts").toList ∧ '\x00' ∉ ("." ++ l.name ++ ".ts").toList ∧
      ("." ++ l.name ++ ".ts").toList.count '.' = 2 := by
    cases l <;> decide
  have hname : ∀ c, isNameChar c = false → c ∉ n.text.toList := by
    intro c hc hmem
    rw [n.text_chars c hmem] at hc
    cases hc
  have hparts : (l.fileName n.text).toList = n.text.toList ++ ("." ++ l.name ++ ".ts").toList := by
    simp [fileName]
  obtain ⟨hslash, hnul, hdots⟩ := hends
  refine ⟨?_, ?_, ?_⟩
  · rw [hparts, List.mem_append, not_or]
    exact ⟨hname _ (by decide), hslash⟩
  · rw [hparts, List.mem_append, not_or]
    exact ⟨hname _ (by decide), hnul⟩
  · rw [hparts, List.count_append, List.count_eq_zero.mpr (hname _ (by decide)), hdots]

namespace Blueprint

/-- What is named after an entity in its files, and the names of the files themselves. -/
structure SafeNames (b : Blueprint) (names : ModuleNames) : Prop where
  derived : ∀ d, IsIdentifier (b.name.derived d)
  symbols : ∀ (t : TypeRef) symbol, t.symbol? b.name = some symbol → IsIdentifier symbol
  exposed : ∀ f : ResolverField, IsIdentifier (f.exposedName b.name)
  className : ∀ l, IsIdentifier (b.sourceFile names l).decl.name
  field : ∀ l, IsIdentifier (b.sourceFile names l).decl.collaborator.field
  methods : ∀ l, ∀ name ∈ (b.sourceFile names l).methodNames, IsIdentifier name
  files : ∀ l, ∃ file, Path.fileName? (b.sourceFile names l).path = some file ∧ IsFileName file

variable (b : Blueprint) (names : ModuleNames) (l : Layer)

theorem isIdentifier_field : IsIdentifier (b.sourceFile names l).decl.collaborator.field := by
  cases l with
  | repository =>
    rw [sourceFile, repositoryFile_decl]
    exact isIdentifier_derived b.name .repositoryField
  | service =>
    rw [sourceFile, serviceFile_decl]
    exact isIdentifier_derived b.name .repositoryField
  | resolver =>
    rw [sourceFile, resolverFile_decl]
    exact isIdentifier_derived b.name .serviceField

theorem isIdentifier_method :
    ∀ name ∈ (b.sourceFile names l).methodNames, IsIdentifier name := by
  rw [SourceFile.methodNames, List.forall_mem_map]
  intro m hm
  cases l with
  | repository =>
    rw [sourceFile, repositoryFile_decl] at hm
    obtain ⟨e, _, rfl⟩ := List.mem_map.mp hm
    exact isIdentifier_methodName e.operation
  | service =>
    rw [sourceFile, serviceFile_decl] at hm
    obtain ⟨e, _, rfl⟩ := List.mem_map.mp hm
    exact isIdentifier_methodName e.operation
  | resolver =>
    rw [sourceFile, resolverFile_decl] at hm
    obtain ⟨f, _, rfl⟩ := List.mem_map.mp hm
    exact isIdentifier_exposedName b.name f

theorem safeNames : b.SafeNames names where
  derived := isIdentifier_derived b.name
  symbols _ _ := isIdentifier_symbol b.name
  exposed := isIdentifier_exposedName b.name
  className l := by
    rw [decl_name]
    exact isIdentifier_derived b.name l.className
  field := b.isIdentifier_field names
  methods := b.isIdentifier_method names
  files l := ⟨l.fileName b.name.text, by rw [sourceFile_path, fileName?_filePath],
    l.isFileName b.name⟩

end Blueprint

namespace EntityName

variable {s : String}

theorem exists_ofString_iff : (∃ n, ofString s = .ok n) ↔ IsWord IsSmall s.toList := by
  rw [← nameFault?_eq_none]
  constructor
  · rintro ⟨n, hn⟩
    rw [← text_of_ofString hn]
    exact n.valid
  · intro h
    exact ⟨⟨s, h⟩, ofString_text ⟨s, h⟩⟩

theorem ofString_eq_error_iff {fault : NameFault} :
    ofString s = .error fault ↔ Breaks s.toList fault := by
  rw [← nameFault?_eq_some, ofString]
  split
  · rename_i h
    simp [h]
  · rename_i found h
    simp [h]

/-- The first byte of a name is a letter, and the model has it as a capital. -/
theorem split_first (n : EntityName) : ∃ head tail : String, n.text = head ++ tail ∧
    head.utf8ByteSize = 1 ∧ n.model = String.ofList (head.toList.map Char.toUpper) ++ tail := by
  obtain ⟨first, rest, ht, hl, _⟩ := n.shape
  have hbyte : first.utf8Size = 1 := by
    have hcode := List.mem_range'_1.mp (code_of_isLower hl)
    rw [Char.utf8Size_eq_one_iff, UInt32.le_iff_toNat_le]
    exact Nat.le_trans (Nat.le_of_lt_succ hcode.2) (by decide)
  refine ⟨String.singleton first, String.ofList rest, ?_, ?_, ?_⟩
  · apply String.toList_injective
    simp [ht]
  · simpa using hbyte
  · apply String.toList_injective
    simp [toList_model, ht, capitalize]

end EntityName

namespace CommandLine

/-- A text names an entity exactly if it is a small letter and then letters, digits and underscores.
Any other is refused for the first rule that it breaks, and the complaint shows it unchanged. A name
can be cut behind its first byte, and whatever is named after its entity is an identifier, or the
name of a file in the directory of the entity. -/
theorem name_accepted_or_refused (s : String) :
    ((∃ n, EntityName.ofString s = .ok n) ↔ IsWord IsSmall s.toList) ∧
    (∀ fault, EntityName.ofString s = .error fault ↔ Breaks s.toList fault) ∧
    (∀ fault, Breaks s.toList fault → ∃ refusal : Failure,
      refusal = ⟨"Invalid entity '" ++ s ++ "'", ["Invalid entity name '" ++ s ++ "': " ++
        match fault with
        | .empty => "name cannot be empty"
        | .firstLetter => "must start with a lowercase ASCII letter (lowerCamelCase)"
        | .alphabet => "only ASCII letters, digits and underscores are allowed"]⟩ ∧
      (∀ around c flags, blueprint around c flags s = .error refusal) ∧
      catalog s = throw refusal) ∧
    ∀ n, EntityName.ofString s = .ok n → n.text = s ∧
      (∃ head tail : String, s = head ++ tail ∧ head.utf8ByteSize = 1 ∧
        n.model = String.ofList (head.toList.map Char.toUpper) ++ tail) ∧
      ∀ (b : Blueprint) (names : ModuleNames), b.name = n → b.SafeNames names := by
  refine ⟨EntityName.exists_ofString_iff, fun _ => EntityName.ofString_eq_error_iff, ?_, ?_⟩
  · intro fault h
    have hname := EntityName.ofString_eq_error_iff.mpr h
    refine ⟨Failure.ofName s fault, ?_, ?_, ?_⟩
    · cases fault <;> rfl
    · intro around c flags
      rw [blueprint, hname]
    · rw [catalog, hname]
  · intro n hn
    have htext := EntityName.text_of_ofString hn
    refine ⟨htext, ?_, fun b names _ => b.safeNames names⟩
    rw [← htext]
    exact n.split_first

section Order

open Blueprint

/-- A model's name is refused for its capital, and the name of its entity is accepted. -/
theorem name_accepted_or_refused_order :
    blueprint ⟨"/", []⟩ .standard ⟨none, [], none, none⟩ "Order" =
      .error ⟨"Invalid entity 'Order'", ["Invalid entity name 'Order': " ++
        "must start with a lowercase ASCII letter (lowerCamelCase)"]⟩ ∧
    EntityName.ofString "order" = .ok orderName ∧ rootOrder.name = orderName ∧
      rootOrder.SafeNames .standard := by
  have hbreaks : Breaks "Order".toList .firstLetter := .firstLetter (by decide)
  have hname : EntityName.ofString "order" = .ok orderName := EntityName.ofString_text orderName
  obtain ⟨_, rfl, hrefused, _⟩ := (name_accepted_or_refused "Order").2.2.1 _ hbreaks
  obtain ⟨_, _, hsafe⟩ := (name_accepted_or_refused "order").2.2.2 _ hname
  exact ⟨hrefused _ _ _, hname, rfl, hsafe _ _ rfl⟩

end Order

end CommandLine

end CrudLayers
