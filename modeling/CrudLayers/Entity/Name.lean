namespace CrudLayers

inductive NameFault where
  | empty
  | firstLetter
  | alphabet
deriving DecidableEq

def NameFault.reason : NameFault → String
  | .empty => "name cannot be empty"
  | .firstLetter => "must start with a lowercase ASCII letter (lowerCamelCase)"
  | .alphabet => "only ASCII letters, digits and underscores are allowed"

def isNameChar (c : Char) : Bool :=
  c.isAlphanum || c == '_'

/-- The first rule that a text breaks as an entity name. -/
def nameFault? : List Char → Option NameFault
  | [] => some .empty
  | first :: rest =>
    if first.isLower then
      if rest.all isNameChar then none else some .alphabet
    else some .firstLetter

/-- An object name such as `order` or `orderItem`. -/
structure EntityName where
  text : String
  valid : nameFault? text.toList = none
deriving DecidableEq

namespace EntityName

def ofString (s : String) : Except NameFault EntityName :=
  match h : nameFault? s.toList with
  | none => .ok ⟨s, h⟩
  | some fault => .error fault

/-- Makes the first character a capital; on a valid name it is an ASCII letter. -/
def capitalize : List Char → List Char
  | [] => []
  | first :: rest => first.toUpper :: rest

/-- The name of the entity's model class: `Order` for `order`. -/
def model (n : EntityName) : String :=
  String.ofList (capitalize n.text.toList)

theorem ofString_text (n : EntityName) : ofString n.text = .ok n := by
  unfold ofString
  split
  · rfl
  · rename_i fault h
    rw [n.valid] at h
    contradiction

theorem text_of_ofString {s : String} {n : EntityName} (h : ofString s = .ok n) : n.text = s := by
  unfold ofString at h
  split at h
  · cases h
    rfl
  · contradiction

theorem toList_model (n : EntityName) : n.model.toList = capitalize n.text.toList := by
  simp [model]

end EntityName

end CrudLayers
