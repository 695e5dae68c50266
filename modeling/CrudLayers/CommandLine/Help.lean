import CrudLayers.CommandLine.Grammar

namespace CrudLayers.CommandLine.Help

structure Item where
  label : String
  help : String
  standard : Option String
  choices : List (String × String)

def spaces (n : Nat) : String :=
  String.ofList (List.replicate n ' ')

def padTo (width : Nat) (s : String) : String :=
  s ++ spaces (width - s.length)

def itemOfSwitch (o : Switch) : Item where
  label := (match o.short with
    | some c => "-" ++ String.singleton c ++ ", "
    | none => spaces 4) ++ o.label
  help := o.help
  standard := o.standard
  choices := match o.value with
    | some (_, .choice values) => values
    | _ => []

def operandLabel (a : Operand) : String :=
  (if a.required then "<" ++ a.name ++ ">" else "[" ++ a.name ++ "]") ++
    (if a.many then "..." else "")

def itemOfOperand (a : Operand) : Item :=
  ⟨operandLabel a, a.help, a.standard, []⟩

def widest (labels : List String) : Nat :=
  (labels.map String.length).foldl max 0

/-- What the short form adds to the help of an item. -/
def Item.notes (i : Item) : List String :=
  (match i.standard with
    | some s => ["[default: " ++ s ++ "]"]
    | none => []) ++
  (if i.choices = [] then []
    else ["[possible values: " ++ ", ".intercalate (i.choices.map Prod.fst) ++ "]"])

def shortItem (width : Nat) (i : Item) : String :=
  "  " ++ padTo width i.label ++ "  " ++ " ".intercalate (i.help :: i.notes) ++ "\n"

def shortItems (items : List Item) : String :=
  String.join (items.map (shortItem (widest (items.map Item.label))))

/-- The place where a description starts in the long form. -/
def margin : String :=
  spaces 10

def longChoices (choices : List (String × String)) : String :=
  if choices = [] then ""
  else
    let width := widest (choices.map Prod.fst) + 1
    "\n" ++ margin ++ "Possible values:\n" ++
      String.join (choices.map (fun c =>
        margin ++ "- " ++ padTo width (c.1 ++ ":") ++ " " ++ c.2 ++ "\n"))

def longItem (i : Item) : String :=
  "  " ++ i.label ++ "\n" ++ margin ++ i.help ++ "\n" ++ longChoices i.choices ++
    (match i.standard with
    | some s => margin ++ "\n" ++ margin ++ "[default: " ++ s ++ "]\n"
    | none => "")

def longItems (items : List Item) : String :=
  "\n".intercalate (items.map longItem)

def items (long : Bool) (l : List Item) : String :=
  if long then longItems l else shortItems l

def helpItem (long : Bool) : Item :=
  ⟨"-h, --help",
    if long then "Print help (see a summary with '-h')" else "Print help (see more with '--help')",
    none, []⟩

def versionItem : Item :=
  ⟨"-V, --version", "Print version", none, []⟩

def usage (parts : List String) : String :=
  "Usage: " ++ " ".intercalate (programName :: parts) ++ "\n"

def ofProgram (long : Bool) : String :=
  let commands := Command.all.map (fun c => (c.name, c.about)) ++ [(helpName, helpAbout)]
  let width := widest (commands.map Prod.fst)
  programAbout ++ "\n\n" ++ usage ["[OPTIONS]", "<COMMAND>"] ++ "\nCommands:\n" ++
    String.join (commands.map (fun c => "  " ++ padTo width c.1 ++ "  " ++ c.2 ++ "\n")) ++
    "\nOptions:\n" ++
    items long (Switch.everywhere.map itemOfSwitch ++ [helpItem long, versionItem])

def ofCommand (long : Bool) (c : Command) : String :=
  let operands := c.operand.toList
  c.about ++ "\n\n" ++ usage ([c.name, "[OPTIONS]"] ++ operands.map operandLabel) ++
    (if operands.isEmpty then ""
      else "\nArguments:\n" ++ items long (operands.map itemOfOperand)) ++
    "\nOptions:\n" ++ items long (c.options.map itemOfSwitch ++ [helpItem long])

def ofHelp : String :=
  let operand : Operand := ⟨"COMMAND", false, true, "Print help for the subcommand(s)", none⟩
  helpAbout ++ "\n\n" ++ usage [helpName, operandLabel operand] ++ "\nArguments:\n" ++
    items false [itemOfOperand operand]

end CrudLayers.CommandLine.Help
